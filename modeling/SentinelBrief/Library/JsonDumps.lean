import SentinelBrief.Library.JsonNumbers

/-!
JSON writers that differ in how they escape a string and where they leave
blanks. What any of them writes is read back.
-/
namespace JsonText
open Utf8Text DoubleText

def High (c : Nat) : Prop := 0xD800 ≤ c ∧ c ≤ 0xDBFF

def Low (c : Nat) : Prop := 0xDC00 ≤ c ∧ c ≤ 0xDFFF

/-- No two code points of the text are the halves of a third one. -/
structure Apart (s : PyStr) : Prop where
  bound : ∀ c ∈ s, c < 0x110000
  chain : s.IsChain fun c d => High c → ¬ Low d

theorem apart_nil : Apart [] := ⟨by simp, .nil⟩

theorem apart_cons {c : Nat} {s : PyStr} (apart : Apart (c :: s)) :
    c < 0x110000 ∧ (∀ d, s.head? = some d → High c → ¬ Low d) ∧ Apart s := by
  obtain ⟨bound, chain⟩ := apart
  have tail : ∀ d ∈ s, d < 0x110000 := fun d member => bound d (by simp [member])
  cases s with
  | nil => exact ⟨bound c (by simp), by simp, tail, .nil⟩
  | cons d s =>
    obtain ⟨first, rest⟩ := List.isChain_cons_cons.mp chain
    exact ⟨bound c (by simp), by simpa using first, tail, rest⟩

theorem apart_of_encodes {s : PyStr} (encodes : Encodes s) : Apart s where
  bound c member := by
    have scalar := encodes c member
    unfold Scalar at scalar
    omega
  chain := by
    refine List.isChain_iff_getElem.mpr fun i bound high => ?_
    have scalar := encodes s[i] (List.getElem_mem _)
    unfold Scalar at scalar
    unfold High at high
    omega

/-- `margin` stands between a bracket and what it encloses, `gap` after a comma,
    each by the depth of the line, and `colon` after a colon. -/
structure Layout where
  point : Nat → PyStr
  float : Double → PyStr
  margin : Nat → PyStr
  gap : Nat → PyStr
  colon : PyStr
  point_some : ∀ c, point c ≠ []
  point_read : ∀ fuel c s, c < 0x110000 → (High c → lowHalf s = none) →
    scanString (fuel + 1) (point c ++ s) = (scanString fuel s).map fun r => (c :: r.1, r.2)
  point_apart : ∀ c s, c < 0x110000 → ¬ Low c → lowHalf (point c ++ s) = none
  float_plain : ∀ f, Plain (float f)
  margin_blank : ∀ level, ∀ c ∈ margin level, isSpace c = true
  gap_blank : ∀ level, ∀ c ∈ gap level, isSpace c = true
  colon_blank : ∀ c ∈ colon, isSpace c = true

def Layout.quote (w : Layout) (s : PyStr) : PyStr := 0x22 :: (s.flatMap w.point ++ [0x22])

mutual
def Json.dumps (w : Layout) (level : Nat) : Json → PyStr
  | .null => str "null"
  | .bool b => if b then str "true" else str "false"
  | .int i => intText i
  | .float f => w.float f
  | .str s => w.quote s
  | .arr [] => [0x5B, 0x5D]
  | .arr (x :: xs) =>
    0x5B :: (w.margin (level + 1) ++ (x.dumps w (level + 1) ++
      (itemsDumps w (level + 1) xs ++ (w.margin level ++ [0x5D]))))
  | .obj [] => [0x7B, 0x7D]
  | .obj ((k, v) :: fs) =>
    0x7B :: (w.margin (level + 1) ++ (w.quote k ++ 0x3A :: (w.colon ++ (v.dumps w (level + 1) ++
      (membersDumps w (level + 1) fs ++ (w.margin level ++ [0x7D]))))))

def itemsDumps (w : Layout) (level : Nat) : List Json → PyStr
  | [] => []
  | x :: xs => 0x2C :: (w.gap level ++ (x.dumps w level ++ itemsDumps w level xs))

def membersDumps (w : Layout) (level : Nat) : List (PyStr × Json) → PyStr
  | [] => []
  | (k, v) :: fs =>
    0x2C :: (w.gap level ++ (w.quote k ++ 0x3A :: (w.colon ++ (v.dumps w level ++
      membersDumps w level fs))))
end

def Layout.FloatReads (w : Layout) (f : Double) : Prop := Reads (w.float f) (.float f)

mutual
/-- No integer past the digit limit, no key twice. -/
def Json.Readable (w : Layout) : Json → Prop
  | .null => True
  | .bool _ => True
  | .int i => (digitsText i.natAbs).length ≤ intMaxStrDigits
  | .float f => w.FloatReads f
  | .str s => Apart s
  | .arr xs => itemsReadable w xs
  | .obj fs => (fs.map (·.1)).Nodup ∧ membersReadable w fs

def itemsReadable (w : Layout) : List Json → Prop
  | [] => True
  | x :: xs => x.Readable w ∧ itemsReadable w xs

def membersReadable (w : Layout) : List (PyStr × Json) → Prop
  | [] => True
  | (k, v) :: fs => Apart k ∧ v.Readable w ∧ membersReadable w fs
end

theorem itemsReadable_iff {w : Layout} (xs : List Json) :
    itemsReadable w xs ↔ ∀ x ∈ xs, x.Readable w := by
  induction xs with
  | nil => simp [itemsReadable]
  | cons x xs ih => simp [itemsReadable, ih]

theorem membersReadable_iff {w : Layout} (fs : List (PyStr × Json)) :
    membersReadable w fs ↔ ∀ f ∈ fs, Apart f.1 ∧ f.2.Readable w := by
  induction fs with
  | nil => simp [membersReadable]
  | cons f fs ih => simp [membersReadable, ih, and_assoc]

theorem readable_obj {w : Layout} {fs : List (PyStr × Json)} {names : List PyStr}
    (named : fs.map (·.1) = names) (distinct : names.Nodup) (keys : ∀ k ∈ names, Apart k)
    (values : ∀ v ∈ fs.map (·.2), v.Readable w) : (Json.obj fs).Readable w := by
  subst named
  rw [Json.Readable, membersReadable_iff]
  exact ⟨distinct, fun f member =>
    ⟨keys f.1 (List.mem_map_of_mem member), values f.2 (List.mem_map_of_mem member)⟩⟩

theorem itemsDepth_le {xs : List Json} {n : Nat} (deep : ∀ x ∈ xs, x.depth ≤ n) :
    itemsDepth xs ≤ n := by
  induction xs with
  | nil => simp [itemsDepth]
  | cons x xs ih =>
    rw [itemsDepth, Nat.max_le]
    exact ⟨deep x (by simp), ih fun y member => deep y (by simp [member])⟩

theorem membersDepth_le {fs : List (PyStr × Json)} {n : Nat} (deep : ∀ f ∈ fs, f.2.depth ≤ n) :
    membersDepth fs ≤ n := by
  induction fs with
  | nil => simp [membersDepth]
  | cons f fs ih =>
    rw [membersDepth, Nat.max_le]
    exact ⟨deep f (by simp), ih fun g member => deep g (by simp [member])⟩

theorem skipSpace_blank {b : PyStr} (blank : ∀ c ∈ b, isSpace c = true) (s : PyStr) :
    skipSpace (b ++ s) = skipSpace s := by
  rw [skipSpace, skipSpace, List.dropWhile_append_of_pos blank]

theorem skipSpace_solid {s : PyStr} (solid : Solid s) (t : PyStr) : skipSpace (s ++ t) = s ++ t := by
  obtain ⟨c, u, rfl, space, _⟩ := solid
  rw [skipSpace, List.cons_append, List.dropWhile_cons_of_neg (by simp [space])]

theorem space_apart {c : Nat} (space : isSpace c = true) :
    isDigit c = false ∧ c ≠ 0x2E ∧ c ≠ 0x65 ∧ c ≠ 0x45 := by
  simp only [isSpace, Bool.or_eq_true, beq_iff_eq] at space
  rcases space with ((rfl | rfl) | rfl) | rfl <;> decide

theorem stops_blank {b t : PyStr} (blank : ∀ c ∈ b, isSpace c = true) (stops : Stops t) :
    Stops (b ++ t) := by
  cases b with
  | nil => exact stops
  | cons c b => exact stops_cons _ (space_apart (blank c (by simp)))

namespace Layout
variable (w : Layout)

theorem length_flatMap_point (s : PyStr) : s.length ≤ (s.flatMap w.point).length := by
  induction s with
  | nil => simp
  | cons c s ih =>
    have some := List.length_pos_of_ne_nil (w.point_some c)
    simp only [List.flatMap_cons, List.length_append, List.length_cons]
    omega

theorem scanString_body (s t : PyStr) (apart : Apart s) (fuel : Nat)
    (enough : s.length < fuel) :
    scanString fuel (s.flatMap w.point ++ 0x22 :: t) = some (s, t) := by
  induction s generalizing fuel with
  | nil =>
    obtain ⟨fuel, rfl⟩ : ∃ k, fuel = k + 1 := ⟨fuel - 1, by simp at enough; omega⟩
    simp [scanString]
  | cons c s ih =>
    obtain ⟨fuel, rfl⟩ : ∃ k, fuel = k + 1 := ⟨fuel - 1, by simp at enough; omega⟩
    obtain ⟨bound, first, rest⟩ := apart_cons apart
    have next : High c → lowHalf (s.flatMap w.point ++ 0x22 :: t) = none := by
      intro high
      cases s with
      | nil => rfl
      | cons d s =>
        rw [List.flatMap_cons, List.append_assoc]
        exact w.point_apart d _ (apart_cons rest).1 (first d rfl high)
    rw [List.flatMap_cons, List.append_assoc, w.point_read fuel c _ bound next,
      ih rest fuel (by simpa using enough)]
    rfl

/-- A quoted string at the head of a text, its opening quote consumed. -/
theorem scanString_quote {s : PyStr} (apart : Apart s) {fuel : Nat}
    (enough : (w.quote s).length < fuel + 2) (t : PyStr) :
    ∃ u, w.quote s ++ t = 0x22 :: u ∧ scanString fuel u = some (s, t) := by
  have body := w.length_flatMap_point s
  simp only [quote, List.length_cons, List.length_append, List.length_nil] at enough
  refine ⟨s.flatMap w.point ++ 0x22 :: t, by simp [quote], ?_⟩
  exact w.scanString_body s t apart fuel (by omega)

end Layout

theorem solid_quote (w : Layout) (s : PyStr) : Solid (w.quote s) :=
  ⟨0x22, _, rfl, by decide, by decide, by decide, by decide⟩

theorem solid_dumps (w : Layout) (level : Nat) {j : Json} (readable : j.Readable w) :
    Solid (j.dumps w level) := by
  cases j with
  | null => exact ⟨_, _, rfl, by decide, by decide, by decide, by decide⟩
  | bool b => cases b <;> exact ⟨_, _, rfl, by decide, by decide, by decide, by decide⟩
  | int i => simpa only [Json.dumps] using solid_intText i
  | float f =>
    simp only [Json.Readable] at readable
    simpa only [Json.dumps] using readable.1
  | str s => simpa only [Json.dumps] using solid_quote w s
  | arr xs =>
    cases xs <;> simp only [Json.dumps] <;>
      exact ⟨_, _, rfl, by decide, by decide, by decide, by decide⟩
  | obj fs =>
    rcases fs with _ | ⟨⟨k, v⟩, fs⟩ <;> simp only [Json.dumps] <;>
      exact ⟨_, _, rfl, by decide, by decide, by decide, by decide⟩

theorem stops_mark {b t : PyStr} (blank : ∀ c ∈ b, isSpace c = true) (c : Nat)
    (mark : c = 0x2C ∨ c = 0x5D ∨ c = 0x7D) : Stops (b ++ c :: t) := by
  refine stops_blank blank (stops_cons t ?_)
  rcases mark with rfl | rfl | rfl <;> decide

theorem stops_items (w : Layout) (level : Nat) (xs : List Json) (t : PyStr) :
    Stops (itemsDumps w level xs ++ (w.margin (level - 1) ++ 0x5D :: t)) := by
  cases xs with
  | nil => exact stops_mark (w.margin_blank _) 0x5D (by simp)
  | cons x xs =>
    simp only [itemsDumps, List.cons_append]
    exact stops_cons _ (by decide)

theorem stops_members (w : Layout) (level : Nat) (fs : List (PyStr × Json)) (t : PyStr) :
    Stops (membersDumps w level fs ++ (w.margin (level - 1) ++ 0x7D :: t)) := by
  rcases fs with _ | ⟨⟨k, v⟩, fs⟩
  · exact stops_mark (w.margin_blank _) 0x7D (by simp)
  · simp only [membersDumps, List.cons_append]
    exact stops_cons _ (by decide)

/-- An array past its opening bracket, when its first item has been read. -/
theorem scanValue_arr {fuel depth : Nat} {s t : PyStr} {xs : List Json} (solid : Solid s)
    {b : PyStr} (blank : ∀ c ∈ b, isSpace c = true) {u : PyStr}
    (items : scanItems fuel depth (s ++ t) = .ok (xs, u)) :
    scanValue (fuel + 1) (depth + 1) (0x5B :: (b ++ (s ++ t))) = .ok (.arr xs, u) := by
  have space := skipSpace_solid solid t
  obtain ⟨c, v, rfl, _, close, _⟩ := solid
  unfold scanValue
  simp only [skipSpace_blank blank, space]
  simp only [List.cons_append] at items ⊢
  split
  · simp_all
  · rw [items]
    rfl

theorem scanValue_obj {fuel depth : Nat} {s t : PyStr} {fs : List (PyStr × Json)} (solid : Solid s)
    {b : PyStr} (blank : ∀ c ∈ b, isSpace c = true) {u : PyStr}
    (fields : scanFields fuel depth [] (s ++ t) = .ok (fs, u)) :
    scanValue (fuel + 1) (depth + 1) (0x7B :: (b ++ (s ++ t))) = .ok (.obj fs, u) := by
  have space := skipSpace_solid solid t
  obtain ⟨c, v, rfl, _, _, close, _⟩ := solid
  unfold scanValue
  simp only [skipSpace_blank blank, space]
  simp only [List.cons_append] at fields ⊢
  split
  · simp_all
  · rw [fields]
    rfl

theorem setField_fresh {key : PyStr} {fs : List (PyStr × Json)} (fresh : key ∉ fs.map (·.1))
    (v : Json) : setField key v fs = fs ++ [(key, v)] := by
  induction fs with
  | nil => rfl
  | cons f fs ih =>
    simp only [List.map_cons, List.mem_cons, not_or] at fresh
    rw [setField, if_neg (Ne.symm fresh.1), ih fresh.2]
    rfl

theorem key_fresh {acc fs : List (PyStr × Json)} {k : PyStr} {v : Json}
    (distinct : ((acc ++ (k, v) :: fs).map (·.1)).Nodup) : k ∉ acc.map (·.1) := by
  rw [List.map_append, List.map_cons] at distinct
  intro member
  exact (List.nodup_append.mp distinct).2.2 k member k (by simp) rfl

theorem scanFields_member (w : Layout) {fuel depth : Nat} {acc : List (PyStr × Json)} {k : PyStr}
    {v : Json} {s t : PyStr} (apart : Apart k) (enough : (w.quote k).length < fuel + 2)
    (solid : Solid s) (value : scanValue fuel depth (s ++ t) = .ok (v, t)) :
    scanFields (fuel + 1) depth acc (w.quote k ++ 0x3A :: (w.colon ++ (s ++ t))) =
      match skipSpace t with
      | 0x7D :: u => .ok (setField k v acc, u)
      | 0x2C :: u => scanFields fuel depth (setField k v acc) (skipSpace u)
      | _ => .error .decode := by
  obtain ⟨u, opened, body⟩ := w.scanString_quote apart enough (0x3A :: (w.colon ++ (s ++ t)))
  have mark : skipSpace (0x3A :: (w.colon ++ (s ++ t))) = 0x3A :: (w.colon ++ (s ++ t)) := rfl
  have space : skipSpace (w.colon ++ (s ++ t)) = s ++ t := by
    rw [skipSpace_blank w.colon_blank, skipSpace_solid solid]
  rw [opened]
  exact scanFields_one body mark (by rw [space, value])

mutual
theorem scanValue_dumps (w : Layout) : (j : Json) → (level depth fuel : Nat) → (t : PyStr) →
    j.Readable w → j.depth ≤ depth → (j.dumps w level).length < fuel → Stops t →
    scanValue fuel depth (j.dumps w level ++ t) = .ok (j, t)
  | .null, level, depth, fuel + 1, t, _, _, _, _ => by
    simp [Json.dumps, scanValue, scanWord, words, str]
  | .bool b, level, depth, fuel + 1, t, _, _, _, _ => by
    cases b <;> simp [Json.dumps, scanValue, scanWord, words, str]
  | .int i, level, depth, fuel + 1, t, readable, _, _, stops => by
    simp only [Json.Readable] at readable
    simpa only [Json.dumps] using scanValue_intText fuel depth i stops readable
  | .float f, level, depth, fuel + 1, t, readable, _, _, stops => by
    simp only [Json.Readable] at readable
    simpa only [Json.dumps] using readable.2 fuel depth t stops
  | .str s, level, depth, fuel + 1, t, readable, _, enough, _ => by
    simp only [Json.Readable] at readable
    simp only [Json.dumps] at enough ⊢
    have room : (w.quote s).length < fuel + 2 := by omega
    obtain ⟨u, opened, body⟩ := w.scanString_quote readable room t
    rw [opened, scanValue]
    simp only [body]
  | .arr [], level, depth + 1, fuel + 1, t, _, _, _, _ => by
    simp [Json.dumps, scanValue, skipSpace, isSpace]
  | .obj [], level, depth + 1, fuel + 1, t, _, _, _, _ => by
    simp [Json.dumps, scanValue, skipSpace, isSpace]
  | .arr (x :: xs), level, depth + 1, fuel + 1, t, readable, deep, enough, _ => by
    simp only [Json.Readable, itemsReadable] at readable
    simp only [Json.depth, itemsDepth] at deep
    simp only [Json.dumps, List.length_cons, List.length_append, List.length_nil] at enough
    obtain ⟨fuel, rfl⟩ : ∃ k, fuel = k + 1 := ⟨fuel - 1, by omega⟩
    have first := scanValue_dumps w x (level + 1) depth fuel _ readable.1 (by omega) (by omega)
      (stops_items w (level + 1) xs t)
    have rest := scanItems_dumps w xs level depth fuel t readable.2 (by omega) (by omega) x _ first
    simp only [Json.dumps, List.cons_append, List.append_assoc, List.nil_append]
    exact scanValue_arr (solid_dumps w _ readable.1) (w.margin_blank _) rest
  | .obj ((k, v) :: fs), level, depth + 1, fuel + 1, t, readable, deep, enough, _ => by
    simp only [Json.Readable, membersReadable] at readable
    simp only [Json.depth, membersDepth] at deep
    simp only [Json.dumps, List.length_cons, List.length_append, List.length_nil] at enough
    obtain ⟨fuel, rfl⟩ : ∃ k, fuel = k + 1 := ⟨fuel - 1, by omega⟩
    have first := scanValue_dumps w v (level + 1) depth fuel _ readable.2.2.1 (by omega) (by omega)
      (stops_members w (level + 1) fs t)
    have rest := scanFields_dumps w fs level depth fuel t readable.2.2.2 (by omega) (by omega) []
      k v _ readable.2.1 (by omega) (by simpa using readable.1) (solid_dumps w _ readable.2.2.1) first
    simp only [Json.dumps, List.cons_append, List.append_assoc, List.nil_append]
    exact scanValue_obj (solid_quote w k) (w.margin_blank _) rest

theorem scanItems_dumps (w : Layout) : (xs : List Json) → (level depth fuel : Nat) → (t : PyStr) →
    itemsReadable w xs → itemsDepth xs ≤ depth →
    (itemsDumps w (level + 1) xs).length < fuel →
    (x : Json) → (s : PyStr) →
    scanValue fuel depth (s ++ (itemsDumps w (level + 1) xs ++ (w.margin level ++ 0x5D :: t))) =
      .ok (x, itemsDumps w (level + 1) xs ++ (w.margin level ++ 0x5D :: t)) →
    scanItems (fuel + 1) depth
      (s ++ (itemsDumps w (level + 1) xs ++ (w.margin level ++ 0x5D :: t))) = .ok (x :: xs, t)
  | [], level, depth, fuel, t, _, _, _, x, s, first => by
    have close : skipSpace (w.margin level ++ 0x5D :: t) = 0x5D :: t := by
      rw [skipSpace_blank (w.margin_blank level)]
      rfl
    rw [scanItems, first]
    simp only [itemsDumps, List.nil_append, close]
  | y :: ys, level, depth, fuel, t, readable, deep, enough, x, s, first => by
    simp only [itemsReadable] at readable
    simp only [itemsDepth] at deep
    simp only [itemsDumps, List.length_cons, List.length_append] at enough
    obtain ⟨fuel, rfl⟩ : ∃ k, fuel = k + 1 := ⟨fuel - 1, by omega⟩
    have next := scanValue_dumps w y (level + 1) depth fuel _ readable.1 (by omega) (by omega)
      (stops_items w (level + 1) ys t)
    have rest := scanItems_dumps w ys level depth fuel t readable.2 (by omega) (by omega) y _ next
    have comma : ∀ u, skipSpace (0x2C :: u) = 0x2C :: u := fun _ => rfl
    rw [scanItems, first]
    simp only [itemsDumps, List.cons_append, List.append_assoc, comma,
      skipSpace_blank (w.gap_blank _), skipSpace_solid (solid_dumps w _ readable.1)]
    rw [rest]
    rfl

theorem scanFields_dumps (w : Layout) : (fs : List (PyStr × Json)) → (level depth fuel : Nat) →
    (t : PyStr) → membersReadable w fs → membersDepth fs ≤ depth →
    (membersDumps w (level + 1) fs).length < fuel →
    (acc : List (PyStr × Json)) → (k : PyStr) → (v : Json) → (s : PyStr) → Apart k →
    (w.quote k).length < fuel + 2 → ((acc ++ (k, v) :: fs).map (·.1)).Nodup → Solid s →
    scanValue fuel depth (s ++ (membersDumps w (level + 1) fs ++ (w.margin level ++ 0x7D :: t))) =
      .ok (v, membersDumps w (level + 1) fs ++ (w.margin level ++ 0x7D :: t)) →
    scanFields (fuel + 1) depth acc (w.quote k ++ 0x3A :: (w.colon ++
      (s ++ (membersDumps w (level + 1) fs ++ (w.margin level ++ 0x7D :: t))))) =
      .ok (acc ++ (k, v) :: fs, t)
  | [], level, depth, fuel, t, _, _, _, acc, k, v, s, apart, enough, distinct, solid, first => by
    have fresh := key_fresh distinct
    have close : skipSpace (w.margin level ++ 0x7D :: t) = 0x7D :: t := by
      rw [skipSpace_blank (w.margin_blank level)]
      rfl
    rw [scanFields_member w apart enough solid first]
    simp only [membersDumps, List.nil_append, close, setField_fresh fresh]
  | (l, u) :: fs, level, depth, fuel, t, readable, deep, long, acc, k, v, s, apart, enough,
      distinct, solid, first => by
    have fresh := key_fresh distinct
    simp only [membersReadable] at readable
    simp only [membersDepth] at deep
    simp only [membersDumps, List.length_cons, List.length_append] at long
    obtain ⟨fuel, rfl⟩ : ∃ k, fuel = k + 1 := ⟨fuel - 1, by omega⟩
    have next := scanValue_dumps w u (level + 1) depth fuel _ readable.2.1 (by omega) (by omega)
      (stops_members w (level + 1) fs t)
    have rest := scanFields_dumps w fs level depth fuel t readable.2.2 (by omega) (by omega)
      (acc ++ [(k, v)]) l u _ readable.1 (by omega) (by simpa using distinct)
      (solid_dumps w _ readable.2.1) next
    have comma : ∀ u, skipSpace (0x2C :: u) = 0x2C :: u := fun _ => rfl
    rw [scanFields_member w apart enough solid first]
    simp only [membersDumps, List.cons_append, List.append_assoc, comma,
      skipSpace_blank (w.gap_blank _), skipSpace_solid (solid_quote w l), setField_fresh fresh]
    rw [rest]
    simp
end

/-- What is written is read back, whatever blanks follow it. -/
theorem loads_dumps (w : Layout) {j : Json} (readable : j.Readable w) {limit : Nat}
    (deep : j.depth ≤ limit) {b : PyStr} (blank : ∀ c ∈ b, isSpace c = true) :
    loads limit (j.dumps w 0 ++ b) = .ok j := by
  have solid := solid_dumps w 0 readable
  have stops : Stops b := by
    rw [← List.append_nil b]
    exact stops_blank blank fun c head => by cases head
  have value := scanValue_dumps w j 0 limit ((j.dumps w 0 ++ b).length + 1) b readable deep
    (by rw [List.length_append]; omega) stops
  have tail : skipSpace b = [] := by
    rw [← List.append_nil b]
    exact skipSpace_blank blank []
  have mark : (j.dumps w 0 ++ b).head? ≠ some 0xFEFF := by
    obtain ⟨c, t, eq, _, _, _, mark⟩ := solid
    rw [eq]
    simpa using mark
  rw [loads, if_neg mark, skipSpace_solid solid, value]
  simp only [tail, List.isEmpty_nil, if_true]

def hexDigits (c : Nat) : PyStr :=
  [hexDigit (c / 4096 % 16), hexDigit (c / 256 % 16), hexDigit (c / 16 % 16), hexDigit (c % 16)]

theorem hex4_hexDigits {c : Nat} (small : c < 0x10000) (s : PyStr) :
    hex4 (hexDigits c ++ s) = some (c, s) := by
  have digit : ∀ n, hexValue (hexDigit (n % 16)) = some (n % 16) := fun n =>
    hexValue_hexDigit (n % 16) (by omega)
  have value : ((c / 4096 % 16 * 16 + c / 256 % 16) * 16 + c / 16 % 16) * 16 + c % 16 = c := by
    omega
  simp [hexDigits, hex4, digit, value]

/-- One code point of a string, as written with `ensure_ascii=True`. -/
def asciiPoint (c : Nat) : PyStr :=
  if c = 0x22 then [0x5C, 0x22]
  else if c = 0x5C then [0x5C, 0x5C]
  else if c = 0x0A then [0x5C, 0x6E]
  else if c = 0x0D then [0x5C, 0x72]
  else if c = 0x09 then [0x5C, 0x74]
  else if c = 0x0C then [0x5C, 0x66]
  else if c = 0x08 then [0x5C, 0x62]
  else if 0x20 ≤ c ∧ c ≤ 0x7E then [c]
  else if c < 0x10000 then 0x5C :: 0x75 :: hexDigits c
  else 0x5C :: 0x75 :: (hexDigits (0xD800 + (c - 0x10000) / 1024) ++
    0x5C :: 0x75 :: hexDigits (0xDC00 + (c - 0x10000) % 1024))

theorem scanEscape_unicode (s : PyStr) : scanEscape (0x75 :: s) =
    match hex4 s with
    | none => none
    | some (p, s) =>
      if 0xD800 ≤ p ∧ p ≤ 0xDBFF then match lowHalf s with
        | some (q, s) => some (0x10000 + (p - 0xD800) * 1024 + (q - 0xDC00), s)
        | none => some (p, s)
      else some (p, s) := rfl

theorem scanEscape_basic {c : Nat} (small : c < 0x10000) {s : PyStr}
    (next : High c → lowHalf s = none) :
    scanEscape (0x75 :: (hexDigits c ++ s)) = some (c, s) := by
  rw [scanEscape_unicode, hex4_hexDigits small]
  by_cases high : 0xD800 ≤ c ∧ c ≤ 0xDBFF
  · simp only [high, and_self, if_true, next high]
  · simp only [high, if_false]

theorem lowHalf_hexDigits {q : Nat} (low : 0xDC00 ≤ q ∧ q ≤ 0xDFFF) (s : PyStr) :
    lowHalf (0x5C :: 0x75 :: (hexDigits q ++ s)) = some (q, s) := by
  rw [lowHalf, hex4_hexDigits (by omega)]
  simp only [low, and_self, if_true]

theorem scanEscape_pair {p q : Nat} (high : 0xD800 ≤ p ∧ p ≤ 0xDBFF)
    (low : 0xDC00 ≤ q ∧ q ≤ 0xDFFF) (s : PyStr) :
    scanEscape (0x75 :: (hexDigits p ++ 0x5C :: 0x75 :: (hexDigits q ++ s))) =
      some (0x10000 + (p - 0xD800) * 1024 + (q - 0xDC00), s) := by
  rw [scanEscape_unicode, hex4_hexDigits (by omega)]
  simp only [high, and_self, if_true, lowHalf_hexDigits low]

theorem scanString_asciiPoint (fuel c : Nat) (s : PyStr) (bound : c < 0x110000)
    (next : High c → lowHalf s = none) :
    scanString (fuel + 1) (asciiPoint c ++ s) =
      (scanString fuel s).map fun r => (c :: r.1, r.2) := by
  unfold asciiPoint
  split
  · subst c; simp [scanString, scanEscape]
  split
  · subst c; simp [scanString, scanEscape]
  split
  · subst c; simp [scanString, scanEscape]
  split
  · subst c; simp [scanString, scanEscape]
  split
  · subst c; simp [scanString, scanEscape]
  split
  · subst c; simp [scanString, scanEscape]
  split
  · subst c; simp [scanString, scanEscape]
  split
  · rename_i quote slash _ _ _ _ _ range
    have control : ¬ c < 0x20 := by omega
    simp [scanString, quote, slash, control]
  split
  · rename_i small
    simp [scanString, scanEscape_basic small next]
  · rename_i large
    have value : 0x10000 + (0xD800 + (c - 0x10000) / 1024 - 0xD800) * 1024 +
        (0xDC00 + (c - 0x10000) % 1024 - 0xDC00) = c := by
      omega
    have pair := scanEscape_pair (p := 0xD800 + (c - 0x10000) / 1024)
      (q := 0xDC00 + (c - 0x10000) % 1024) (by omega) (by omega) s
    rw [value] at pair
    simp [scanString, pair]

theorem lowHalf_other {c : Nat} (other : c ≠ 0x5C) (s : PyStr) : lowHalf (c :: s) = none := by
  unfold lowHalf
  split
  · rename_i eq
    exact absurd (List.cons.inj eq).1 other
  · rfl

theorem lowHalf_short {c : Nat} (other : c ≠ 0x75) (s : PyStr) : lowHalf (0x5C :: c :: s) = none := by
  unfold lowHalf
  split
  · rename_i eq
    exact absurd (List.cons.inj (List.cons.inj eq).2).1 other
  · rfl

theorem lowHalf_basic {c : Nat} (small : c < 0x10000) (high : ¬ Low c) (s : PyStr) :
    lowHalf (0x5C :: 0x75 :: (hexDigits c ++ s)) = none := by
  rw [lowHalf, hex4_hexDigits small]
  exact if_neg high

theorem asciiPoint_apart (c : Nat) (s : PyStr) (bound : c < 0x110000) (other : ¬ Low c) :
    lowHalf (asciiPoint c ++ s) = none := by
  unfold asciiPoint
  iterate 7
    split
    · exact lowHalf_short (by decide) s
  split
  · rename_i slash _ _ _ _ _ _
    exact lowHalf_other slash s
  split
  · rename_i small
    exact lowHalf_basic small other s
  · rename_i large
    have high : ¬ Low (0xD800 + (c - 0x10000) / 1024) := by
      unfold Low
      omega
    rw [List.cons_append, List.cons_append, List.append_assoc]
    exact lowHalf_basic (by omega) high _

theorem escapePoint_apart (c : Nat) (s : PyStr) (other : ¬ Low c) :
    lowHalf (escapePoint c ++ s) = none := by
  unfold escapePoint
  iterate 7
    split
    · exact lowHalf_short (by decide) s
  split
  · rename_i small
    have digits : [0x30, 0x30, hexDigit (c / 16), hexDigit (c % 16)] = hexDigits c := by
      have zero : c / 4096 % 16 = 0 ∧ c / 256 % 16 = 0 ∧ c / 16 % 16 = c / 16 := by omega
      simp only [hexDigits, zero]
      rfl
    have basic := lowHalf_basic (by omega) other s
    rw [← digits] at basic
    exact basic
  · rename_i slash _ _ _ _ _ _
    exact lowHalf_other slash s

theorem asciiPoint_some (c : Nat) : asciiPoint c ≠ [] := by
  unfold asciiPoint
  repeat' split
  all_goals simp

theorem escapePoint_some (c : Nat) : escapePoint c ≠ [] := by
  unfold escapePoint
  repeat' split
  all_goals simp

/-- `json.dumps(value)`. -/
def pythonLayout : Layout where
  point := asciiPoint
  float := fun f => str (repr f)
  margin _ := []
  gap _ := [0x20]
  colon := [0x20]
  point_some := asciiPoint_some
  point_read := scanString_asciiPoint
  point_apart := asciiPoint_apart
  float_plain := plain_repr
  margin_blank := by simp
  gap_blank := by simp [isSpace]
  colon_blank := by simp [isSpace]

/-- `model_dump_json()`. -/
def compactLayout : Layout where
  point := escapePoint
  float := serdeText
  margin _ := []
  gap _ := []
  colon := []
  point_some := escapePoint_some
  point_read fuel c s _ _ := scanString_escapePoint fuel c s
  point_apart c s _ := escapePoint_apart c s
  float_plain := plain_serdeText
  margin_blank := by simp
  gap_blank := by simp
  colon_blank := by simp

/-- `json.dumps(value, separators=(",", ":"))`. -/
def canonicalLayout : Layout :=
  { pythonLayout with
    gap := fun _ => []
    colon := []
    gap_blank := by simp
    colon_blank := by simp }

def indented (level : Nat) : PyStr := 0x0A :: List.replicate (2 * level) 0x20

/-- `json.dumps(value, indent=2)`. -/
def indentLayout : Layout where
  point := asciiPoint
  float := fun f => str (repr f)
  margin := indented
  gap := indented
  colon := [0x20]
  point_some := asciiPoint_some
  point_read := scanString_asciiPoint
  point_apart := asciiPoint_apart
  float_plain := plain_repr
  margin_blank := by simp [indented, isSpace]
  gap_blank := by simp [indented, isSpace]
  colon_blank := by simp [isSpace]

mutual
def Json.codePoints : Json → List Nat
  | .str s => s
  | .arr xs => itemsCodePoints xs
  | .obj fs => membersCodePoints fs
  | _ => []

def itemsCodePoints : List Json → List Nat
  | [] => []
  | x :: xs => x.codePoints ++ itemsCodePoints xs

def membersCodePoints : List (PyStr × Json) → List Nat
  | [] => []
  | (k, v) :: fs => k ++ (v.codePoints ++ membersCodePoints fs)
end

structure Layout.Writes (w : Layout) (P : Nat → Prop) : Prop where
  plain : ∀ c, 0x20 ≤ c → c < 0x7F → P c
  margin : ∀ level, ∀ c ∈ w.margin level, P c
  gap : ∀ level, ∀ c ∈ w.gap level, P c
  colon : ∀ c ∈ w.colon, P c

section
variable {w : Layout} {P : Nat → Prop} (writes : w.Writes P)
include writes

theorem writes_plain {s : PyStr} (plain : Plain s) : ∀ c ∈ s, P c :=
  fun c member => writes.plain c (plain c member).1 (plain c member).2

theorem writes_quote {s : PyStr} (points : ∀ c ∈ s, ∀ d ∈ w.point c, P d) : ∀ c ∈ w.quote s, P c := by
  have mark : P 0x22 := writes.plain _ (by decide) (by decide)
  simp only [Layout.quote, List.forall_mem_cons, List.forall_mem_append]
  refine ⟨mark, ?_, mark, by simp⟩
  intro c member
  obtain ⟨d, present, inside⟩ := List.mem_flatMap.mp member
  exact points d present c inside

mutual
theorem writes_dumps (level : Nat) : (j : Json) →
    (∀ c ∈ j.codePoints, ∀ d ∈ w.point c, P d) → ∀ c ∈ j.dumps w level, P c
  | .null, _ => by
    simp only [Json.dumps]
    exact writes_plain writes (by decide)
  | .bool b, _ => by
    simp only [Json.dumps]
    cases b <;> exact writes_plain writes (by decide)
  | .int i, _ => by
    simp only [Json.dumps]
    exact writes_plain writes (plain_intText i)
  | .float f, _ => by
    simp only [Json.dumps]
    exact writes_plain writes (w.float_plain f)
  | .str s, points => by
    simp only [Json.codePoints] at points
    simp only [Json.dumps]
    exact writes_quote writes points
  | .arr [], _ => by
    simp only [Json.dumps]
    exact writes_plain writes (by decide)
  | .obj [], _ => by
    simp only [Json.dumps]
    exact writes_plain writes (by decide)
  | .arr (x :: xs), points => by
    have opening : P 0x5B := writes.plain _ (by decide) (by decide)
    have closing : P 0x5D := writes.plain _ (by decide) (by decide)
    simp only [Json.codePoints, itemsCodePoints, List.forall_mem_append] at points
    simp only [Json.dumps, List.forall_mem_cons, List.forall_mem_append]
    exact ⟨opening, writes.margin _, writes_dumps (level + 1) x points.1,
      writes_items (level + 1) xs points.2, writes.margin _, closing, by simp⟩
  | .obj ((k, v) :: fs), points => by
    have opening : P 0x7B := writes.plain _ (by decide) (by decide)
    have colon : P 0x3A := writes.plain _ (by decide) (by decide)
    have closing : P 0x7D := writes.plain _ (by decide) (by decide)
    simp only [Json.codePoints, membersCodePoints, List.forall_mem_append] at points
    simp only [Json.dumps, List.forall_mem_cons, List.forall_mem_append]
    exact ⟨opening, writes.margin _, writes_quote writes points.1, colon, writes.colon,
      writes_dumps (level + 1) v points.2.1, writes_members (level + 1) fs points.2.2,
      writes.margin _, closing, by simp⟩

theorem writes_items (level : Nat) : (xs : List Json) →
    (∀ c ∈ itemsCodePoints xs, ∀ d ∈ w.point c, P d) → ∀ c ∈ itemsDumps w level xs, P c
  | [], _ => by simp [itemsDumps]
  | x :: xs, points => by
    have comma : P 0x2C := writes.plain _ (by decide) (by decide)
    simp only [itemsCodePoints, List.forall_mem_append] at points
    simp only [itemsDumps, List.forall_mem_cons, List.forall_mem_append]
    exact ⟨comma, writes.gap _, writes_dumps level x points.1, writes_items level xs points.2⟩

theorem writes_members (level : Nat) : (fs : List (PyStr × Json)) →
    (∀ c ∈ membersCodePoints fs, ∀ d ∈ w.point c, P d) → ∀ c ∈ membersDumps w level fs, P c
  | [], _ => by simp [membersDumps]
  | (k, v) :: fs, points => by
    have comma : P 0x2C := writes.plain _ (by decide) (by decide)
    have colon : P 0x3A := writes.plain _ (by decide) (by decide)
    simp only [membersCodePoints, List.forall_mem_append] at points
    simp only [membersDumps, List.forall_mem_cons, List.forall_mem_append]
    exact ⟨comma, writes.gap _, writes_quote writes points.1, colon, writes.colon,
      writes_dumps level v points.2.1, writes_members level fs points.2.2⟩
end

end

theorem hexDigit_range (n : Nat) (small : n < 16) : 0x30 ≤ hexDigit n ∧ hexDigit n < 0x7F := by
  unfold hexDigit
  split <;> omega

theorem escapePoint_cases (c : Nat) :
    (∀ d ∈ escapePoint c, 0x20 ≤ d ∧ d < 0x7F) ∨ escapePoint c = [c] ∧ 0x20 ≤ c := by
  have high := hexDigit_range (c / 16)
  have low := hexDigit_range (c % 16) (by omega)
  unfold escapePoint
  repeat' split
  all_goals simp only [List.mem_cons, List.not_mem_nil, or_false]
  all_goals grind

theorem asciiPoint_plain (c : Nat) : Plain (asciiPoint c) := by
  have digit : ∀ n, 0x30 ≤ hexDigit (n % 16) ∧ hexDigit (n % 16) < 0x7F := fun n =>
    hexDigit_range (n % 16) (by omega)
  have digits : ∀ n, ∀ e ∈ hexDigits n, 0x20 ≤ e ∧ e < 0x7F := by
    intro n
    simp only [hexDigits, List.mem_cons, List.not_mem_nil, or_false]
    grind
  intro d member
  unfold asciiPoint at member
  repeat' split at member
  all_goals simp only [List.mem_cons, List.mem_append, List.not_mem_nil, or_false] at member
  all_goals grind

theorem compact_writes {P : Nat → Prop} (plain : ∀ c, 0x20 ≤ c → c < 0x7F → P c) :
    compactLayout.Writes P where
  plain := plain
  margin := by simp [compactLayout]
  gap := by simp [compactLayout]
  colon := by simp [compactLayout]

theorem compact_printable (level : Nat) (j : Json) : ∀ c ∈ j.dumps compactLayout level, 0x20 ≤ c := by
  refine writes_dumps (compact_writes fun _ low _ => low) level j fun c _ d member => ?_
  rcases escapePoint_cases c with plain | ⟨eq, low⟩
  · exact (plain d member).1
  · have same : d ∈ escapePoint c := member
    rw [eq, List.mem_singleton] at same
    omega

theorem python_ascii (level : Nat) (j : Json) : Plain (j.dumps pythonLayout level) := by
  have writes : pythonLayout.Writes fun c => 0x20 ≤ c ∧ c < 0x7F := {
    plain := fun _ low high => ⟨low, high⟩
    margin := by simp [pythonLayout]
    gap := by simp [pythonLayout]
    colon := by simp [pythonLayout] }
  exact writes_dumps writes level j fun c _ => asciiPoint_plain c

end JsonText
