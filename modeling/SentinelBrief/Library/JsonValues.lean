import Mathlib.Data.List.TakeWhile
import Mathlib.Tactic.NormNum
import SentinelBrief.Library.JsonBytes
import SentinelBrief.Library.JsonDumps
import SentinelBrief.Library.PyInt

/-!
What holds of every value that `json.loads` gives, `int` of such a value, and the
surrogate pairs that are joined when a text is written and read again.
-/
namespace JsonText
open Utf8Text DoubleText PyIntText

def Printable (i : Int) : Prop := (digitsText i.natAbs).length ≤ intMaxStrDigits

instance (i : Int) : Decidable (Printable i) := inferInstanceAs (Decidable (_ ≤ _))

def InRange (s : PyStr) : Prop := ∀ c ∈ s, c < 0x110000

instance (s : PyStr) : Decidable (InRange s) := inferInstanceAs (Decidable (∀ c ∈ s, c < 0x110000))

mutual
/-- Integers within the digit limit, doubles in lowest terms, texts of code points. -/
def Json.Sound : Json → Prop
  | .int i => Printable i
  | .float f => f.Canonical
  | .str s => InRange s
  | .arr xs => itemsSound xs
  | .obj fs => membersSound fs
  | _ => True

def itemsSound : List Json → Prop
  | [] => True
  | x :: xs => x.Sound ∧ itemsSound xs

def membersSound : List (PyStr × Json) → Prop
  | [] => True
  | (_, v) :: fs => v.Sound ∧ membersSound fs
end

theorem itemsSound_iff (xs : List Json) : itemsSound xs ↔ ∀ x ∈ xs, x.Sound := by
  induction xs with
  | nil => simp [itemsSound]
  | cons x xs ih => rw [itemsSound, ih, List.forall_mem_cons]

theorem membersSound_iff (fs : List (PyStr × Json)) :
    membersSound fs ↔ ∀ f ∈ fs, f.2.Sound := by
  induction fs with
  | nil => simp [membersSound]
  | cons f fs ih => rw [membersSound, ih, List.forall_mem_cons]

theorem get_member {fs : List (PyStr × Json)} {key : PyStr} {v : Json}
    (found : (Json.obj fs).get? key = some v) : (key, v) ∈ fs := by
  obtain ⟨f, first, rfl⟩ := Option.map_eq_some_iff.mp found
  have same : f.1 = key := by simpa using List.find?_some first
  exact same ▸ List.mem_of_find?_eq_some first

theorem sound_get {j v : Json} {key : PyStr} (sound : j.Sound) (found : j.get? key = some v) :
    v.Sound := by
  cases j with
  | obj fs =>
    rw [Json.Sound] at sound
    exact (membersSound_iff fs).mp sound _ (get_member found)
  | _ => cases found

/-- `int(value)`; none is one of its exceptions. -/
def Json.toInt : Json → Option Int
  | .int i => some i
  | .bool b => some (if b then 1 else 0)
  | .float f => truncate f
  | .str s => pyInt s
  | _ => none

theorem printable_of_lt {i : Int} (small : i.natAbs < 10 ^ intMaxStrDigits) : Printable i := by
  unfold Printable digitsText
  rw [List.length_map]
  exact (Nat.length_toDigits_le_iff (by decide) (by decide)).mpr small

theorem lt_limit {n k : Nat} (small : n < 2 ^ k) (le : k ≤ intMaxStrDigits) :
    n < 10 ^ intMaxStrDigits := by
  have base : 2 ^ k ≤ 10 ^ k := Nat.pow_le_pow_left (by decide) k
  have more : 10 ^ k ≤ 10 ^ intMaxStrDigits := Nat.pow_le_pow_right (by decide) le
  exact small.trans_le (base.trans more)

theorem scaled_lt {m a b k : Nat} (small : m < 2 ^ a) (le : k ≤ b) : m * 2 ^ k < 2 ^ (a + b) := by
  have power : 2 ^ k ≤ 2 ^ b := Nat.pow_le_pow_right two_pos le
  calc m * 2 ^ k ≤ m * 2 ^ b := Nat.mul_le_mul_left m power
    _ < 2 ^ a * 2 ^ b := Nat.mul_lt_mul_of_pos_right small (Nat.two_pow_pos b)
    _ = 2 ^ (a + b) := (Nat.pow_add 2 a b).symm

theorem natAbs_signed (neg : Bool) (n : Nat) : (if neg then -(n : Int) else n).natAbs = n := by
  cases neg
  · exact Int.natAbs_natCast n
  · exact (Int.natAbs_neg n).trans (Int.natAbs_natCast n)

theorem printable_truncate {f : Double} (canonical : f.Canonical) {i : Int}
    (whole : truncate f = some i) : Printable i := by
  cases f with
  | fin neg m e =>
    obtain ⟨mantissa, -, high, -⟩ := canonical
    cases whole
    apply printable_of_lt
    rw [natAbs_signed]
    split
    · exact lt_limit (@scaled_lt m 53 971 e.toNat mantissa (by omega)) (by decide)
    · exact lt_limit ((Nat.div_le_self _ _).trans_lt mantissa) (by decide)
  | _ => cases whole

theorem digitOf_lt {c d : Nat} (digit : digitOf c = some d) : d < 10 := by
  rw [digitOf] at digit
  obtain ⟨z, -, found⟩ := List.exists_of_findSome?_eq_some digit
  split at found
  · cases found
    omega
  · cases found

theorem groups_lt {after : Bool} {s : PyStr} {ds : List Nat} (read : groups after s = some ds) :
    ∀ d ∈ ds, d < 10 := by
  induction s generalizing after ds with
  | nil =>
    rw [groups] at read
    split at read
    · cases read
      simp
    · cases read
  | cons c s ih =>
    rw [groups] at read
    split at read
    · split at read
      · exact ih read
      · cases read
    · split at read
      · rename_i d digit
        obtain ⟨rest, later, rfl⟩ := Option.map_eq_some_iff.mp read
        rw [List.forall_mem_cons]
        exact ⟨digitOf_lt digit, ih later⟩
      · cases read

theorem fold_digits_lt {ds : List Nat} (small : ∀ d ∈ ds, d < 10) (n : Nat) :
    ds.foldl (fun n d => n * 10 + d) n < (n + 1) * 10 ^ ds.length := by
  induction ds generalizing n with
  | nil => simp
  | cons d ds ih =>
    rw [List.forall_mem_cons] at small
    rw [List.foldl_cons, List.length_cons, Nat.pow_succ, Nat.mul_comm (10 ^ ds.length) 10,
      ← Nat.mul_assoc]
    have next := ih small.2 (n * 10 + d)
    have step : (n * 10 + d + 1) * 10 ^ ds.length ≤ (n + 1) * 10 * 10 ^ ds.length :=
      Nat.mul_le_mul_right _ (by omega)
    exact next.trans_le step

theorem printable_pyInt {s : PyStr} {i : Int} (read : pyInt s = some i) : Printable i := by
  unfold pyInt at read
  dsimp only at read
  split at read
  · cases read
  · rename_i ds digits
    split at read
    · cases read
    · rename_i short
      have bound := fold_digits_lt (groups_lt digits) 0
      have power : 10 ^ ds.length ≤ 10 ^ intMaxStrDigits :=
        Nat.pow_le_pow_right (by decide) (Nat.not_lt.mp short)
      apply printable_of_lt
      rw [Option.some.injEq] at read
      rw [← read, natAbs_signed]
      simp only [Nat.zero_add, Nat.one_mul] at bound
      exact bound.trans_le power

theorem printable_toInt {j : Json} (sound : j.Sound) {i : Int} (read : j.toInt = some i) :
    Printable i := by
  cases j with
  | int k =>
    cases read
    rw [Json.Sound] at sound
    exact sound
  | bool b =>
    cases read
    cases b <;> decide
  | float f =>
    rw [Json.Sound] at sound
    exact printable_truncate sound read
  | str s => exact printable_pyInt read
  | _ => cases read

theorem asciiPoint_pair {u v : Nat} (high : 0xD800 ≤ u ∧ u ≤ 0xDBFF)
    (low : 0xDC00 ≤ v ∧ v ≤ 0xDFFF) :
    asciiPoint (0x10000 + (u - 0xD800) * 1024 + (v - 0xDC00)) = asciiPoint u ++ asciiPoint v := by
  have first : 0xD800 + (0x10000 + (u - 0xD800) * 1024 + (v - 0xDC00) - 0x10000) / 1024 = u := by omega
  have second : 0xDC00 + (0x10000 + (u - 0xD800) * 1024 + (v - 0xDC00) - 0x10000) % 1024 = v := by omega
  have basic {c : Nat} (surrogate : 0xD800 ≤ c ∧ c ≤ 0xDFFF) :
      asciiPoint c = 0x5C :: 0x75 :: hexDigits c := by
    unfold asciiPoint
    repeat rw [if_neg (by omega)]
    rw [if_pos (by omega)]
  have large : asciiPoint (0x10000 + (u - 0xD800) * 1024 + (v - 0xDC00)) =
      0x5C :: 0x75 :: (hexDigits u ++ 0x5C :: 0x75 :: hexDigits v) := by
    unfold asciiPoint
    rw [first, second]
    repeat rw [if_neg (by omega)]
  rw [large, basic (by omega), basic (by omega)]
  rfl

theorem joinUnits_written (s : PyStr) :
    (joinUnits s).flatMap asciiPoint = s.flatMap asciiPoint := by
  induction s using joinUnits.induct with
  | case1 u v us pair ih =>
    rw [joinUnits, if_pos pair, List.flatMap_cons, ih, asciiPoint_pair ⟨pair.1, pair.2.1⟩ pair.2.2,
      List.flatMap_cons, List.flatMap_cons, List.append_assoc]
  | case2 u v us apart ih =>
    rw [joinUnits, if_neg apart, List.flatMap_cons, ih]
    rfl
  | case3 us short =>
    rw [joinUnits]
    exact short

theorem joinUnits_head (s : PyStr) : (joinUnits s).head? = s.head? ∨
    ∃ c, (joinUnits s).head? = some c ∧ 0x10000 ≤ c := by
  unfold joinUnits
  split
  · split
    · exact Or.inr ⟨_, rfl, by omega⟩
    · exact Or.inl rfl
  · exact Or.inl rfl

theorem chain_short {s : PyStr} (short : ∀ u v us, s = u :: v :: us → False) :
    s.IsChain fun c d => High c → ¬ Low d := by
  match s with
  | [] => exact .nil
  | [_] => exact .singleton _
  | u :: v :: us => exact (short u v us rfl).elim

theorem apart_joinUnits {s : PyStr} (range : InRange s) : Apart (joinUnits s) := by
  induction s using joinUnits.induct with
  | case1 u v us pair ih =>
    have rest := ih fun c member => range c (by simp [member])
    rw [joinUnits, if_pos pair]
    constructor
    · rw [List.forall_mem_cons]
      exact ⟨by omega, rest.bound⟩
    · apply List.IsChain.cons rest.chain
      intro d _ high
      unfold High at high
      omega
  | case2 u v us apart ih =>
    have rest := ih fun c member => range c (List.mem_cons_of_mem _ member)
    rw [joinUnits, if_neg apart]
    constructor
    · rw [List.forall_mem_cons]
      exact ⟨range u List.mem_cons_self, rest.bound⟩
    · apply List.IsChain.cons rest.chain
      intro d head high low
      unfold High at high
      unfold Low at low
      rcases joinUnits_head (v :: us) with same | ⟨c, other, large⟩
      · rw [same] at head
        cases head
        exact apart ⟨high.1, high.2, low⟩
      · rw [other] at head
        cases head
        omega
  | case3 us short =>
    rw [joinUnits]
    · exact ⟨range, chain_short short⟩
    · exact short

theorem joinUnits_apart {s : PyStr} (apart : Apart s) : joinUnits s = s := by
  induction s using joinUnits.induct with
  | case1 u v us pair _ =>
    obtain ⟨-, first, -⟩ := apart_cons apart
    exact absurd pair.2.2 (first v rfl ⟨pair.1, pair.2.1⟩)
  | case2 u v us other ih =>
    rw [joinUnits, if_neg other, ih (apart_cons apart).2.2]
  | case3 us short =>
    rw [joinUnits]
    exact short

/-- What a scanner gives when it does: a value of this kind, and the rest of its text. -/
def Gives {α : Type} (kind : α → Prop) (s : PyStr) (result : α × PyStr) : Prop :=
  kind result.1 ∧ result.2 <:+ s

theorem InRange.rest {s t : PyStr} (range : InRange s) (rest : t <:+ s) : InRange t :=
  fun c member => range c (rest.subset member)

theorem hexValue_lt {c v : Nat} (hex : hexValue c = some v) : v < 16 := by
  unfold hexValue at hex
  split at hex
  · cases hex
    omega
  split at hex
  · cases hex
    omega
  split at hex
  · cases hex
    omega
  · cases hex

theorem hex4_gives {s : PyStr} {r : Nat × PyStr} (read : hex4 s = some r) :
    Gives (· < 0x10000) s r := by
  unfold hex4 at read
  split at read
  · rename_i a b c d t
    obtain ⟨u, first, read⟩ := Option.bind_eq_some_iff.mp read
    obtain ⟨v, second, read⟩ := Option.bind_eq_some_iff.mp read
    obtain ⟨w, third, read⟩ := Option.bind_eq_some_iff.mp read
    obtain ⟨x, fourth, read⟩ := Option.bind_eq_some_iff.mp read
    cases read
    have := hexValue_lt first
    have := hexValue_lt second
    have := hexValue_lt third
    have := hexValue_lt fourth
    exact ⟨by dsimp only; omega, List.suffix_append [a, b, c, d] t⟩
  · cases read

theorem lowHalf_gives {s : PyStr} {r : Nat × PyStr} (read : lowHalf s = some r) :
    Gives (fun q => 0xDC00 ≤ q ∧ q ≤ 0xDFFF) s r := by
  unfold lowHalf at read
  split at read
  · rename_i t
    split at read
    · rename_i p u digits
      split at read
      · rename_i low
        cases read
        exact ⟨low, (hex4_gives digits).2.trans (List.suffix_append [0x5C, 0x75] t)⟩
      · cases read
    · cases read
  · cases read

theorem scanEscape_plain {e : Nat} {t : PyStr} {r : Nat × PyStr} (other : e ≠ 0x75)
    (read : scanEscape (e :: t) = some r) : r.2 = t ∧ (r.1 = e ∨ r.1 < 0x80) := by
  simp only [scanEscape, if_neg other] at read
  split at read
  · cases read
    exact ⟨rfl, .inl rfl⟩
  repeat' split at read
  all_goals
    cases read
    try exact ⟨rfl, .inr (by simp)⟩

theorem scanEscape_gives {s : PyStr} {r : Nat × PyStr} (range : InRange s)
    (read : scanEscape s = some r) : Gives (· < 0x110000) s r := by
  cases s with
  | nil => cases read
  | cons e t =>
    have rest := List.suffix_cons e t
    by_cases unicode : e = 0x75
    · subst unicode
      rw [scanEscape_unicode] at read
      split at read
      · cases read
      · rename_i p u digits
        obtain ⟨unit, shorter⟩ := hex4_gives digits
        split at read
        · split at read
          · rename_i pair
            rw [Option.some.injEq] at read
            subst read
            obtain ⟨low, more⟩ := lowHalf_gives pair
            exact ⟨by dsimp only at low ⊢; omega, (more.trans shorter).trans rest⟩
          · cases read
            exact ⟨unit.trans (by decide), shorter.trans rest⟩
        · cases read
          exact ⟨unit.trans (by decide), shorter.trans rest⟩
    · obtain ⟨ends, point⟩ := scanEscape_plain unicode read
      rw [Gives, ends]
      have bound := range e List.mem_cons_self
      exact ⟨by omega, rest⟩

theorem scanString_gives {fuel : Nat} {s : PyStr} {r : PyStr × PyStr} (range : InRange s)
    (read : scanString fuel s = some r) : Gives InRange s r := by
  induction fuel generalizing s r with
  | zero => cases read
  | succ fuel ih =>
    cases s with
    | nil => cases read
    | cons c t =>
      have rest := List.suffix_cons c t
      rw [scanString] at read
      split at read
      · cases read
        exact ⟨by simp [InRange], rest⟩
      split at read
      · cases read
      split at read
      · obtain ⟨q, escape, read⟩ := Option.bind_eq_some_iff.mp read
        obtain ⟨more, later, rfl⟩ := Option.map_eq_some_iff.mp read
        obtain ⟨point, shorter⟩ := scanEscape_gives (range.rest rest) escape
        obtain ⟨body, ends⟩ := ih (range.rest (shorter.trans rest)) later
        exact ⟨List.forall_mem_cons.mpr ⟨point, body⟩, (ends.trans shorter).trans rest⟩
      · obtain ⟨more, later, rfl⟩ := Option.map_eq_some_iff.mp read
        obtain ⟨body, ends⟩ := ih (range.rest rest) later
        exact ⟨List.forall_mem_cons.mpr ⟨range c List.mem_cons_self, body⟩, ends.trans rest⟩

theorem scanFraction_rest (s : PyStr) : (scanFraction s).2 <:+ s := by
  unfold scanFraction
  split
  · split
    · exact List.suffix_refl _
    · exact (List.dropWhile_suffix _).trans (List.suffix_cons _ _)
  · exact List.suffix_refl _

theorem scanExponent_rest (s : PyStr) : (scanExponent s).2 <:+ s := by
  cases s with
  | nil => exact List.suffix_refl _
  | cons e t =>
    have digits (p : Bool × PyStr) (tail : p.2 <:+ t) (n : Int) :
        (if (p.2.takeWhile isDigit).isEmpty = true then (none, e :: t)
          else (some n, p.2.dropWhile isDigit)).2 <:+ e :: t := by
      split
      · exact List.suffix_refl _
      · exact ((List.dropWhile_suffix _).trans tail).trans (List.suffix_cons e t)
    unfold scanExponent
    dsimp only
    split
    · apply digits
      cases t with
      | nil => exact List.suffix_refl _
      | cons c u =>
        dsimp only
        split
        · exact List.suffix_cons c u
        · split
          · exact List.suffix_cons c u
          · exact List.suffix_refl _
    · exact List.suffix_refl _

theorem scanWhole_rest (s : PyStr) : (scanWhole s).2 <:+ s := by
  unfold scanWhole
  split
  · exact List.suffix_cons _ _
  · exact List.dropWhile_suffix _

theorem scanWhole_digits (s : PyStr) : ∀ c ∈ (scanWhole s).1, isDigit c = true := by
  unfold scanWhole
  split
  · intro c member
    rw [List.mem_singleton.mp member]
    rfl
  · exact fun c member => List.mem_takeWhile_imp member

theorem digitsValue_lt {s : PyStr} (digits : ∀ c ∈ s, isDigit c = true) :
    digitsValue s < 10 ^ s.length := by
  have bound := @fold_digits_lt (s.map (· - 0x30)) (by
    intro d member
    obtain ⟨c, inside, rfl⟩ := List.mem_map.mp member
    have digit := digits c inside
    simp only [isDigit, Bool.and_eq_true, decide_eq_true_eq] at digit
    omega) 0
  rwa [List.foldl_map, List.length_map, Nat.zero_add, Nat.one_mul] at bound

theorem scanNumber_gives {neg : Bool} {s : PyStr} {r : Json × PyStr}
    (read : scanNumber neg s = .ok r) : Gives Json.Sound s r := by
  have rest : (scanExponent (scanFraction (scanWhole s).2).2).2 <:+ s :=
    ((scanExponent_rest _).trans (scanFraction_rest _)).trans (scanWhole_rest s)
  unfold scanNumber at read
  dsimp only at read
  split at read
  · cases read
  split at read
  · split at read
    · cases read
    · rename_i short
      cases read
      refine ⟨printable_of_lt ?_, rest⟩
      have power : 10 ^ (scanWhole s).1.length ≤ 10 ^ intMaxStrDigits :=
        Nat.pow_le_pow_right (by decide) (Nat.not_lt.mp short)
      rw [natAbs_signed]
      exact (digitsValue_lt (scanWhole_digits s)).trans_le power
  · cases read
    exact ⟨canonical_ofDecimal neg _ _, rest⟩

theorem skipSpace_rest (s : PyStr) : skipSpace s <:+ s := List.dropWhile_suffix _

theorem scanWord_gives {s : PyStr} {r : Json × PyStr} (read : scanWord s = some r) :
    Gives Json.Sound s r := by
  obtain ⟨w, word, read⟩ := List.exists_of_findSome?_eq_some read
  split at read
  · cases read
    refine ⟨?_, List.drop_suffix _ s⟩
    have sound : ∀ w ∈ words, w.2.Sound := by
      simp [words, Json.Sound, Double.Canonical]
    exact sound w word
  · cases read

theorem setField_sound {key : PyStr} {v : Json} {fs : List (PyStr × Json)} (value : v.Sound)
    (sound : membersSound fs) : membersSound (setField key v fs) := by
  induction fs with
  | nil => exact ⟨value, trivial⟩
  | cons f fs ih =>
    rw [membersSound] at sound
    rw [setField]
    split
    · exact ⟨value, sound.2⟩
    · exact ⟨sound.1, ih sound.2⟩

theorem Gives.within {α : Type} {kind : α → Prop} {s t : PyStr} {r : α × PyStr}
    (gives : Gives kind s r) (rest : s <:+ t) : Gives kind t r :=
  ⟨gives.1, gives.2.trans rest⟩

theorem map_ok {ε α β : Type} {f : α → β} {x : Except ε α} {y : β} (mapped : x.map f = .ok y) :
    ∃ a, x = .ok a ∧ f a = y := by
  cases x with
  | error e => cases mapped
  | ok a => exact ⟨a, rfl, Except.ok.inj mapped⟩

theorem bind_ok {ε α β : Type} {x : Except ε α} {f : α → Except ε β} {b : β} (done : (x >>= f) = .ok b) :
    ∃ a, x = .ok a ∧ f a = .ok b := by
  cases x with
  | error e => cases done
  | ok a => exact ⟨a, rfl, done⟩

structure Scans (fuel : Nat) : Prop where
  value {depth : Nat} {s : PyStr} {r : Json × PyStr} :
    InRange s → scanValue fuel depth s = .ok r → Gives Json.Sound s r
  items {depth : Nat} {s : PyStr} {r : List Json × PyStr} :
    InRange s → scanItems fuel depth s = .ok r → Gives itemsSound s r
  fields {depth : Nat} {acc : List (PyStr × Json)} {s : PyStr} {r : List (PyStr × Json) × PyStr} :
    InRange s → membersSound acc → scanFields fuel depth acc s = .ok r → Gives membersSound s r

variable {fuel depth : Nat} {s : PyStr}

theorem scans_number {r : Json × PyStr} (read : (match s with
      | 0x2D :: t => scanNumber true t
      | _ => scanNumber false s) = .ok r) : Gives Json.Sound s r := by
  split at read
  · exact (scanNumber_gives read).within (List.suffix_cons _ _)
  · exact scanNumber_gives read

theorem scans_value (scans : Scans fuel) {r : Json × PyStr} (range : InRange s)
    (read : scanValue (fuel + 1) depth s = .ok r) : Gives Json.Sound s r := by
  unfold scanValue at read
  split at read
  · rename_i t
    have rest := List.suffix_cons 0x22 t
    split at read
    · rename_i body
      cases read
      exact (scanString_gives (range.rest rest) body).within rest
    · cases read
  · rename_i t
    have rest := List.suffix_cons 0x7B t
    split at read
    · cases read
    · have inside := (skipSpace_rest t).trans rest
      split at read
      · rename_i close
        cases read
        rw [close] at inside
        exact ⟨trivial, (List.suffix_cons _ _).trans inside⟩
      · obtain ⟨q, fields, rfl⟩ := map_ok read
        have empty : membersSound [] := trivial
        exact (scans.fields (range.rest inside) empty fields).within inside
  · rename_i t
    have rest := List.suffix_cons 0x5B t
    split at read
    · cases read
    · have inside := (skipSpace_rest t).trans rest
      split at read
      · rename_i close
        cases read
        rw [close] at inside
        exact ⟨trivial, (List.suffix_cons _ _).trans inside⟩
      · obtain ⟨q, items, rfl⟩ := map_ok read
        exact (scans.items (range.rest inside) items).within inside
  · split at read
    · rename_i word
      cases read
      exact scanWord_gives word
    · exact scans_number read

theorem scans_items (scans : Scans fuel) {r : List Json × PyStr} (range : InRange s)
    (read : scanItems (fuel + 1) depth s = .ok r) : Gives itemsSound s r := by
  rw [scanItems] at read
  split at read
  · cases read
  · rename_i v t first
    obtain ⟨value, rest⟩ := scans.value range first
    have after := (skipSpace_rest t).trans rest
    split at read
    · rename_i close
      cases read
      rw [close] at after
      exact ⟨⟨value, trivial⟩, (List.suffix_cons _ _).trans after⟩
    · rename_i u comma
      rw [comma] at after
      have next := ((skipSpace_rest u).trans (List.suffix_cons _ u)).trans after
      obtain ⟨q, more, rfl⟩ := map_ok read
      obtain ⟨others, ends⟩ := scans.items (range.rest next) more
      exact ⟨⟨value, others⟩, ends.trans next⟩
    · cases read

theorem scans_fields (scans : Scans fuel) {acc : List (PyStr × Json)}
    {r : List (PyStr × Json) × PyStr} (range : InRange s) (sound : membersSound acc)
    (read : scanFields (fuel + 1) depth acc s = .ok r) : Gives membersSound s r := by
  unfold scanFields at read
  split at read
  · rename_i t
    have rest := List.suffix_cons 0x22 t
    split at read
    · cases read
    · rename_i key u name
      have named := (scanString_gives (range.rest rest) name).2.trans rest
      have spaced := (skipSpace_rest u).trans named
      split at read
      · rename_i u colon
        rw [colon] at spaced
        have start := ((skipSpace_rest u).trans (List.suffix_cons _ u)).trans spaced
        split at read
        · cases read
        · rename_i v t first
          obtain ⟨value, ends⟩ := scans.value (range.rest start) first
          have after := ((skipSpace_rest t).trans ends).trans start
          split at read
          · rename_i close
            cases read
            rw [close] at after
            exact ⟨setField_sound value sound, (List.suffix_cons _ _).trans after⟩
          · rename_i u comma
            rw [comma] at after
            have next := ((skipSpace_rest u).trans (List.suffix_cons _ u)).trans after
            exact (scans.fields (range.rest next) (setField_sound value sound) read).within next
          · cases read
      · cases read
  · cases read

theorem scans_all (fuel : Nat) : Scans fuel := by
  induction fuel with
  | zero =>
    constructor
    · intro depth s r _ read
      cases read
    · intro depth s r _ read
      cases read
    · intro depth acc s r _ _ read
      cases read
  | succ fuel ih => exact ⟨scans_value ih, scans_items ih, scans_fields ih⟩

theorem loads_sound {limit : Nat} {j : Json} (range : InRange s) (read : loads limit s = .ok j) :
    j.Sound := by
  unfold loads at read
  split at read
  · cases read
  split at read
  · cases read
  · rename_i v t value
    split at read
    · cases read
      exact ((scans_all _).value (range.rest (skipSpace_rest s)) value).1
    · cases read

theorem inRange_joinUnits {us : List Nat} (range : InRange us) : InRange (joinUnits us) :=
  (apart_joinUnits range).bound

theorem inRange_units16 {big : Bool} {b : Bytes} {us : List Nat} (read : units16 big b = some us) :
    InRange us := by
  induction b using units16.induct generalizing us with
  | case1 =>
    cases read
    simp [InRange]
  | case2 => cases read
  | case3 x y b ih =>
    rw [units16] at read
    obtain ⟨rest, later, rfl⟩ := Option.map_eq_some_iff.mp read
    have first := x.toNat_lt
    have second := y.toNat_lt
    refine List.forall_mem_cons.mpr ⟨?_, ih later⟩
    split <;> omega

theorem inRange_units32 {big : Bool} {b : Bytes} {s : PyStr} (read : units32 big b = some s) :
    InRange s := by
  fun_induction units32 big b generalizing s with
  | case1 =>
    cases read
    simp [InRange]
  | case2 x y z w b value small =>
    rename_i ih
    obtain ⟨rest, later, rfl⟩ := Option.map_eq_some_iff.mp read
    exact List.forall_mem_cons.mpr ⟨small, ih later⟩
  | case3 => cases read
  | case4 => cases read

def Begun (n hi acc : Nat) : Prop :=
  ∀ k, n = k + 1 → (acc * 64 + (hi - 0x80) + 1) * 64 ^ k ≤ 0x110000

theorem begun_none : Begun 0 0 0 := by
  intro k none
  omega

theorem begun_leadingPass {b n lo hi acc : Nat} (first : leadingPass b = some (n, lo, hi, acc)) :
    Begun n hi acc := by
  intro k same
  unfold leadingPass leading at first
  repeat' split at first
  all_goals cases first
  all_goals
    cases same
    omega

theorem inRange_decodePassFrom {n lo hi acc : Nat} {b : Bytes} {s : PyStr}
    (begun : Begun n hi acc) (read : decodePassFrom n lo hi acc b = some s) : InRange s := by
  induction b generalizing n lo hi acc s with
  | nil =>
    cases n with
    | zero =>
      cases read
      simp [InRange]
    | succ n => cases read
  | cons x b ih =>
    cases n with
    | zero =>
      rw [decodePassFrom] at read
      split at read
      · obtain ⟨rest, later, rfl⟩ := Option.map_eq_some_iff.mp read
        exact List.forall_mem_cons.mpr ⟨by omega, ih begun_none later⟩
      · split at read
        · rename_i first
          exact ih (begun_leadingPass first) read
        · cases read
    | succ n =>
      have limit := begun n rfl
      rw [decodePassFrom] at read
      split at read
      · rename_i inside
        dsimp only at read
        split at read
        · rename_i last
          subst last
          obtain ⟨rest, later, rfl⟩ := Option.map_eq_some_iff.mp read
          exact List.forall_mem_cons.mpr ⟨by omega, ih begun_none later⟩
        · refine ih ?_ read
          rintro k rfl
          have step : (acc * 64 + (x.toNat - 0x80)) * 64 + (0xBF - 0x80) + 1 ≤
              (acc * 64 + (hi - 0x80) + 1) * 64 := by omega
          rw [Nat.pow_succ', ← Nat.mul_assoc] at limit
          exact (Nat.mul_le_mul_right _ step).trans limit
      · cases read

theorem inRange_decodePass {b : Bytes} {e : Encoding} {s : PyStr} (read : decodePass b e = some s) :
    InRange s := by
  cases e with
  | utf8 => exact inRange_decodePassFrom begun_none read
  | utf8Sig => exact inRange_decodePassFrom begun_none read
  | utf32 => exact inRange_units32 read
  | utf32le => exact inRange_units32 read
  | utf32be => exact inRange_units32 read
  | _ =>
    obtain ⟨us, units, rfl⟩ := Option.map_eq_some_iff.mp read
    exact inRange_joinUnits (inRange_units16 units)

/-- Any bytes that are read at all. -/
theorem loads_bytes_sound {limit : Nat} {b : Bytes} {j : Json}
    (read : RawJson.loads limit (.bytes b) = .ok j) : j.Sound := by
  unfold RawJson.loads at read
  dsimp only at read
  split at read
  · cases read
  · rename_i s decoded
    cases value : loads limit s with
    | error e =>
      rw [value] at read
      cases read
    | ok v =>
      rw [value] at read
      cases read
      exact loads_sound (inRange_decodePass decoded) value

end JsonText
