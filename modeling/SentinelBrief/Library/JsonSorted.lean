import SentinelBrief.Library.Dictionary
import SentinelBrief.Library.JsonDumps

/-!
`json.dumps(value, sort_keys=True)` as the dump of a value whose members stand in key order,
the exception that a dump ends with, and `bool(value)` and `str(value)` of a JSON value.
-/
namespace JsonText
open Utf8Text DoubleText OrderedDictionary

def sortMembers (fs : List (PyStr × Json)) : List (PyStr × Json) := fs.insertionSort fun a b => a.1 ≤ b.1

mutual
/-- Members in key order at every level, which no comparison of Python values sees. -/
def Json.sorted : Json → Json
  | .arr xs => .arr (itemsSorted xs)
  | .obj fs => .obj (sortMembers (membersSorted fs))
  | j => j

def itemsSorted : List Json → List Json
  | [] => []
  | x :: xs => x.sorted :: itemsSorted xs

def membersSorted : List (PyStr × Json) → List (PyStr × Json)
  | [] => []
  | (k, v) :: fs => (k, v.sorted) :: membersSorted fs
end

mutual
/-- What a JSON text can denote: no key twice, no text with the halves of one code point apart. -/
def Json.Valued : Json → Prop
  | .float f => f.Canonical
  | .str s => Apart s
  | .arr xs => itemsValued xs
  | .obj fs => Distinct fs ∧ membersValued fs
  | _ => True

def itemsValued : List Json → Prop
  | [] => True
  | x :: xs => x.Valued ∧ itemsValued xs

def membersValued : List (PyStr × Json) → Prop
  | [] => True
  | (k, v) :: fs => Apart k ∧ v.Valued ∧ membersValued fs
end

inductive DumpError where
  | valueError
  | recursionError
  deriving DecidableEq

def DumpError.text : DumpError → PyStr
  | .valueError => str "ValueError"
  | .recursionError => str "RecursionError"

mutual
/-- The exception that `json.dumps` meets first: an integer past the digit limit, or a value nested
    too deep. -/
def Json.dumpError : Nat → Json → Option DumpError
  | _, .int i => if (digitsText i.natAbs).length ≤ intMaxStrDigits then none else some .valueError
  | 0, .arr _ => some .recursionError
  | 0, .obj _ => some .recursionError
  | n + 1, .arr xs => itemsDumpError n xs
  | n + 1, .obj fs => membersDumpError n fs
  | _, _ => none

def itemsDumpError : Nat → List Json → Option DumpError
  | _, [] => none
  | n, x :: xs => (x.dumpError n).or (itemsDumpError n xs)

def membersDumpError : Nat → List (PyStr × Json) → Option DumpError
  | _, [] => none
  | n, (_, v) :: fs => (v.dumpError n).or (membersDumpError n fs)
end

def Json.truthy : Json → Bool
  | .null => false
  | .bool b => b
  | .int i => i ≠ 0
  | .float (.fin _ m _) => m ≠ 0
  | .float _ => true
  | .str s => s ≠ []
  | .arr xs => !xs.isEmpty
  | .obj fs => !fs.isEmpty

def hexWidth (n c : Nat) : PyStr := (List.range n).map fun i => hexDigit (c / 16 ^ (n - 1 - i) % 16)

section
variable (isprintable : Nat → Bool)

def reprPoint (mark c : Nat) : PyStr :=
  if c = mark ∨ c = 0x5C then [0x5C, c]
  else if c = 0x09 then str "\\t"
  else if c = 0x0A then str "\\n"
  else if c = 0x0D then str "\\r"
  else if 0x20 ≤ c ∧ c < 0x7F ∨ 0x7F < c ∧ isprintable c then [c]
  else if c < 0x100 then str "\\x" ++ hexWidth 2 c
  else if c < 0x10000 then str "\\u" ++ hexWidth 4 c
  else str "\\U" ++ hexWidth 8 c

def reprText (s : PyStr) : PyStr :=
  let mark := if 0x27 ∈ s ∧ 0x22 ∉ s then 0x22 else 0x27
  mark :: (s.flatMap (reprPoint isprintable mark) ++ [mark])

/-- `repr` of a `float`; the text of a finite one is that of `json.dumps`. -/
def reprFloat : Double → PyStr
  | .nan => str "nan"
  | .inf neg => if neg then str "-inf" else str "inf"
  | f => str (repr f)

mutual
def Json.pyRepr : Json → PyStr
  | .null => str "None"
  | .bool b => if b then str "True" else str "False"
  | .int i => intText i
  | .float f => reprFloat f
  | .str s => reprText isprintable s
  | .arr [] => str "[]"
  | .arr (x :: xs) => 0x5B :: (x.pyRepr ++ (itemsRepr xs ++ [0x5D]))
  | .obj [] => str "\x7b\x7d"
  | .obj ((k, v) :: fs) =>
    0x7B :: (reprText isprintable k ++ (str ": " ++ (v.pyRepr ++ (membersRepr fs ++ [0x7D]))))

def itemsRepr : List Json → PyStr
  | [] => []
  | x :: xs => str ", " ++ (x.pyRepr ++ itemsRepr xs)

def membersRepr : List (PyStr × Json) → PyStr
  | [] => []
  | (k, v) :: fs => str ", " ++ (reprText isprintable k ++ (str ": " ++ (v.pyRepr ++ membersRepr fs)))
end

def Json.pyStr : Json → PyStr
  | .str s => s
  | j => j.pyRepr isprintable
end

theorem membersSorted_eq (fs : List (PyStr × Json)) : membersSorted fs = fs.map fun f => (f.1, f.2.sorted) := by
  induction fs with
  | nil => rfl
  | cons f fs ih => rw [membersSorted, ih, List.map_cons]

theorem membersValued_iff (fs : List (PyStr × Json)) :
    membersValued fs ↔ ∀ f ∈ fs, Apart f.1 ∧ f.2.Valued := by
  induction fs with
  | nil => simp [membersValued]
  | cons f fs ih => simp [membersValued, ih, and_assoc]

theorem sortMembers_perm (fs : List (PyStr × Json)) : List.Perm (sortMembers fs) fs := List.perm_insertionSort _ _

theorem distinct_sorted {fs : List (PyStr × Json)} (distinct : Distinct fs) :
    Distinct (sortMembers (membersSorted fs)) := by
  have same : OrderedDictionary.keys (membersSorted fs) = OrderedDictionary.keys fs := by
    rw [membersSorted_eq, OrderedDictionary.keys, OrderedDictionary.keys, List.map_map]
    rfl
  have perm := (sortMembers_perm (membersSorted fs)).map Prod.fst
  rw [Distinct, OrderedDictionary.keys, perm.nodup_iff]
  exact (congrArg List.Nodup same).mpr distinct

mutual
theorem valued_sorted : (j : Json) → j.Valued → j.sorted.Valued
  | .null, _ => trivial
  | .bool _, _ => trivial
  | .int _, _ => trivial
  | .float _, valued => valued
  | .str _, valued => valued
  | .arr xs, valued => by
    rw [Json.Valued] at valued
    rw [Json.sorted, Json.Valued]
    exact itemsValued_sorted xs valued
  | .obj fs, valued => by
    rw [Json.Valued] at valued
    have members := membersValued_sorted fs valued.2
    rw [membersValued_iff] at members
    rw [Json.sorted, Json.Valued, membersValued_iff]
    exact ⟨distinct_sorted valued.1, fun f member =>
      members f ((sortMembers_perm _).mem_iff.mp member)⟩

theorem itemsValued_sorted : (xs : List Json) → itemsValued xs → itemsValued (itemsSorted xs)
  | [], _ => trivial
  | x :: xs, valued => ⟨valued_sorted x valued.1, itemsValued_sorted xs valued.2⟩

theorem membersValued_sorted : (fs : List (PyStr × Json)) → membersValued fs → membersValued (membersSorted fs)
  | [], _ => trivial
  | (_, v) :: fs, valued => ⟨valued.1, valued_sorted v valued.2.1, membersValued_sorted fs valued.2.2⟩
end

def Layout.Floats (w : Layout) : Prop := ∀ f : Double, f.Canonical → w.FloatReads f

mutual
theorem readable_dumped {w : Layout} (floats : w.Floats) : (j : Json) → (n : Nat) → j.Valued → j.dumpError n = none →
    j.Readable w ∧ j.depth ≤ n
  | .null, _, _, _ => ⟨trivial, Nat.zero_le _⟩
  | .bool _, _, _, _ => ⟨trivial, Nat.zero_le _⟩
  | .int i, _, _, dumped => by
    rw [Json.dumpError] at dumped
    refine ⟨?_, Nat.zero_le _⟩
    rw [Json.Readable]
    by_contra long
    rw [if_neg long] at dumped
    cases dumped
  | .float f, _, valued, _ => ⟨floats f valued, Nat.zero_le _⟩
  | .str _, _, valued, _ => ⟨valued, Nat.zero_le _⟩
  | .arr _, 0, _, dumped => by cases dumped
  | .obj _, 0, _, dumped => by cases dumped
  | .arr xs, n + 1, valued, dumped => by
    rw [Json.dumpError] at dumped
    obtain ⟨readable, deep⟩ := itemsReadable_dumped floats xs n valued dumped
    exact ⟨readable, Nat.succ_le_succ deep⟩
  | .obj fs, n + 1, valued, dumped => by
    rw [Json.dumpError] at dumped
    obtain ⟨readable, deep⟩ := membersReadable_dumped floats fs n valued.2 dumped
    exact ⟨⟨valued.1, readable⟩, Nat.succ_le_succ deep⟩

theorem itemsReadable_dumped {w : Layout} (floats : w.Floats) : (xs : List Json) → (n : Nat) →
    itemsValued xs → itemsDumpError n xs = none → itemsReadable w xs ∧ itemsDepth xs ≤ n
  | [], _, _, _ => ⟨trivial, Nat.zero_le _⟩
  | x :: xs, n, valued, dumped => by
    rw [itemsDumpError, Option.or_eq_none_iff] at dumped
    have first := readable_dumped floats x n valued.1 dumped.1
    have rest := itemsReadable_dumped floats xs n valued.2 dumped.2
    exact ⟨⟨first.1, rest.1⟩, Nat.max_le.mpr ⟨first.2, rest.2⟩⟩

theorem membersReadable_dumped {w : Layout} (floats : w.Floats) : (fs : List (PyStr × Json)) → (n : Nat) →
    membersValued fs → membersDumpError n fs = none → membersReadable w fs ∧ membersDepth fs ≤ n
  | [], _, _, _ => ⟨trivial, Nat.zero_le _⟩
  | (_, v) :: fs, n, valued, dumped => by
    rw [membersDumpError, Option.or_eq_none_iff] at dumped
    have first := readable_dumped floats v n valued.2.1 dumped.1
    have rest := membersReadable_dumped floats fs n valued.2.2 dumped.2
    exact ⟨⟨valued.1, first.1, rest.1⟩, Nat.max_le.mpr ⟨first.2, rest.2⟩⟩
end

theorem membersDumpError_none {n : Nat} {fs : List (PyStr × Json)} :
    membersDumpError n fs = none ↔ ∀ f ∈ fs, f.2.dumpError n = none := by
  induction fs with
  | nil => simp [membersDumpError]
  | cons f fs ih => simp [membersDumpError, ih]

mutual
theorem dumpError_mono : (j : Json) → (m n : Nat) → m ≤ n → j.dumpError m = none → j.dumpError n = none
  | .null, _, _, _, _ => by simp [Json.dumpError]
  | .bool _, _, _, _, _ => by simp [Json.dumpError]
  | .int _, _, _, _, dumped => by simpa [Json.dumpError] using dumped
  | .float _, _, _, _, _ => by simp [Json.dumpError]
  | .str _, _, _, _, _ => by simp [Json.dumpError]
  | .arr _, 0, _, _, dumped => by cases dumped
  | .obj _, 0, _, _, dumped => by cases dumped
  | .arr xs, m + 1, n, le, dumped => by
    obtain ⟨n, rfl⟩ : ∃ k, n = k + 1 := ⟨n - 1, by omega⟩
    rw [Json.dumpError] at dumped ⊢
    exact itemsDumpError_mono xs m n (by omega) dumped
  | .obj fs, m + 1, n, le, dumped => by
    obtain ⟨n, rfl⟩ : ∃ k, n = k + 1 := ⟨n - 1, by omega⟩
    rw [Json.dumpError] at dumped ⊢
    exact membersDumpError_mono fs m n (by omega) dumped

theorem itemsDumpError_mono : (xs : List Json) → (m n : Nat) → m ≤ n → itemsDumpError m xs = none →
    itemsDumpError n xs = none
  | [], _, _, _, _ => rfl
  | x :: xs, m, n, le, dumped => by
    rw [itemsDumpError, Option.or_eq_none_iff] at dumped ⊢
    exact ⟨dumpError_mono x m n le dumped.1, itemsDumpError_mono xs m n le dumped.2⟩

theorem membersDumpError_mono : (fs : List (PyStr × Json)) → (m n : Nat) → m ≤ n →
    membersDumpError m fs = none → membersDumpError n fs = none
  | [], _, _, _, _ => rfl
  | (_, v) :: fs, m, n, le, dumped => by
    rw [membersDumpError, Option.or_eq_none_iff] at dumped ⊢
    exact ⟨dumpError_mono v m n le dumped.1, membersDumpError_mono fs m n le dumped.2⟩
end

theorem loads_sorted {w : Layout} (floats : w.Floats) {j : Json} {n limit : Nat} (valued : j.Valued)
    (dumped : j.sorted.dumpError n = none) (le : n ≤ limit) {b : PyStr} (blank : ∀ c ∈ b, isSpace c = true) :
    loads limit (j.sorted.dumps w 0 ++ b) = .ok j.sorted := by
  obtain ⟨readable, deep⟩ := readable_dumped floats j.sorted n (valued_sorted j valued) dumped
  exact loads_dumps w readable (deep.trans le) blank

theorem get_obj (fs : List (PyStr × Json)) (key : PyStr) : (Json.obj fs).get? key = lookup key fs := by
  have same : (fun f : PyStr × Json => f.1 == key) = fun f => decide (f.1 = key) :=
    funext fun f => Bool.eq_iff_iff.mpr (by simp)
  rw [Json.get?, lookup, same]

theorem get_sorted {fs : List (PyStr × Json)} (distinct : Distinct fs) (key : PyStr) :
    (Json.obj fs).sorted.get? key = ((Json.obj fs).get? key).map Json.sorted := by
  have members : ∀ v, (key, v) ∈ sortMembers (membersSorted fs) ↔ ∃ u, (key, u) ∈ fs ∧ u.sorted = v := by
    intro v
    rw [(sortMembers_perm _).mem_iff, membersSorted_eq, List.mem_map]
    constructor
    · rintro ⟨f, member, same⟩
      obtain ⟨rfl, rfl⟩ := Prod.mk.inj same
      exact ⟨f.2, member, rfl⟩
    · rintro ⟨u, member, rfl⟩
      exact ⟨(key, u), member, rfl⟩
  rw [Json.sorted, get_obj, get_obj]
  cases found : lookup key fs with
  | some u =>
    have inside := (lookup_eq_some distinct).mp found
    exact (lookup_eq_some (distinct_sorted distinct)).mpr ((members _).mpr ⟨u, inside, rfl⟩)
  | none =>
    refine lookup_eq_none.mpr fun inside => ?_
    obtain ⟨⟨k, v⟩, member, rfl⟩ := List.mem_map.mp inside
    obtain ⟨u, old, _⟩ := (members v).mp member
    exact lookup_eq_none.mp found (List.mem_map.mpr ⟨_, old, rfl⟩)

theorem truthy_sorted (j : Json) : j.sorted.truthy = j.truthy := by
  cases j with
  | arr xs => cases xs <;> rfl
  | obj fs =>
    have length : (sortMembers (membersSorted fs)).length = fs.length := by
      rw [(sortMembers_perm _).length_eq, membersSorted_eq, List.length_map]
    rw [Json.sorted, Json.truthy, Json.truthy, Bool.eq_iff_iff]
    simp only [Bool.not_eq_true', List.isEmpty_eq_false_iff, ← List.length_pos_iff, length]
  | _ => rfl

end JsonText
