import SentinelBrief.Library.Json

/-!
Python's `int(text)`: surrounding white space, a sign, decimal digits of any
script, single underscores between digits, at most `intMaxStrDigits` of them.
-/
namespace PyIntText
open Utf8Text JsonText

/-- Code points of the digit zero of each script (Unicode 15.0, category Nd). -/
def zeros : List Nat :=
  [0x30, 0x660, 0x6F0, 0x7C0, 0x966, 0x9E6, 0xA66, 0xAE6, 0xB66, 0xBE6, 0xC66, 0xCE6, 0xD66,
    0xDE6, 0xE50, 0xED0, 0xF20, 0x1040, 0x1090, 0x17E0, 0x1810, 0x1946, 0x19D0, 0x1A80, 0x1A90,
    0x1B50, 0x1BB0, 0x1C40, 0x1C50, 0xA620, 0xA8D0, 0xA900, 0xA9D0, 0xA9F0, 0xAA50, 0xABF0,
    0xFF10, 0x104A0, 0x10D30, 0x11066, 0x110F0, 0x11136, 0x111D0, 0x112F0, 0x11450, 0x114D0,
    0x11650, 0x116C0, 0x11730, 0x118E0, 0x11950, 0x11C50, 0x11D50, 0x11DA0, 0x11F50, 0x16A60,
    0x16AC0, 0x16B50, 0x1D7CE, 0x1D7D8, 0x1D7E2, 0x1D7EC, 0x1D7F6, 0x1E140, 0x1E2F0, 0x1E4F0,
    0x1E950, 0x1FBF0]

def digitOf (c : Nat) : Option Nat :=
  zeros.findSome? fun z => if z ≤ c ∧ c < z + 10 then some (c - z) else none

def asciiSpace (c : Nat) : Bool := (0x09 ≤ c && c ≤ 0x0D) || c == 0x20

def unicodeSpace (c : Nat) : Bool :=
  asciiSpace c || (0x1C ≤ c && c ≤ 0x1F) || c == 0x85 || c == 0xA0 || c == 0x1680 ||
    (0x2000 ≤ c && c ≤ 0x200A) || c == 0x2028 || c == 0x2029 || c == 0x202F || c == 0x205F ||
    c == 0x3000

/-- What `int` strips: of the ASCII characters only those that C calls white space. -/
def intSpace (c : Nat) : Bool := asciiSpace c || (0x80 ≤ c && unicodeSpace c)

/-- Digits with single underscores between them; `after` says a digit stands before. -/
def groups (after : Bool) : PyStr → Option (List Nat)
  | [] => if after then some [] else none
  | c :: s =>
    if c = 0x5F then if after ∧ s.head? ≠ some 0x5F ∧ s ≠ [] then groups false s else none
    else match digitOf c with
      | some d => (groups true s).map (d :: ·)
      | none => none

/-- `int(text)`; `none` is `ValueError`. -/
def pyInt (text : PyStr) : Option Int :=
  let body := ((text.dropWhile intSpace).reverse.dropWhile intSpace).reverse
  let signed := match body with
    | 0x2D :: s => (true, s)
    | 0x2B :: s => (false, s)
    | s => (false, s)
  match groups false signed.2 with
  | none => none
  | some ds =>
    if intMaxStrDigits < ds.length then none
    else
      let n := ds.foldl (fun n d => n * 10 + d) 0
      some (if signed.1 then -(n : Int) else n)

theorem digitOf_ascii {c : Nat} (digit : isDigit c = true) : digitOf c = some (c - 0x30) := by
  simp only [isDigit, Bool.and_eq_true, decide_eq_true_eq] at digit
  rw [digitOf, zeros, List.findSome?_cons, if_pos (by omega)]

theorem groups_ascii {text : PyStr} {after : Bool} (digits : ∀ c ∈ text, isDigit c = true)
    (some : after = true ∨ text ≠ []) :
    groups after text = Option.some (text.map fun c => c - 0x30) := by
  induction text generalizing after with
  | nil => simpa [groups] using some
  | cons c text ih =>
    have digit := digits c (by simp)
    have plain : c ≠ 0x5F := by
      simp only [isDigit, Bool.and_eq_true, decide_eq_true_eq] at digit
      omega
    simp [groups, plain, digitOf_ascii digit, ih (fun d member => digits d (by simp [member]))]

theorem groups_refuses {text : PyStr} {after : Bool} {c : Nat} (member : c ∈ text)
    (other : c ≠ 0x5F) (none : digitOf c = none) : groups after text = Option.none := by
  induction text generalizing after with
  | nil => cases member
  | cons d text ih =>
    rcases List.mem_cons.mp member with rfl | inside
    · simp [groups, other, none]
    · simp only [groups]
      split
      · split
        · exact ih inside
        · rfl
      · split
        · rw [ih inside]
          rfl
        · rfl

theorem strip_plain {text : PyStr} (plain : ∀ c ∈ text, unicodeSpace c = false) :
    ((text.dropWhile intSpace).reverse.dropWhile intSpace).reverse = text := by
  have keep : ∀ l : PyStr, (∀ c ∈ l, c ∈ text) → l.dropWhile intSpace = l := by
    intro l inside
    cases l with
    | nil => rfl
    | cons c l =>
      have solid := plain c (inside c (by simp))
      rw [List.dropWhile_cons_of_neg]
      intro blank
      simp only [intSpace, Bool.or_eq_true, Bool.and_eq_true] at blank
      rcases blank with narrow | ⟨_, wide⟩
      · simp [unicodeSpace, narrow] at solid
      · simp [wide] at solid
  rw [keep text fun c member => member, keep _ fun c member => List.mem_reverse.mp member,
    List.reverse_reverse]

theorem pyInt_plain {text : PyStr} (plain : ∀ c ∈ text, unicodeSpace c = false)
    (unsigned : ∀ c ∈ text, c ≠ 0x2D ∧ c ≠ 0x2B) :
    pyInt text = match groups false text with
      | none => none
      | some ds => if intMaxStrDigits < ds.length then none
        else some ((ds.foldl (fun n d => n * 10 + d) 0 : Nat) : Int) := by
  have body := strip_plain plain
  simp only [pyInt, body]
  clear body plain
  cases text with
  | nil => rfl
  | cons c s =>
    obtain ⟨minus, plus⟩ := unsigned c (by simp)
    clear unsigned
    have sign : (match c :: s with
        | 0x2D :: s => (true, s)
        | 0x2B :: s => (false, s)
        | s => (false, s)) = (false, c :: s) := by
      split
      · rename_i eq
        exact absurd (List.cons.inj eq).1 minus
      · rename_i eq
        exact absurd (List.cons.inj eq).1 plus
      · rfl
    simp only [sign]
    cases groups false (c :: s) with
    | none => rfl
    | some ds => simp

theorem pyInt_minus {text : PyStr} (plain : ∀ c ∈ text, unicodeSpace c = false) :
    pyInt (0x2D :: text) = match groups false text with
      | none => none
      | some ds => if intMaxStrDigits < ds.length then none
        else some (-((ds.foldl (fun n d => n * 10 + d) 0 : Nat) : Int)) := by
  have body := strip_plain (List.forall_mem_cons.mpr ⟨(by decide : unicodeSpace 0x2D = false), plain⟩)
  simp only [pyInt, body]
  cases groups false text with
  | none => rfl
  | some ds => simp

end PyIntText
