import SentinelBrief.Library.Decimal
import SentinelBrief.Library.JsonRoundTrip
import SentinelBrief.Library.PyInt

/-!
Python's `Decimal` as text: `str(value)`, `Decimal(text)` and what the format
specification `.nf` makes of a `Decimal` or of a float. Exponents are unbounded.
-/
namespace DecimalText
open Utf8Text JsonText PyIntText DoubleText FixedDecimal

/-- A value that is no NaN is `coefficient * 10 ^ exponent`. -/
inductive Decimal where
  | finite (negative : Bool) (coefficient : Nat) (exponent : Int)
  | infinite (negative : Bool)
  | nan (negative signaling : Bool) (payload : Nat)
  deriving DecidableEq

def signText (negative : Bool) : PyStr := if negative then [0x2D] else []

def zeroDigits (n : Nat) : PyStr := List.replicate n 0x30

def mantissaText (ds : PyStr) (place : Int) : PyStr :=
  if place ≤ 0 then 0x30 :: 0x2E :: (zeroDigits (-place).toNat ++ ds)
  else if ds.length ≤ place then ds ++ zeroDigits (place - ds.length).toNat
  else ds.take place.toNat ++ 0x2E :: ds.drop place.toNat

def exponentText (i : Int) : PyStr :=
  0x45 :: (if i < 0 then 0x2D else 0x2B) :: digitsText i.natAbs

def finiteText (ds : PyStr) (exponent : Int) : PyStr :=
  let left := exponent + ds.length
  if exponent ≤ 0 ∧ -6 < left then mantissaText ds left
  else mantissaText ds 1 ++ if left = 1 then [] else exponentText (left - 1)

def Decimal.text : Decimal → PyStr
  | .finite negative coefficient exponent =>
    signText negative ++ finiteText (digitsText coefficient) exponent
  | .infinite negative => signText negative ++ str "Infinity"
  | .nan negative signaling payload =>
    signText negative ++ (if signaling then str "sNaN" else str "NaN") ++
      if payload = 0 then [] else digitsText payload

def lower (c : Nat) : Nat := if 0x41 ≤ c ∧ c ≤ 0x5A then c + 0x20 else c

def readSign (s : PyStr) : Bool × PyStr :=
  if s.head? = some 0x2D then (true, s.tail)
  else if s.head? = some 0x2B then (false, s.tail)
  else (false, s)

def readDigits (s : PyStr) : Option Nat :=
  if s ≠ [] ∧ s.all isDigit then some (digitsValue s) else none

def readExponent : PyStr → Option Int
  | [] => some 0
  | c :: t =>
    if c = 0x45 ∨ c = 0x65 then
      (readDigits (readSign t).2).map fun n => if (readSign t).1 then -(n : Int) else n
    else none

def readPoint : PyStr → PyStr × PyStr
  | 0x2E :: t => (t.takeWhile isDigit, t.dropWhile isDigit)
  | t => ([], t)

def readNumber (s : PyStr) : Option (Nat × Int) :=
  let whole := s.takeWhile isDigit
  let point := readPoint (s.dropWhile isDigit)
  if whole ++ point.1 = [] then none
  else (readExponent point.2).map fun e =>
    (digitsValue (whole ++ point.1), e - point.1.length)

def readPayload (s : PyStr) : Option Nat := if s.all isDigit then some (digitsValue s) else none

def readUnsigned (negative : Bool) (s : PyStr) : Option Decimal :=
  let word := s.map lower
  if word = str "inf" ∨ word = str "infinity" then some (.infinite negative)
  else if word.take 3 = str "nan" then (readPayload (s.drop 3)).map (.nan negative false)
  else if word.take 4 = str "snan" then (readPayload (s.drop 4)).map (.nan negative true)
  else (readNumber s).map fun n => .finite negative n.1 n.2

def asciiDigit (c : Nat) : Nat := ((digitOf c).map (0x30 + ·)).getD c

/-- `Decimal(text)`; `none` is `InvalidOperation`. -/
def readDecimal (text : PyStr) : Option Decimal :=
  let body := ((text.dropWhile unicodeSpace).reverse.dropWhile unicodeSpace).reverse
  let s := (body.filter (· ≠ 0x5F)).map asciiDigit
  readUnsigned (readSign s).1 (readSign s).2

def fixedDigits (places n : Nat) : PyStr :=
  digitsText (n / 10 ^ places) ++ 0x2E :: padded places (n % 10 ^ places)

/-- `f"{value:.nf}"` of a float: ties to even. -/
def floatFixed (places : Nat) : Double → PyStr
  | .nan => str "nan"
  | .inf negative => signText negative ++ str "inf"
  | .fin negative m e =>
    let n := if 0 ≤ e then m * 2 ^ e.toNat * 10 ^ places else divRound (m * 10 ^ places) (2 ^ (-e).toNat)
    signText negative ++ fixedDigits places n

/-- `f"{value:.nf}"` of a `Decimal`: ties to even. -/
def Decimal.fixed (places : Nat) : Decimal → PyStr
  | .finite negative coefficient exponent =>
    let k := exponent + places
    let n := if 0 ≤ k then coefficient * 10 ^ k.toNat else divRound coefficient (10 ^ (-k).toNat)
    signText negative ++ fixedDigits places n
  | v => v.text

structure Tail (x : PyStr) (e : Int) : Prop where
  read : readExponent x = some e
  apart : ∀ c, x.head? = some c → isDigit c = false ∧ c ≠ 0x2E

theorem tail_nil : Tail [] 0 := ⟨rfl, by simp⟩

theorem readExponent_sign (negative : Bool) {ds : PyStr} (digits : ∀ c ∈ ds, isDigit c = true)
    (some : ds ≠ []) :
    readExponent (0x45 :: (if negative then 0x2D else 0x2B) :: ds) =
      Option.some (if negative then -(digitsValue ds : Int) else digitsValue ds) := by
  have all : ds.all isDigit = true := List.all_eq_true.mpr digits
  have sign : readSign ((if negative then 0x2D else 0x2B) :: ds) = (negative, ds) := by
    cases negative <;> rfl
  rw [readExponent, if_pos (.inl rfl), sign, readDigits, if_pos ⟨some, all⟩]
  rfl

theorem tail_exponent (i : Int) : Tail (exponentText i) i := by
  have some : digitsText i.natAbs ≠ [] := by
    simp [digitsText, Nat.toDigits_ne_nil]
  have read := readExponent_sign (decide (i < 0)) (digitsText_digits i.natAbs) some
  simp only [decide_eq_true_eq, digitsText_value] at read
  constructor
  · rw [exponentText, read]
    congr 1
    split <;> omega
  · intro c head
    rw [exponentText, List.head?_cons, Option.some.injEq] at head
    subst head
    decide

theorem span_digits {ds t : PyStr} (digits : ∀ c ∈ ds, isDigit c = true)
    (apart : ∀ c, t.head? = some c → isDigit c = false) :
    (ds ++ t).takeWhile isDigit = ds ∧ (ds ++ t).dropWhile isDigit = t := by
  rw [List.takeWhile_append_of_pos digits, List.dropWhile_append_of_pos digits]
  cases t with
  | nil => simp
  | cons c t => simp [apart c rfl]

theorem readNumber_point {w f x : PyStr} {e : Int} (whole : ∀ c ∈ w, isDigit c = true)
    (fraction : ∀ c ∈ f, isDigit c = true) (some : w ≠ []) (tail : Tail x e) :
    readNumber (w ++ 0x2E :: (f ++ x)) = Option.some (digitsValue (w ++ f), e - f.length) := by
  have mark : isDigit 0x2E = false := rfl
  have first := span_digits (t := 0x2E :: (f ++ x)) whole (by simp [mark])
  have second := span_digits fraction fun c head => (tail.apart c head).1
  simp only [readNumber, first, readPoint, second, tail.read, List.append_eq_nil_iff, some,
    false_and, if_false, Option.map_some]

theorem readNumber_whole {w x : PyStr} {e : Int} (whole : ∀ c ∈ w, isDigit c = true)
    (some : w ≠ []) (tail : Tail x e) : readNumber (w ++ x) = Option.some (digitsValue w, e) := by
  have first := span_digits whole fun c head => (tail.apart c head).1
  have none : readPoint x = ([], x) := by
    unfold readPoint
    split
    · exact absurd rfl (tail.apart 0x2E rfl).2
    · rfl
  simp [readNumber, first, none, tail.read, some]

theorem digitsValue_zeros (n : Nat) (ds : PyStr) :
    digitsValue (zeroDigits n ++ ds) = digitsValue ds := by
  induction n with
  | zero => rfl
  | succ n ih =>
    rw [← ih]
    rfl

theorem zeroDigits_digits (n : Nat) : ∀ c ∈ zeroDigits n, isDigit c = true := by
  intro c member
  rw [List.eq_of_mem_replicate member]
  rfl

theorem readNumber_mantissa (place : Int) {ds x : PyStr} {e : Int} (digits : ∀ c ∈ ds, isDigit c = true)
    (some : ds ≠ []) (within : place ≤ ds.length) (tail : Tail x e) :
    readNumber (mantissaText ds place ++ x) =
      Option.some (digitsValue ds, e - (ds.length - place)) := by
  unfold mantissaText
  by_cases low : place ≤ 0
  · have fraction : ∀ c ∈ zeroDigits (-place).toNat ++ ds, isDigit c = true :=
      List.forall_mem_append.mpr ⟨zeroDigits_digits _, digits⟩
    have read := readNumber_point (w := [0x30]) (by decide) fraction (by simp) tail
    have value : digitsValue ([0x30] ++ (zeroDigits (-place).toNat ++ ds)) = digitsValue ds :=
      digitsValue_zeros ((-place).toNat + 1) ds
    have size : ((zeroDigits (-place).toNat ++ ds).length : Int) = ds.length - place := by
      rw [List.length_append, zeroDigits, List.length_replicate]
      omega
    rw [if_pos low]
    rw [value, size] at read
    simpa using read
  · rw [if_neg low]
    by_cases whole : ds.length ≤ place
    · have zero : (place - ds.length).toNat = 0 := by omega
      have same : (ds.length : Int) - place = 0 := by omega
      rw [if_pos whole, zero, same]
      simpa [zeroDigits] using readNumber_whole digits some tail
    · have read := readNumber_point (w := ds.take place.toNat) (f := ds.drop place.toNat)
        (fun c member => digits c (List.take_subset _ _ member))
        (fun c member => digits c (List.drop_subset _ _ member))
        (by
          have positive : 0 < (ds.take place.toNat).length := by
            rw [List.length_take]
            omega
          exact List.ne_nil_of_length_pos positive) tail
      have size : ((ds.drop place.toNat).length : Int) = ds.length - place := by
        rw [List.length_drop]
        omega
      rw [if_neg whole]
      rw [List.take_append_drop, size] at read
      simpa using read

theorem readNumber_finite {ds : PyStr} (digits : ∀ c ∈ ds, isDigit c = true) (some : ds ≠ [])
    (exponent : Int) :
    readNumber (finiteText ds exponent) = Option.some (digitsValue ds, exponent) := by
  have positive := List.length_pos_of_ne_nil some
  unfold finiteText
  dsimp only
  by_cases plain : exponent ≤ 0 ∧ -6 < exponent + ds.length
  · have read := readNumber_mantissa (exponent + ds.length) digits some (by omega) tail_nil
    rw [if_pos plain]
    rw [List.append_nil] at read
    rw [read]
    congr 2
    omega
  · rw [if_neg plain]
    by_cases one : exponent + ds.length = 1
    · omega
    · have read := readNumber_mantissa 1 digits some (by omega)
        (tail_exponent (exponent + ds.length - 1))
      rw [if_neg one, read]
      congr 2
      omega

theorem finiteText_cons {ds : PyStr} (digits : ∀ c ∈ ds, isDigit c = true) (some : ds ≠ [])
    (exponent : Int) : ∃ c t, finiteText ds exponent = c :: t ∧ isDigit c = true := by
  have mantissa : ∀ place, ∃ c t, mantissaText ds place = c :: t ∧ isDigit c = true := by
    intro place
    obtain ⟨d, u, rfl⟩ := List.exists_cons_of_ne_nil some
    have digit := digits d (by simp)
    unfold mantissaText
    split
    · exact ⟨_, _, rfl, rfl⟩
    split
    · exact ⟨d, _, rfl, digit⟩
    · obtain ⟨n, eq⟩ : ∃ n, place.toNat = n + 1 := ⟨place.toNat - 1, by omega⟩
      rw [eq]
      exact ⟨d, _, rfl, digit⟩
  unfold finiteText
  dsimp only
  split
  · exact mantissa _
  · obtain ⟨c, t, eq, digit⟩ := mantissa 1
    rw [eq]
    exact ⟨c, _, rfl, digit⟩

/-- Neither white space nor an underscore, nor a digit of another script. -/
def Visible (s : PyStr) : Prop := ∀ c ∈ s, 0x21 ≤ c ∧ c < 0x7F ∧ c ≠ 0x5F

instance (s : PyStr) : Decidable (Visible s) :=
  inferInstanceAs (Decidable (∀ c ∈ s, 0x21 ≤ c ∧ c < 0x7F ∧ c ≠ 0x5F))

theorem visible_append {s t : PyStr} (left : Visible s) (right : Visible t) : Visible (s ++ t) :=
  List.forall_mem_append.mpr ⟨left, right⟩

theorem visible_digits {ds : PyStr} (digits : ∀ c ∈ ds, isDigit c = true) : Visible ds := by
  intro c member
  have digit := digits c member
  simp only [isDigit, Bool.and_eq_true, decide_eq_true_eq] at digit
  omega

theorem visible_mantissa {ds : PyStr} (digits : ∀ c ∈ ds, isDigit c = true) (place : Int) :
    Visible (mantissaText ds place) := by
  have zeros : ∀ n, Visible (zeroDigits n) := fun n => visible_digits (zeroDigits_digits n)
  have part : ∀ n, Visible (ds.take n) ∧ Visible (ds.drop n) := fun n =>
    ⟨visible_digits fun c member => digits c (List.take_subset _ _ member),
      visible_digits fun c member => digits c (List.drop_subset _ _ member)⟩
  unfold mantissaText
  split
  · exact visible_append (s := [0x30, 0x2E]) (by decide) (visible_append (zeros _) (visible_digits digits))
  split
  · exact visible_append (visible_digits digits) (zeros _)
  · exact visible_append (part _).1 (visible_append (s := [0x2E]) (by decide) (part _).2)

theorem visible_exponent (i : Int) : Visible (exponentText i) := by
  have digits := visible_digits (digitsText_digits i.natAbs)
  unfold exponentText
  split
  · exact visible_append (s := [0x45, 0x2D]) (by decide) digits
  · exact visible_append (s := [0x45, 0x2B]) (by decide) digits

theorem visible_text (v : Decimal) : Visible v.text := by
  have sign : ∀ negative, Visible (signText negative) := by decide
  cases v with
  | infinite negative => exact visible_append (sign _) (by decide)
  | finite negative coefficient exponent =>
    have digits := digitsText_digits coefficient
    refine visible_append (sign _) ?_
    unfold finiteText
    dsimp only
    split
    · exact visible_mantissa digits _
    · refine visible_append (visible_mantissa digits _) ?_
      split
      · decide
      · exact visible_exponent _
  | nan negative signaling payload =>
    refine visible_append (visible_append (sign _) ?_) ?_
    · cases signaling <;> decide
    · split
      · decide
      · exact visible_digits (digitsText_digits _)

theorem readDecimal_visible {s : PyStr} (visible : Visible s) :
    readDecimal s = readUnsigned (readSign s).1 (readSign s).2 := by
  have keep : ∀ l : PyStr, Visible l → l.dropWhile unicodeSpace = l := by
    intro l visible
    cases l with
    | nil => rfl
    | cons c l =>
      have range := visible c (by simp)
      have inked : ∀ d < 0x7F, 0x21 ≤ d → unicodeSpace d = false := by decide
      rw [List.dropWhile_cons_of_neg (by simp [inked c range.2.1 range.1])]
  have back : Visible s.reverse := fun c member => visible c (List.mem_reverse.mp member)
  have underscore : s.filter (· ≠ 0x5F) = s := by
    rw [List.filter_eq_self]
    intro c member
    simpa using (visible c member).2.2
  have ascii : s.map asciiDigit = s := by
    have same : ∀ d < 0x7F, asciiDigit d = d := by decide
    have each : s.map asciiDigit = s.map id :=
      List.map_congr_left fun c member => same c (visible c member).2.1
    rw [each, List.map_id]
  rw [readDecimal]
  simp only [keep s visible, keep _ back, List.reverse_reverse, underscore, ascii]

theorem readSign_text (negative : Bool) {s : PyStr} (unsigned : s.head? ≠ some 0x2D ∧ s.head? ≠ some 0x2B) :
    readSign (signText negative ++ s) = (negative, s) := by
  cases negative
  · simp [signText, readSign, unsigned.1, unsigned.2]
  · rfl

theorem readUnsigned_number {c : Nat} (digit : isDigit c = true) (negative : Bool) (s : PyStr) :
    readUnsigned negative (c :: s) = (readNumber (c :: s)).map fun n => .finite negative n.1 n.2 := by
  simp only [isDigit, Bool.and_eq_true, decide_eq_true_eq] at digit
  have same : lower c = c := by
    rw [lower, if_neg (by omega)]
  have i : ¬ c = 0x69 := by omega
  have n : ¬ c = 0x6E := by omega
  have r : ¬ c = 0x73 := by omega
  simp [readUnsigned, same, str, i, n, r]

theorem readPayload_digits {ds : PyStr} (digits : ∀ c ∈ ds, isDigit c = true) :
    readPayload ds = some (digitsValue ds) := by
  rw [readPayload, if_pos (List.all_eq_true.mpr digits)]

theorem readUnsigned_nan (negative signaling : Bool) {ds : PyStr}
    (digits : ∀ c ∈ ds, isDigit c = true) :
    readUnsigned negative ((if signaling then str "sNaN" else str "NaN") ++ ds) =
      some (.nan negative signaling (digitsValue ds)) := by
  cases signaling <;> simp [readUnsigned, str, lower, readPayload_digits digits]

theorem readDecimal_text (v : Decimal) : readDecimal v.text = some v := by
  rw [readDecimal_visible (visible_text v)]
  cases v with
  | infinite negative => cases negative <;> decide
  | finite negative coefficient exponent =>
    have read := readNumber_finite (digitsText_digits coefficient)
      (by simp [digitsText, Nat.toDigits_ne_nil]) exponent
    obtain ⟨c, t, eq, digit⟩ := finiteText_cons (digitsText_digits coefficient)
      (by simp [digitsText, Nat.toDigits_ne_nil]) exponent
    have unsigned : (c :: t).head? ≠ some 0x2D ∧ (c :: t).head? ≠ some 0x2B := by
      simp only [isDigit, Bool.and_eq_true, decide_eq_true_eq] at digit
      simp only [List.head?_cons, ne_eq, Option.some.injEq]
      omega
    rw [eq, digitsText_value] at read
    rw [Decimal.text, eq, readSign_text negative unsigned]
    simp only [readUnsigned_number digit, read, Option.map_some]
  | nan negative signaling payload =>
    have digits : ∀ c ∈ (if payload = 0 then [] else digitsText payload), isDigit c = true := by
      split
      · simp
      · exact digitsText_digits _
    have value : digitsValue (if payload = 0 then [] else digitsText payload) = payload := by
      split
      · rename_i zero
        rw [zero]
        rfl
      · exact digitsText_value _
    have unsigned : ∀ ds : PyStr, ((if signaling then str "sNaN" else str "NaN") ++ ds).head? ≠ some 0x2D ∧
        ((if signaling then str "sNaN" else str "NaN") ++ ds).head? ≠ some 0x2B := by
      intro ds
      cases signaling <;> simp [str]
    rw [Decimal.text, List.append_assoc, readSign_text negative (unsigned _)]
    simp only [readUnsigned_nan negative signaling digits, value]

end DecimalText
