import Mathlib.Algebra.GroupWithZero.Nat
import Mathlib.Data.List.Lex
import Mathlib.Data.List.Sort
import SentinelBrief.Library.Double
import SentinelBrief.Library.Utf8

/-!
JSON text as Python's `json` module reads and writes it. Reading is total: the
three ways in which it fails are values of `LoadError`. `limit` bounds the
nesting of arrays and objects, past which the interpreter raises
`RecursionError`. Fuel is the length of the text; every call consumes a code
point before it calls again.
-/
namespace JsonText
open Utf8Text DoubleText

inductive Json where
  | null : Json
  | bool : Bool → Json
  | int : Int → Json
  | float : Double → Json
  | str : PyStr → Json
  | arr : List Json → Json
  | obj : List (PyStr × Json) → Json

inductive LoadError where
  | decode
  | value
  | recursion
  deriving DecidableEq, Repr

def intMaxStrDigits : Nat := 4300

def isSpace (c : Nat) : Bool := c == 0x20 || c == 0x09 || c == 0x0A || c == 0x0D

def isDigit (c : Nat) : Bool := 0x30 ≤ c && c ≤ 0x39

def skipSpace (s : PyStr) : PyStr := s.dropWhile isSpace

def hexValue (c : Nat) : Option Nat :=
  if 0x30 ≤ c ∧ c ≤ 0x39 then some (c - 0x30)
  else if 0x61 ≤ c ∧ c ≤ 0x66 then some (c - 0x57)
  else if 0x41 ≤ c ∧ c ≤ 0x46 then some (c - 0x37)
  else none

def hex4 : PyStr → Option (Nat × PyStr)
  | a :: b :: c :: d :: s => do
    some ((((← hexValue a) * 16 + (← hexValue b)) * 16 + (← hexValue c)) * 16 + (← hexValue d), s)
  | _ => none

def lowHalf : PyStr → Option (Nat × PyStr)
  | 0x5C :: 0x75 :: s => match hex4 s with
    | some (p, s) => if 0xDC00 ≤ p ∧ p ≤ 0xDFFF then some (p, s) else none
    | none => none
  | _ => none

/-- What follows a backslash. A high surrogate that no low one follows stays alone. -/
def scanEscape : PyStr → Option (Nat × PyStr)
  | [] => none
  | e :: s =>
    if e = 0x22 ∨ e = 0x5C ∨ e = 0x2F then some (e, s)
    else if e = 0x62 then some (0x08, s)
    else if e = 0x66 then some (0x0C, s)
    else if e = 0x6E then some (0x0A, s)
    else if e = 0x72 then some (0x0D, s)
    else if e = 0x74 then some (0x09, s)
    else if e = 0x75 then match hex4 s with
      | none => none
      | some (p, s) =>
        if 0xD800 ≤ p ∧ p ≤ 0xDBFF then match lowHalf s with
          | some (q, s) => some (0x10000 + (p - 0xD800) * 1024 + (q - 0xDC00), s)
          | none => some (p, s)
        else some (p, s)
    else none

def scanString : Nat → PyStr → Option (PyStr × PyStr)
  | 0, _ => none
  | _, [] => none
  | fuel + 1, c :: s =>
    if c = 0x22 then some ([], s)
    else if c < 0x20 then none
    else if c = 0x5C then
      (scanEscape s).bind fun q => (scanString fuel q.2).map fun r => (q.1 :: r.1, r.2)
    else (scanString fuel s).map fun r => (c :: r.1, r.2)

def digitsValue (s : PyStr) : Nat := s.foldl (fun n c => n * 10 + (c - 0x30)) 0

/-- The fraction, only if a digit follows the point. -/
def scanFraction (s : PyStr) : PyStr × PyStr :=
  match s with
  | 0x2E :: t => if (t.takeWhile isDigit).isEmpty then ([], s)
      else (t.takeWhile isDigit, t.dropWhile isDigit)
  | _ => ([], s)

/-- The exponent, only if a digit follows its letter and sign. -/
def scanExponent (s : PyStr) : Option Int × PyStr :=
  match s with
  | e :: t =>
    if e = 0x65 ∨ e = 0x45 then
      let signed := match t with
        | c :: u => if c = 0x2D then (true, u) else if c = 0x2B then (false, u) else (false, t)
        | [] => (false, t)
      let ds := signed.2.takeWhile isDigit
      if ds.isEmpty then (none, s)
      else (some (if signed.1 then -(digitsValue ds : Int) else digitsValue ds),
        signed.2.dropWhile isDigit)
    else (none, s)
  | [] => (none, s)

def scanWhole (s : PyStr) : PyStr × PyStr :=
  match s with
  | 0x30 :: t => ([0x30], t)
  | _ => (s.takeWhile isDigit, s.dropWhile isDigit)

def scanNumber (neg : Bool) (s : PyStr) : Except LoadError (Json × PyStr) :=
  let whole := scanWhole s
  if whole.1.isEmpty then .error .decode
  else
    let fraction := scanFraction whole.2
    let expo := scanExponent fraction.2
    if fraction.1.isEmpty && expo.1.isNone then
      if intMaxStrDigits < whole.1.length then .error .value
      else .ok (.int (if neg then -(digitsValue whole.1 : Int) else digitsValue whole.1), expo.2)
    else
      .ok (.float (ofDecimal neg (digitsValue (whole.1 ++ fraction.1))
        (expo.1.getD 0 - fraction.1.length)), expo.2)

def words : List (PyStr × Json) :=
  [(str "null", .null), (str "true", .bool true), (str "false", .bool false),
    (str "NaN", .float .nan), (str "Infinity", .float (.inf false)),
    (str "-Infinity", .float (.inf true))]

def scanWord (s : PyStr) : Option (Json × PyStr) :=
  words.findSome? fun w => if w.1.isPrefixOf s then some (w.2, s.drop w.1.length) else none

/-- `dict[key] = value`: an existing key keeps its place. -/
def setField (key : PyStr) (value : Json) : List (PyStr × Json) → List (PyStr × Json)
  | [] => [(key, value)]
  | f :: fs => if f.1 = key then (key, value) :: fs else f :: setField key value fs

mutual
def scanValue : Nat → Nat → PyStr → Except LoadError (Json × PyStr)
  | 0, _, _ => .error .decode
  | fuel + 1, depth, s => match s with
    | 0x22 :: t => match scanString fuel t with
      | some (v, t) => .ok (.str v, t)
      | none => .error .decode
    | 0x7B :: t => match depth with
      | 0 => .error .recursion
      | depth + 1 => match skipSpace t with
        | 0x7D :: u => .ok (.obj [], u)
        | u => (scanFields fuel depth [] u).map fun r => (.obj r.1, r.2)
    | 0x5B :: t => match depth with
      | 0 => .error .recursion
      | depth + 1 => match skipSpace t with
        | 0x5D :: u => .ok (.arr [], u)
        | u => (scanItems fuel depth u).map fun r => (.arr r.1, r.2)
    | _ => match scanWord s with
      | some r => .ok r
      | none => match s with
        | 0x2D :: t => scanNumber true t
        | _ => scanNumber false s

def scanItems : Nat → Nat → PyStr → Except LoadError (List Json × PyStr)
  | 0, _, _ => .error .decode
  | fuel + 1, depth, s => match scanValue fuel depth s with
    | .error e => .error e
    | .ok (v, t) => match skipSpace t with
      | 0x5D :: u => .ok ([v], u)
      | 0x2C :: u => (scanItems fuel depth (skipSpace u)).map fun r => (v :: r.1, r.2)
      | _ => .error .decode

def scanFields : Nat → Nat → List (PyStr × Json) → PyStr →
    Except LoadError (List (PyStr × Json) × PyStr)
  | 0, _, _, _ => .error .decode
  | fuel + 1, depth, acc, s => match s with
    | 0x22 :: t => match scanString fuel t with
      | none => .error .decode
      | some (key, t) => match skipSpace t with
        | 0x3A :: u => match scanValue fuel depth (skipSpace u) with
          | .error e => .error e
          | .ok (v, t) => match skipSpace t with
            | 0x7D :: u => .ok (setField key v acc, u)
            | 0x2C :: u => scanFields fuel depth (setField key v acc) (skipSpace u)
            | _ => .error .decode
        | _ => .error .decode
    | _ => .error .decode
end

theorem scanFields_one {fuel depth : Nat} {acc : List (PyStr × Json)} {key s t u w : PyStr} {v : Json}
    (named : scanString fuel s = some (key, t)) (colon : skipSpace t = 0x3A :: u)
    (value : scanValue fuel depth (skipSpace u) = .ok (v, w)) :
    scanFields (fuel + 1) depth acc (0x22 :: s) = match skipSpace w with
      | 0x7D :: u => .ok (setField key v acc, u)
      | 0x2C :: u => scanFields fuel depth (setField key v acc) (skipSpace u)
      | _ => .error .decode := by
  simp only [scanFields, named, colon, value]

def loads (limit : Nat) (s : PyStr) : Except LoadError Json :=
  if s.head? = some 0xFEFF then .error .decode
  else match scanValue (s.length + 1) limit (skipSpace s) with
    | .error e => .error e
    | .ok (v, t) => if (skipSpace t).isEmpty then .ok v else .error .decode

def Json.get? (key : PyStr) : Json → Option Json
  | .obj fs => (fs.find? fun f => f.1 == key).map (·.2)
  | _ => none

def hexDigit (n : Nat) : Nat := if n < 10 then 0x30 + n else 0x57 + n

/-- One code point of a string, as written with `ensure_ascii=False`. -/
def escapePoint (c : Nat) : PyStr :=
  if c = 0x22 then [0x5C, 0x22]
  else if c = 0x5C then [0x5C, 0x5C]
  else if c = 0x0A then [0x5C, 0x6E]
  else if c = 0x0D then [0x5C, 0x72]
  else if c = 0x09 then [0x5C, 0x74]
  else if c = 0x0C then [0x5C, 0x66]
  else if c = 0x08 then [0x5C, 0x62]
  else if c < 0x20 then [0x5C, 0x75, 0x30, 0x30, hexDigit (c / 16), hexDigit (c % 16)]
  else [c]

def quote (s : PyStr) : PyStr := 0x22 :: (s.flatMap escapePoint ++ [0x22])

def intText (i : Int) : PyStr :=
  if i < 0 then 0x2D :: (Nat.toDigits 10 i.natAbs).map Char.toNat
  else (Nat.toDigits 10 i.natAbs).map Char.toNat

def commas : List PyStr → PyStr
  | [] => []
  | [x] => x
  | x :: xs => x ++ 0x2C :: commas xs

def sortFields (fs : List (PyStr × PyStr)) : List (PyStr × PyStr) :=
  fs.insertionSort fun a b => a.1 ≤ b.1

def fieldText (f : PyStr × PyStr) : PyStr := quote f.1 ++ 0x3A :: f.2

mutual
/-- `json.dumps(value, separators=(",", ":"), sort_keys=True, ensure_ascii=False)`. -/
def Json.text : Json → PyStr
  | .null => str "null"
  | .bool b => if b then str "true" else str "false"
  | .int i => intText i
  | .float f => str (repr f)
  | .str s => quote s
  | .arr xs => 0x5B :: (commas (itemTexts xs) ++ [0x5D])
  | .obj fs => 0x7B :: (commas ((sortFields (memberTexts fs)).map fieldText) ++ [0x7D])

def itemTexts : List Json → List PyStr
  | [] => []
  | x :: xs => x.text :: itemTexts xs

def memberTexts : List (PyStr × Json) → List (PyStr × PyStr)
  | [] => []
  | (k, v) :: fs => (k, v.text) :: memberTexts fs
end

mutual
def Json.depth : Json → Nat
  | .arr xs => itemsDepth xs + 1
  | .obj fs => membersDepth fs + 1
  | _ => 0

def itemsDepth : List Json → Nat
  | [] => 0
  | x :: xs => max x.depth (itemsDepth xs)

def membersDepth : List (PyStr × Json) → Nat
  | [] => 0
  | (_, v) :: fs => max v.depth (membersDepth fs)
end

mutual
def Json.scalars : Json → Bool
  | .str s => s.all fun cp => decide (Scalar cp)
  | .arr xs => itemsScalars xs
  | .obj fs => membersScalars fs
  | _ => true

def itemsScalars : List Json → Bool
  | [] => true
  | x :: xs => x.scalars && itemsScalars xs

def membersScalars : List (PyStr × Json) → Bool
  | [] => true
  | (k, v) :: fs => (k.all fun cp => decide (Scalar cp)) && v.scalars && membersScalars fs
end

theorem encodes_digits (n : Nat) : Encodes ((Nat.toDigits 10 n).map Char.toNat) := by
  have h := encodes_str (String.ofList (Nat.toDigits 10 n))
  rwa [str, String.toList_ofList] at h

theorem hexDigit_scalar (n : Nat) (small : n < 16) : Scalar (hexDigit n) := by
  unfold hexDigit Scalar
  split <;> omega

theorem encodes_escapePoint (c : Nat) : Encodes (escapePoint c) ↔ Scalar c := by
  -- every escape is ASCII and stands for an ASCII code point
  have ascii : c < 0x80 → Scalar c := fun small => Or.inl (by omega)
  unfold escapePoint
  repeat' split
  case isFalse.isFalse.isFalse.isFalse.isFalse.isFalse.isFalse.isTrue =>
    have high := hexDigit_scalar (c / 16) (by omega)
    have low := hexDigit_scalar (c % 16) (by omega)
    simp [Encodes, high, low, ascii (by omega)]
    decide
  case isFalse.isFalse.isFalse.isFalse.isFalse.isFalse.isFalse.isFalse => simp [Encodes]
  all_goals
    subst c
    decide

theorem encodes_quote (s : PyStr) : Encodes (quote s) ↔ Encodes s := by
  have mark : Scalar 0x22 := by decide
  have body : Encodes (s.flatMap escapePoint) ↔ Encodes s := by
    induction s with
    | nil => simp [Encodes]
    | cons c s ih =>
      rw [List.flatMap_cons, encodes_append, encodes_escapePoint, ih, encodes_cons]
  rw [quote, encodes_cons, encodes_append, body]
  simp [Encodes, mark]

theorem encodes_commas (xs : List PyStr) : Encodes (commas xs) ↔ ∀ x ∈ xs, Encodes x := by
  have mark : Scalar 0x2C := by decide
  induction xs with
  | nil => simp [commas, Encodes]
  | cons x xs ih =>
    cases xs with
    | nil => simp [commas]
    | cons y ys =>
      have step : commas (x :: y :: ys) = x ++ 0x2C :: commas (y :: ys) := rfl
      rw [step, encodes_append, encodes_cons, List.forall_mem_cons]
      exact and_congr_right fun _ => ⟨fun h => ih.mp h.2, fun h => ⟨mark, ih.mpr h⟩⟩

theorem encodes_intText (i : Int) : Encodes (intText i) := by
  unfold intText
  split
  · exact (encodes_cons _ _).mpr ⟨by decide, encodes_digits _⟩
  · exact encodes_digits _

theorem encodes_members (fs : List (PyStr × PyStr)) :
    Encodes (commas ((sortFields fs).map fieldText)) ↔
      ∀ f ∈ fs, Encodes f.1 ∧ Encodes f.2 := by
  have mark : Scalar 0x3A := by decide
  rw [encodes_commas]
  simp only [sortFields, List.mem_map, List.mem_insertionSort, forall_exists_index, and_imp,
    forall_apply_eq_imp_iff₂, fieldText, encodes_append, encodes_quote, encodes_cons, mark,
    true_and]

mutual
/-- Only a lone surrogate inside the value keeps its text from being encoded. -/
theorem encodes_text : (j : Json) → (Encodes j.text ↔ j.scalars = true)
  | .null => by simpa [Json.text, Json.scalars] using encodes_str "null"
  | .bool b => by
    cases b
    · simpa [Json.text, Json.scalars] using encodes_str "false"
    · simpa [Json.text, Json.scalars] using encodes_str "true"
  | .int i => by simpa [Json.text, Json.scalars] using encodes_intText i
  | .float f => by simpa [Json.text, Json.scalars] using encodes_str (repr f)
  | .str s => by
    rw [Json.text, encodes_quote]
    simp [Json.scalars, Encodes]
  | .arr xs => by
    rw [Json.text, encodes_cons, encodes_append, encodes_commas, encodes_items xs]
    simp only [Json.scalars, Encodes, List.mem_singleton, forall_eq]
    exact ⟨fun h => h.2.1, fun h => ⟨by decide, h, by decide⟩⟩
  | .obj fs => by
    rw [Json.text, encodes_cons, encodes_append, encodes_members, encodes_fields fs]
    simp only [Json.scalars, Encodes, List.mem_singleton, forall_eq]
    exact ⟨fun h => h.2.1, fun h => ⟨by decide, h, by decide⟩⟩

theorem encodes_items : (xs : List Json) →
    ((∀ t ∈ itemTexts xs, Encodes t) ↔ itemsScalars xs = true)
  | [] => by simp [itemTexts, itemsScalars]
  | x :: xs => by
    simp only [itemTexts, itemsScalars, List.mem_cons, forall_eq_or_imp, Bool.and_eq_true]
    rw [encodes_text x, encodes_items xs]

theorem encodes_fields : (fs : List (PyStr × Json)) →
    ((∀ f ∈ memberTexts fs, Encodes f.1 ∧ Encodes f.2) ↔ membersScalars fs = true)
  | [] => by simp [memberTexts, membersScalars]
  | (k, v) :: fs => by
    simp only [memberTexts, membersScalars, List.mem_cons, forall_eq_or_imp, Bool.and_eq_true]
    rw [encodes_text v, encodes_fields fs]
    simp [Encodes]
end

def octets (text : PyStr) : Nat := (text.flatMap encodePoint).length

@[simp] theorem octets_append (s t : PyStr) : octets (s ++ t) = octets s + octets t := by
  simp [octets]

@[simp] theorem octets_nil : octets [] = 0 := rfl

theorem octets_cons (c : Nat) (t : PyStr) : octets (c :: t) = (encodePoint c).length + octets t := by
  simp [octets]

theorem octets_commas (texts : List PyStr) :
    octets (commas texts) = (texts.map octets).sum + (texts.length - 1) := by
  have mark : (encodePoint 0x2C).length = 1 := by decide
  induction texts with
  | nil => rfl
  | cons x xs ih =>
    cases xs with
    | nil => simp [commas]
    | cons y ys =>
      have step : commas (x :: y :: ys) = x ++ 0x2C :: commas (y :: ys) := rfl
      rw [step, octets_append, octets_cons, ih, mark]
      simp only [List.map_cons, List.sum_cons, List.length_cons]
      omega

theorem octets_members (fs gs : List (PyStr × PyStr)) :
    octets (commas ((sortFields fs).map fieldText)) ≤
      octets (commas ((sortFields (fs ++ gs)).map fieldText)) := by
  have sum : ∀ hs : List (PyStr × PyStr),
      (((sortFields hs).map fieldText).map octets).sum = ((hs.map fieldText).map octets).sum := by
    intro hs
    exact (((List.perm_insertionSort _ hs).map fieldText).map octets).sum_nat
  have count : ∀ hs : List (PyStr × PyStr), (sortFields hs).length = hs.length := by
    intro hs
    exact (List.perm_insertionSort _ hs).length_eq
  rw [octets_commas, octets_commas, sum, sum, List.length_map, List.length_map, count, count]
  simp only [List.map_append, List.sum_append, List.length_append]
  omega

theorem memberTexts_append (fs gs : List (PyStr × Json)) :
    memberTexts (fs ++ gs) = memberTexts fs ++ memberTexts gs := by
  induction fs with
  | nil => rfl
  | cons f fs ih => simp [memberTexts, ih]

theorem octets_obj_append (fs gs : List (PyStr × Json)) :
    octets (Json.text (.obj fs)) ≤ octets (Json.text (.obj (fs ++ gs))) := by
  have members := octets_members (memberTexts fs) (memberTexts gs)
  rw [← memberTexts_append] at members
  simp only [Json.text, octets_cons, octets_append, octets_nil]
  omega

end JsonText
