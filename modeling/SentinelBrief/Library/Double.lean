import Mathlib.Algebra.Group.Int.Defs
import Mathlib.Algebra.Group.Nat.Defs
import Mathlib.Data.List.Infix

/-!
IEEE 754 binary64 values as exact dyadic numbers, enough for what a JSON
reader and writer do with them: rounding a decimal literal to the nearest
value (ties to even), truncation to an integer, and the shortest decimal text
that rounds back. A finite value is `mant * 2 ^ exp` with `mant < 2 ^ 53` and
`-1074 ≤ exp`; `exp` is as small as these bounds allow, so that two finite
values are equal numbers iff their fields are, signed zeros apart.
-/
namespace DoubleText

inductive Double where
  | nan : Double
  | inf : Bool → Double
  | fin : Bool → Nat → Int → Double
  deriving DecidableEq

/-- The nearest integer to `num / den`, ties to even. -/
def divRound (num den : Nat) : Nat :=
  let q := num / den
  let r := num % den
  if 2 * r < den then q else if den < 2 * r then q + 1 else q + q % 2

def scaled (num den : Nat) (e : Int) : Nat :=
  if 0 ≤ e then divRound num (den * 2 ^ e.toNat) else divRound (num * 2 ^ (-e).toNat) den

/-- The double nearest to `num / den`, for `0 < den`. -/
def ofRatio (neg : Bool) (num den : Nat) : Double :=
  if num = 0 then .fin neg 0 (-1074)
  else
    let guess : Int := max ((Nat.log2 num : Int) - Nat.log2 den - 53) (-1074)
    let e := if scaled num den guess < 2 ^ 53 then guess else guess + 1
    let m := scaled num den e
    let value : Nat × Int := if m = 2 ^ 53 then (2 ^ 52, e + 1) else (m, e)
    if 971 < value.2 then .inf neg else .fin neg value.1 value.2

def ofDecimal (neg : Bool) (digits : Nat) (e : Int) : Double :=
  if 0 ≤ e then ofRatio neg (digits * 10 ^ e.toNat) 1
  else ofRatio neg digits (10 ^ (-e).toNat)

/-- `int(value)`: towards zero; `none` on an infinity or a NaN. -/
def truncate : Double → Option Int
  | .fin neg m e =>
    let n : Nat := if 0 ≤ e then m * 2 ^ e.toNat else m / 2 ^ (-e).toNat
    some (if neg then -(n : Int) else n)
  | _ => none

def integral : Double → Option Int
  | .fin neg m e =>
    if 0 ≤ e ∨ m % 2 ^ (-e).toNat = 0 then truncate (.fin neg m e) else none
  | _ => none

/-- `floor (m * 2 ^ e / 10 ^ k)` for a decimal exponent `k`. -/
def decimalFloor (m : Nat) (e k : Int) : Nat :=
  let up := m * (if 0 ≤ e then 2 ^ e.toNat else 1) * (if 0 ≤ k then 1 else 10 ^ (-k).toNat)
  let down := (if 0 ≤ e then 1 else 2 ^ (-e).toNat) * (if 0 ≤ k then 10 ^ k.toNat else 1)
  up / down

/-- Distance of `d * 10 ^ k` from `m * 2 ^ e`, scaled to a common denominator. -/
def decimalGap (m : Nat) (e : Int) (d : Nat) (k : Int) : Nat :=
  let left := m * (if 0 ≤ e then 2 ^ e.toNat else 1) * (if 0 ≤ k then 1 else 10 ^ (-k).toNat)
  let right := d * (if 0 ≤ e then 1 else 2 ^ (-e).toNat) * (if 0 ≤ k then 10 ^ k.toNat else 1)
  (left - right) + (right - left)

/-- The decimals of `n` digits next to the value that round back to it, nearest first. -/
def shortest (m : Nat) (e : Int) (width : Int) (n : Nat) : Option (Nat × Int) :=
  let k := width - n
  let low := decimalFloor m e k
  let back := fun d => ofDecimal false d k = .fin false m e
  if back low ∧ (¬ back (low + 1) ∨ decimalGap m e low k ≤ decimalGap m e (low + 1) k) then
    some (low, k)
  else if back (low + 1) then some (low + 1, k) else none

/-- Number of decimal digits before the point of `m * 2 ^ e`; at most 0 below one. -/
def decimalWidth (m : Nat) (e : Int) : Int :=
  let whole := decimalFloor m e 0
  if 0 < whole then ((Nat.toDigits 10 whole).length : Int)
  else
    -- 17 digits and 343 places cover every subnormal value
    let places := (List.range 343).find? fun p : Nat => 0 < decimalFloor m e (-(p : Int))
    1 - ((places.getD 343 : Nat) : Int)

def pad (n : Nat) : List Char := List.replicate n '0'

/-- Digits and decimal exponent laid out as `repr` does: plain text while the
    point falls within 16 places after and 4 before the digits. -/
def layout (digits : List Char) (point : Int) : String :=
  let n : Int := digits.length
  if 16 < point ∨ point ≤ -4 then
    let tail := digits.drop 1
    let e := point - 1
    let body := digits.take 1 ++ (if tail = [] then [] else '.' :: tail)
    let size := Nat.toDigits 10 e.natAbs
    String.ofList (body ++ ['e', if e < 0 then '-' else '+'] ++ pad (2 - size.length) ++ size)
  else if point ≤ 0 then
    String.ofList (['0', '.'] ++ pad (-point).toNat ++ digits)
  else if n ≤ point then
    String.ofList (digits ++ pad (point - n).toNat ++ ['.', '0'])
  else
    String.ofList (digits.take point.toNat ++ '.' :: digits.drop point.toNat)

/-- Trailing zeros of a decimal belong to its exponent. -/
def strip : Nat → Nat → Int → Nat × Int
  | 0, d, k => (d, k)
  | fuel + 1, d, k => if d ≠ 0 ∧ d % 10 = 0 then strip fuel (d / 10) (k + 1) else (d, k)

def reprMagnitude (m : Nat) (e : Int) : String :=
  if m = 0 then "0.0"
  else
    let width := decimalWidth m e
    let found := (List.range 17).findSome? fun n => shortest m e width (n + 1)
    let value := found.getD (decimalFloor m e (width - 17), width - 17)
    let value := strip 17 value.1 value.2
    let digits := Nat.toDigits 10 value.1
    layout digits (digits.length + value.2)

def repr : Double → String
  | .nan => "NaN"
  | .inf neg => if neg then "-Infinity" else "Infinity"
  | .fin neg m e => (if neg then "-" else "") ++ reprMagnitude m e

end DoubleText
