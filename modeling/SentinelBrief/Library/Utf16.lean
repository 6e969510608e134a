import SentinelBrief.Library.Utf8

/-!
Strings of UTF-16 code units, in which a surrogate may stand alone, and the scalar values
that they stand for.
-/
namespace Utf16Text
open Utf8Text

abbrev JsStr := List UInt16

def HighUnit (u : UInt16) : Prop := 0xD800 ≤ u.toNat ∧ u.toNat ≤ 0xDBFF

def LowUnit (u : UInt16) : Prop := 0xDC00 ≤ u.toNat ∧ u.toNat ≤ 0xDFFF

def SurrogateUnit (u : UInt16) : Prop := 0xD800 ≤ u.toNat ∧ u.toNat ≤ 0xDFFF

instance (u : UInt16) : Decidable (HighUnit u) := inferInstanceAs (Decidable (_ ∧ _))

instance (u : UInt16) : Decidable (LowUnit u) := inferInstanceAs (Decidable (_ ∧ _))

instance (u : UInt16) : Decidable (SurrogateUnit u) := inferInstanceAs (Decidable (_ ∧ _))

def pairPoint (u v : UInt16) : Nat := 0x10000 + (u.toNat - 0xD800) * 1024 + (v.toNat - 0xDC00)

/-- A lone surrogate becomes U+FFFD. -/
def unitPoint (u : UInt16) : Nat := if SurrogateUnit u then 0xFFFD else u.toNat

def scalars : JsStr → PyStr
  | u :: v :: us =>
    if HighUnit u ∧ LowUnit v then pairPoint u v :: scalars us else unitPoint u :: scalars (v :: us)
  | [u] => [unitPoint u]
  | [] => []

def pointUnits (c : Nat) : JsStr :=
  if c < 0x10000 then [UInt16.ofNat c]
  else [UInt16.ofNat (0xD800 + (c - 0x10000) / 1024), UInt16.ofNat (0xDC00 + (c - 0x10000) % 1024)]

def units (s : PyStr) : JsStr := s.flatMap pointUnits

def isWellFormed : JsStr → Bool
  | u :: v :: us =>
    if HighUnit u ∧ LowUnit v then isWellFormed us else ¬SurrogateUnit u && isWellFormed (v :: us)
  | [u] => ¬SurrogateUnit u
  | [] => true

def toWellFormed (s : JsStr) : JsStr := units (scalars s)

def js (s : String) : JsStr := units (str s)

theorem scalar_unitPoint (u : UInt16) : Scalar (unitPoint u) := by
  unfold unitPoint
  split
  · decide
  · rename_i plain
    have bound := u.toNat_lt
    unfold SurrogateUnit at plain
    unfold Scalar
    omega

theorem scalar_pairPoint {u v : UInt16} (high : HighUnit u) (low : LowUnit v) :
    Scalar (pairPoint u v) := by
  unfold HighUnit at high
  unfold LowUnit at low
  unfold Scalar pairPoint
  omega

theorem encodes_scalars (s : JsStr) : Encodes (scalars s) := by
  induction s using scalars.induct with
  | case1 u v us pair ih =>
    rw [scalars, if_pos pair, encodes_cons]
    exact ⟨scalar_pairPoint pair.1 pair.2, ih⟩
  | case2 u v us other ih =>
    rw [scalars, if_neg other, encodes_cons]
    exact ⟨scalar_unitPoint u, ih⟩
  | case3 u =>
    rw [scalars, encodes_cons]
    exact ⟨scalar_unitPoint u, by simp [Encodes]⟩
  | case4 => simp [scalars, Encodes]

theorem scalars_plain {u : UInt16} (plain : ¬SurrogateUnit u) (us : JsStr) :
    scalars (u :: us) = u.toNat :: scalars us := by
  have point : unitPoint u = u.toNat := if_neg plain
  have single : ¬HighUnit u := by
    unfold SurrogateUnit at plain
    unfold HighUnit
    omega
  cases us with
  | nil => rw [scalars, point, scalars]
  | cons v us => rw [scalars, if_neg (fun pair => single pair.1), point]

theorem scalars_map {s : JsStr} (plain : ∀ u ∈ s, ¬SurrogateUnit u) : scalars s = s.map UInt16.toNat := by
  induction s with
  | nil => rfl
  | cons u us ih =>
    rw [scalars_plain (plain u (by simp)), ih fun v member => plain v (by simp [member])]
    rfl

theorem toNat_ofNat16 {n : Nat} (small : n < 65536) : (UInt16.ofNat n).toNat = n := by
  rw [UInt16.toNat_ofNat']
  exact Nat.mod_eq_of_lt small

theorem scalars_pointUnits {c : Nat} (scalar : Scalar c) (us : JsStr) :
    scalars (pointUnits c ++ us) = c :: scalars us := by
  unfold Scalar at scalar
  unfold pointUnits
  split
  · rename_i basic
    have value := toNat_ofNat16 basic
    have plain : ¬SurrogateUnit (UInt16.ofNat c) := by
      unfold SurrogateUnit
      omega
    rw [List.singleton_append, scalars_plain plain, value]
  · have high := @toNat_ofNat16 (0xD800 + (c - 0x10000) / 1024) (by omega)
    have low := @toNat_ofNat16 (0xDC00 + (c - 0x10000) % 1024) (by omega)
    have pair : HighUnit (UInt16.ofNat (0xD800 + (c - 0x10000) / 1024)) ∧
        LowUnit (UInt16.ofNat (0xDC00 + (c - 0x10000) % 1024)) := by
      unfold HighUnit LowUnit
      omega
    have point : pairPoint (UInt16.ofNat (0xD800 + (c - 0x10000) / 1024))
        (UInt16.ofNat (0xDC00 + (c - 0x10000) % 1024)) = c := by
      unfold pairPoint
      omega
    rw [List.cons_append, List.singleton_append, scalars, if_pos pair, point]

theorem scalars_units {s : PyStr} (encodes : Encodes s) : scalars (units s) = s := by
  induction s with
  | nil => rfl
  | cons c s ih =>
    rw [encodes_cons] at encodes
    rw [units, List.flatMap_cons, scalars_pointUnits encodes.1]
    exact congrArg (c :: ·) (ih encodes.2)

theorem toWellFormed_idem (s : JsStr) : toWellFormed (toWellFormed s) = toWellFormed s := by
  unfold toWellFormed
  rw [scalars_units (encodes_scalars s)]

theorem pointUnits_unitPoint {u : UInt16} (plain : ¬SurrogateUnit u) : pointUnits (unitPoint u) = [u] := by
  have bound := u.toNat_lt
  rw [unitPoint, if_neg plain, pointUnits, if_pos bound, UInt16.ofNat_toNat]

theorem pointUnits_pairPoint {u v : UInt16} (high : HighUnit u) (low : LowUnit v) :
    pointUnits (pairPoint u v) = [u, v] := by
  unfold HighUnit at high
  unfold LowUnit at low
  have first : 0xD800 + (pairPoint u v - 0x10000) / 1024 = u.toNat := by
    unfold pairPoint
    omega
  have second : 0xDC00 + (pairPoint u v - 0x10000) % 1024 = v.toNat := by
    unfold pairPoint
    omega
  have large : ¬pairPoint u v < 0x10000 := by
    unfold pairPoint
    omega
  rw [pointUnits, if_neg large, first, second, UInt16.ofNat_toNat, UInt16.ofNat_toNat]

theorem toWellFormed_eq {s : JsStr} (formed : isWellFormed s = true) : toWellFormed s = s := by
  unfold toWellFormed units
  induction s using isWellFormed.induct with
  | case1 u v us pair ih =>
    rw [isWellFormed, if_pos pair] at formed
    rw [scalars, if_pos pair, List.flatMap_cons, ih formed, pointUnits_pairPoint pair.1 pair.2]
    rfl
  | case2 u v us other ih =>
    rw [isWellFormed, if_neg other, Bool.and_eq_true, decide_eq_true_eq] at formed
    rw [scalars, if_neg other, List.flatMap_cons, ih formed.2, pointUnits_unitPoint formed.1]
    rfl
  | case3 u =>
    rw [isWellFormed, decide_eq_true_eq] at formed
    rw [scalars, List.flatMap_cons, pointUnits_unitPoint formed]
    rfl
  | case4 => rfl

theorem isWellFormed_plain {s : JsStr} (plain : ∀ u ∈ s, ¬SurrogateUnit u) : isWellFormed s = true := by
  induction s using isWellFormed.induct with
  | case1 u v us pair ih =>
    rw [isWellFormed, if_pos pair]
    exact ih fun w member => plain w (by simp [member])
  | case2 u v us other ih =>
    rw [isWellFormed, if_neg other, ih fun w member => plain w (by simp_all)]
    simp [plain u (by simp)]
  | case3 u => simp [isWellFormed, plain u (by simp)]
  | case4 => rfl

theorem toWellFormed_some {s : JsStr} (some : s ≠ []) : toWellFormed s ≠ [] := by
  have points (c : Nat) : pointUnits c ≠ [] := by
    unfold pointUnits
    split <;> simp
  intro empty
  unfold toWellFormed units at empty
  have none : scalars s = [] := by
    cases found : scalars s with
    | nil => rfl
    | cons c cs =>
      rw [found, List.flatMap_cons] at empty
      exact absurd (List.append_eq_nil_iff.mp empty).1 (points c)
  cases s with
  | nil => exact some rfl
  | cons u us =>
    cases us with
    | nil => cases none
    | cons v us =>
      rw [scalars] at none
      split at none <;> cases none

end Utf16Text
