import SentinelBrief.Library.Dictionary
import SentinelBrief.Library.JsonValues

/-!
The shape of what `json.loads` gives: no object has a key twice, and nothing is nested
deeper than the limit.
-/
namespace JsonText
open Utf8Text DoubleText OrderedDictionary

mutual
/-- No key twice, at most `n` arrays and objects around a value. -/
def Json.Keyed : Json → Nat → Prop
  | .arr _, 0 => False
  | .arr xs, n + 1 => itemsKeyed n xs
  | .obj _, 0 => False
  | .obj fs, n + 1 => Distinct fs ∧ membersKeyed n fs
  | _, _ => True

def itemsKeyed (n : Nat) : List Json → Prop
  | [] => True
  | x :: xs => x.Keyed n ∧ itemsKeyed n xs

def membersKeyed (n : Nat) : List (PyStr × Json) → Prop
  | [] => True
  | (_, v) :: fs => v.Keyed n ∧ membersKeyed n fs
end

theorem itemsKeyed_iff {n : Nat} (xs : List Json) : itemsKeyed n xs ↔ ∀ x ∈ xs, x.Keyed n := by
  induction xs with
  | nil => simp [itemsKeyed]
  | cons x xs ih => rw [itemsKeyed, ih, List.forall_mem_cons]

theorem membersKeyed_iff {n : Nat} (fs : List (PyStr × Json)) :
    membersKeyed n fs ↔ ∀ f ∈ fs, f.2.Keyed n := by
  induction fs with
  | nil => simp [membersKeyed]
  | cons f fs ih => rw [membersKeyed, ih, List.forall_mem_cons]

theorem keyed_obj {n : Nat} {fs : List (PyStr × Json)} (keyed : (Json.obj fs).Keyed n) :
    ∃ m, n = m + 1 ∧ Distinct fs ∧ ∀ f ∈ fs, f.2.Keyed m := by
  cases n with
  | zero => cases keyed
  | succ m => exact ⟨m, rfl, keyed.1, (membersKeyed_iff fs).mp keyed.2⟩

theorem keyed_arr {n : Nat} {xs : List Json} (keyed : (Json.arr xs).Keyed n) :
    ∃ m, n = m + 1 ∧ ∀ x ∈ xs, x.Keyed m := by
  cases n with
  | zero => cases keyed
  | succ m => exact ⟨m, rfl, (itemsKeyed_iff xs).mp keyed⟩

theorem mem_setField {key k : PyStr} {v : Json} {fs : List (PyStr × Json)}
    (member : k ∈ keys (setField key v fs)) : k = key ∨ k ∈ keys fs := by
  induction fs with
  | nil => exact .inl (List.mem_singleton.mp member)
  | cons f fs ih =>
    rw [setField] at member
    split at member
    · rename_i same
      subst same
      exact .inr member
    · rcases List.mem_cons.mp member with rfl | later
      · exact .inr List.mem_cons_self
      · exact (ih later).imp id (List.mem_cons_of_mem _)

theorem distinct_nil : Distinct ([] : List (PyStr × Json)) := List.nodup_nil

theorem setField_distinct {key : PyStr} {v : Json} {fs : List (PyStr × Json)} (distinct : Distinct fs) :
    Distinct (setField key v fs) := by
  induction fs with
  | nil => exact List.nodup_singleton key
  | cons f fs ih =>
    obtain ⟨fresh, rest⟩ := List.nodup_cons.mp distinct
    rw [setField]
    split
    · rename_i same
      exact List.nodup_cons.mpr ⟨same ▸ fresh, rest⟩
    · rename_i other
      refine List.nodup_cons.mpr ⟨fun member => ?_, ih rest⟩
      rcases mem_setField member with same | old
      · exact other same
      · exact fresh old

theorem setField_keyed {n : Nat} {key : PyStr} {v : Json} {fs : List (PyStr × Json)} (value : v.Keyed n)
    (keyed : membersKeyed n fs) : membersKeyed n (setField key v fs) := by
  induction fs with
  | nil => exact ⟨value, trivial⟩
  | cons f fs ih =>
    rw [membersKeyed] at keyed
    rw [setField]
    split
    · exact ⟨value, keyed.2⟩
    · exact ⟨keyed.1, ih keyed.2⟩

theorem scanWord_keyed {n : Nat} {s : PyStr} {r : Json × PyStr} (read : scanWord s = some r) : r.1.Keyed n := by
  obtain ⟨w, member, found⟩ := List.exists_of_findSome?_eq_some read
  split at found
  · cases found
    have keyed : ∀ w ∈ words, w.2.Keyed n := by simp [words, Json.Keyed]
    exact keyed w member
  · cases found

theorem scanNumber_keyed {n : Nat} {neg : Bool} {s : PyStr} {r : Json × PyStr}
    (read : scanNumber neg s = .ok r) : r.1.Keyed n := by
  unfold scanNumber at read
  dsimp only at read
  repeat' split at read
  all_goals cases read
  all_goals simp [Json.Keyed]

structure ScansKeyed (fuel : Nat) : Prop where
  value {depth : Nat} {s : PyStr} {r : Json × PyStr} : scanValue fuel depth s = .ok r → r.1.Keyed depth
  items {depth : Nat} {s : PyStr} {r : List Json × PyStr} :
    scanItems fuel depth s = .ok r → itemsKeyed depth r.1
  fields {depth : Nat} {acc : List (PyStr × Json)} {s : PyStr} {r : List (PyStr × Json) × PyStr} :
    Distinct acc → membersKeyed depth acc → scanFields fuel depth acc s = .ok r →
      Distinct r.1 ∧ membersKeyed depth r.1

section
variable {fuel depth : Nat} {s : PyStr} (scans : ScansKeyed fuel)
include scans

theorem scansKeyed_value {r : Json × PyStr} (read : scanValue (fuel + 1) depth s = .ok r) :
    r.1.Keyed depth := by
  unfold scanValue at read
  split at read
  · split at read
    · cases read
      simp [Json.Keyed]
    · cases read
  · split at read
    · cases read
    · split at read
      · cases read
        exact ⟨distinct_nil, trivial⟩
      · obtain ⟨q, fields, rfl⟩ := map_ok read
        exact scans.fields distinct_nil trivial fields
  · split at read
    · cases read
    · split at read
      · cases read
        exact trivial
      · obtain ⟨q, items, rfl⟩ := map_ok read
        exact scans.items items
  · split at read
    · rename_i word
      cases read
      exact scanWord_keyed word
    · split at read
      · exact scanNumber_keyed read
      · exact scanNumber_keyed read

theorem scansKeyed_items {r : List Json × PyStr} (read : scanItems (fuel + 1) depth s = .ok r) :
    itemsKeyed depth r.1 := by
  rw [scanItems] at read
  split at read
  · cases read
  · rename_i first
    split at read
    · cases read
      exact ⟨scans.value first, trivial⟩
    · obtain ⟨q, more, rfl⟩ := map_ok read
      exact ⟨scans.value first, scans.items more⟩
    · cases read

theorem scansKeyed_fields {acc : List (PyStr × Json)} {r : List (PyStr × Json) × PyStr}
    (distinct : Distinct acc) (keyed : membersKeyed depth acc)
    (read : scanFields (fuel + 1) depth acc s = .ok r) : Distinct r.1 ∧ membersKeyed depth r.1 := by
  unfold scanFields at read
  split at read
  · split at read
    · cases read
    · rename_i key t name
      split at read
      · split at read
        · cases read
        · rename_i v u first
          have later : Distinct (setField key v acc) := setField_distinct distinct
          have value : membersKeyed depth (setField key v acc) := setField_keyed (scans.value first) keyed
          split at read
          · cases read
            exact ⟨later, value⟩
          · exact scans.fields later value read
          · cases read
      · cases read
  · cases read

end

theorem scansKeyed_all (fuel : Nat) : ScansKeyed fuel := by
  induction fuel with
  | zero =>
    constructor
    · intro depth s r read
      cases read
    · intro depth s r read
      cases read
    · intro depth acc s r _ _ read
      cases read
  | succ fuel ih => exact ⟨scansKeyed_value ih, scansKeyed_items ih, scansKeyed_fields ih⟩

theorem loads_keyed {limit : Nat} {s : PyStr} {j : Json} (read : loads limit s = .ok j) : j.Keyed limit := by
  unfold loads at read
  split at read
  · cases read
  split at read
  · cases read
  · rename_i v t value
    split at read
    · cases read
      exact (scansKeyed_all _).value value
    · cases read

/-- Written as text at all, the value is read back within `n` arrays and objects. -/
def Json.Rereads (w : Layout) (n : Nat) (j : Json) : Prop :=
  j.scalars = true → j.Readable w ∧ j.depth ≤ n

section
variable {w : Layout} {n : Nat}

theorem rereads_null : Json.null.Rereads w n := fun _ => ⟨trivial, Nat.zero_le n⟩

theorem rereads_bool (b : Bool) : (Json.bool b).Rereads w n := fun _ => ⟨trivial, Nat.zero_le n⟩

theorem rereads_int {i : Int} (printable : Printable i) : (Json.int i).Rereads w n :=
  fun _ => ⟨printable, Nat.zero_le n⟩

theorem rereads_float {f : Double} (reads : w.FloatReads f) : (Json.float f).Rereads w n :=
  fun _ => ⟨reads, Nat.zero_le n⟩

theorem rereads_str (s : PyStr) : (Json.str s).Rereads w n := by
  intro scalars
  refine ⟨apart_of_encodes ?_, Nat.zero_le n⟩
  simpa [Json.scalars, Encodes] using scalars

theorem itemsScalars_iff (xs : List Json) : itemsScalars xs = true ↔ ∀ x ∈ xs, x.scalars = true := by
  induction xs with
  | nil => simp [itemsScalars]
  | cons x xs ih => rw [itemsScalars, Bool.and_eq_true, ih, List.forall_mem_cons]

theorem membersScalars_iff (fs : List (PyStr × Json)) :
    membersScalars fs = true ↔ ∀ f ∈ fs, Encodes f.1 ∧ f.2.scalars = true := by
  induction fs with
  | nil => simp [membersScalars]
  | cons f fs ih =>
    rw [membersScalars, Bool.and_eq_true, Bool.and_eq_true, ih, List.forall_mem_cons]
    simp [Encodes]

theorem rereads_arr {xs : List Json} (items : ∀ x ∈ xs, x.Rereads w n) : (Json.arr xs).Rereads w (n + 1) := by
  intro scalars
  rw [Json.scalars, itemsScalars_iff] at scalars
  constructor
  · rw [Json.Readable, itemsReadable_iff]
    exact fun x member => (items x member (scalars x member)).1
  · exact Nat.succ_le_succ (itemsDepth_le fun x member => (items x member (scalars x member)).2)

theorem rereads_obj {fs : List (PyStr × Json)} (distinct : Distinct fs)
    (members : ∀ f ∈ fs, f.2.Rereads w n) : (Json.obj fs).Rereads w (n + 1) := by
  intro scalars
  rw [Json.scalars, membersScalars_iff] at scalars
  constructor
  · rw [Json.Readable, membersReadable_iff]
    exact ⟨distinct, fun f member =>
      ⟨apart_of_encodes (scalars f member).1, (members f member (scalars f member).2).1⟩⟩
  · exact Nat.succ_le_succ (membersDepth_le fun f member => (members f member (scalars f member).2).2)

end

end JsonText
