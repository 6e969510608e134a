import Mathlib.Data.List.Sort
import Mathlib.Order.Bounds.Basic

/-!
The entries of a sorted list by rank: entry `k` is the least value that at least
`k + 1` entries do not exceed.
-/
namespace OrderStatistics

variable {α : Type*} [LinearOrder α] {l : List α} {k : Nat}

def sorted (l : List α) : List α := l.insertionSort (· ≤ ·)

theorem sorted_perm (l : List α) : (sorted l).Perm l := List.perm_insertionSort ..

theorem sorted_pairwise (l : List α) : (sorted l).Pairwise (· ≤ ·) :=
  List.pairwise_insertionSort ..

@[simp] theorem sorted_length (l : List α) : (sorted l).length = l.length :=
  (sorted_perm l).length_eq

theorem sorted_congr {l m : List α} (perm : l.Perm m) : sorted l = sorted m := by
  apply List.Perm.eq_of_pairwise (fun _ _ _ _ => le_antisymm) (sorted_pairwise l)
    (sorted_pairwise m)
  exact (sorted_perm l).trans (perm.trans (sorted_perm m).symm)

theorem getElem_mono (ordered : l.Pairwise (· ≤ ·)) {i j : Nat} (le : i ≤ j)
    (bound : j < l.length) : l[i] ≤ l[j] := by
  rcases Nat.eq_or_lt_of_le le with rfl | lt
  · exact le_refl _
  · exact List.pairwise_iff_getElem.mp ordered i j _ bound lt

theorem count_below (ordered : l.Pairwise (· ≤ ·)) (bound : k < l.length) {v : α}
    (below : v < l[k]) : l.countP (fun x => decide (x ≤ v)) ≤ k := by
  have beyond : (l.drop k).countP (fun x => decide (x ≤ v)) = 0 := by
    rw [List.countP_eq_zero]
    intro x member
    obtain ⟨i, inside, rfl⟩ := List.mem_iff_getElem.mp member
    rw [List.length_drop] at inside
    have le := getElem_mono ordered (Nat.le_add_right k i) (by omega)
    rw [List.getElem_drop]
    simpa using lt_of_lt_of_le below le
  calc l.countP (fun x => decide (x ≤ v))
      = (l.take k ++ l.drop k).countP (fun x => decide (x ≤ v)) := by rw [List.take_append_drop]
    _ = (l.take k).countP (fun x => decide (x ≤ v)) := by
      rw [List.countP_append, beyond, Nat.add_zero]
    _ ≤ (l.take k).length := List.countP_le_length
    _ ≤ k := List.length_take_le k l

theorem count_upto (ordered : l.Pairwise (· ≤ ·)) (bound : k < l.length) :
    k + 1 ≤ l.countP (fun x => decide (x ≤ l[k])) := by
  have low : ∀ x ∈ l.take (k + 1), decide (x ≤ l[k]) = true := by
    intro x member
    obtain ⟨i, inside, rfl⟩ := List.mem_iff_getElem.mp member
    rw [List.length_take] at inside
    rw [List.getElem_take]
    simpa using getElem_mono ordered (by omega) bound
  calc k + 1 = (l.take (k + 1)).length := by rw [List.length_take]; omega
    _ = (l.take (k + 1)).countP (fun x => decide (x ≤ l[k])) :=
      (List.countP_eq_length.mpr low).symm
    _ ≤ l.countP (fun x => decide (x ≤ l[k])) := (List.take_sublist _ _).countP_le

theorem sorted_isLeast (l : List α) (bound : k < (sorted l).length) :
    IsLeast {v | v ∈ l ∧ k + 1 ≤ l.countP (fun x => decide (x ≤ v))} (sorted l)[k] := by
  have counted (v : α) : l.countP (fun x => decide (x ≤ v)) =
      (sorted l).countP (fun x => decide (x ≤ v)) := ((sorted_perm l).countP_eq _).symm
  refine ⟨⟨(sorted_perm l).subset (List.getElem_mem bound), ?_⟩, ?_⟩
  · rw [counted]
    exact count_upto (sorted_pairwise l) bound
  · rintro v ⟨_, enough⟩
    by_contra above
    have few := count_below (sorted_pairwise l) bound (not_le.mp above)
    rw [counted] at enough
    omega

end OrderStatistics
