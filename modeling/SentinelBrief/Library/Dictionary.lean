import Mathlib.Data.List.Nodup

/-!
A dictionary that keeps the order of insertion: a list of entries with distinct
keys. Overwriting a key leaves it in its place.
-/
namespace OrderedDictionary
variable {κ ν : Type}

abbrev Dictionary (κ ν : Type) := List (κ × ν)

def keys (d : Dictionary κ ν) : List κ := d.map Prod.fst

def Distinct (d : Dictionary κ ν) : Prop := (keys d).Nodup

theorem distinct_filter {d : Dictionary κ ν} (p : κ × ν → Bool) (inv : Distinct d) :
    Distinct (d.filter p) :=
  (List.filter_sublist.map Prod.fst).nodup inv

theorem distinct_value {d : Dictionary κ ν} {k : κ} {v w : ν} (inv : Distinct d)
    (first : (k, v) ∈ d) (second : (k, w) ∈ d) : v = w :=
  (Prod.mk.inj (List.inj_on_of_nodup_map inv first second rfl)).2

variable [DecidableEq κ]

def lookup (k : κ) (d : Dictionary κ ν) : Option ν := (d.find? fun e => e.1 = k).map (·.2)

def delete (k : κ) (d : Dictionary κ ν) : Dictionary κ ν := d.filter fun e => e.1 ≠ k

def put (k : κ) (v : ν) (d : Dictionary κ ν) : Dictionary κ ν :=
  if k ∈ keys d then d.map fun e => if e.1 = k then (k, v) else e else d ++ [(k, v)]

variable {k : κ} {v : ν} {d : Dictionary κ ν}

theorem put_keys (k : κ) (v : ν) (d : Dictionary κ ν) :
    keys (put k v d) = if k ∈ keys d then keys d else keys d ++ [k] := by
  unfold put
  split
  · simp only [keys, List.map_map]
    refine List.map_congr_left fun e _ => ?_
    by_cases same : e.1 = k
    · simp [same]
    · simp [same]
  · simp [keys]

theorem distinct_put (inv : Distinct d) : Distinct (put k v d) := by
  rw [Distinct, put_keys]
  split
  · exact inv
  · rename_i fresh
    exact List.nodup_append.mpr ⟨inv, by simp, fun a old b new => by
      rw [List.mem_singleton.mp new]
      rintro rfl
      exact fresh old⟩

theorem mem_put {e : κ × ν} : e ∈ put k v d ↔ e = (k, v) ∨ (e.1 ≠ k ∧ e ∈ d) := by
  unfold put
  split
  · rename_i known
    simp only [List.mem_map]
    constructor
    · rintro ⟨e', old, rfl⟩
      by_cases same : e'.1 = k
      · exact .inl (if_pos same)
      · rw [if_neg same]
        exact .inr ⟨same, old⟩
    · rintro (rfl | ⟨other, old⟩)
      · obtain ⟨e', old, rfl⟩ := List.mem_map.mp known
        exact ⟨e', old, if_pos rfl⟩
      · exact ⟨e, old, if_neg other⟩
  · rename_i fresh
    simp only [List.mem_append, List.mem_singleton]
    constructor
    · rintro (old | new)
      · exact .inr ⟨fun same => fresh (same ▸ List.mem_map_of_mem old), old⟩
      · exact .inl new
    · rintro (new | ⟨_, old⟩)
      · exact .inr new
      · exact .inl old

theorem put_length (k : κ) (v : ν) (d : Dictionary κ ν) :
    (put k v d).length = if k ∈ keys d then d.length else d.length + 1 := by
  unfold put
  split <;> simp

theorem mem_delete {e : κ × ν} : e ∈ delete k d ↔ e ∈ d ∧ e.1 ≠ k := by
  simp [delete]

theorem lookup_eq_some (inv : Distinct d) : lookup k d = some v ↔ (k, v) ∈ d := by
  constructor
  · intro found
    obtain ⟨e, first, rfl⟩ := Option.map_eq_some_iff.mp found
    have key : e.1 = k := by simpa using List.find?_some first
    rw [← key]
    exact List.mem_of_find?_eq_some first
  · intro member
    cases found : lookup k d with
    | none =>
      have none := List.find?_eq_none.mp (Option.map_eq_none_iff.mp found) _ member
      simp at none
    | some w =>
      obtain ⟨e, first, rfl⟩ := Option.map_eq_some_iff.mp found
      have key : e.1 = k := by simpa using List.find?_some first
      have inside := List.mem_of_find?_eq_some first
      rw [distinct_value inv member (show (k, e.2) ∈ d by rw [← key]; exact inside)]

theorem lookup_eq_none : lookup k d = none ↔ k ∉ keys d := by
  simp only [lookup, Option.map_eq_none_iff, List.find?_eq_none, decide_eq_true_eq, keys,
    List.mem_map, not_exists, not_and]

theorem delete_length (inv : Distinct d) (member : (k, v) ∈ d) :
    (delete k d).length + 1 = d.length := by
  induction d with
  | nil => cases member
  | cons e d ih =>
    obtain ⟨fresh, distinct⟩ := List.nodup_cons.mp inv
    by_cases same : e.1 = k
    · have rest : delete k d = d := by
        rw [delete, List.filter_eq_self]
        intro x inside
        simpa using fun again : x.1 = k => fresh (same ▸ again ▸ List.mem_map_of_mem inside)
      rw [delete, List.filter_cons_of_neg (by simp [same])]
      rw [delete] at rest
      rw [rest, List.length_cons]
    · have inside : (k, v) ∈ d := by
        rcases List.mem_cons.mp member with rfl | inside
        · exact absurd rfl same
        · exact inside
      rw [delete, List.filter_cons_of_pos (by simp [same]), List.length_cons, List.length_cons]
      exact congrArg (· + 1) (ih distinct inside)

abbrev Dict (κ ν : Type) := { d : Dictionary κ ν // Distinct d }

def putAll (d : Dict κ ν) : List (κ × ν) → Dict κ ν
  | [] => d
  | e :: es => putAll ⟨put e.1 e.2 d.1, distinct_put d.2⟩ es

def ofPairs (es : List (κ × ν)) : Dict κ ν := putAll ⟨[], List.nodup_nil⟩ es

theorem putAll_fresh (d : Dict κ ν) (es : List (κ × ν)) (distinct : Distinct (d.1 ++ es)) :
    (putAll d es).1 = d.1 ++ es := by
  induction es generalizing d with
  | nil => simp [putAll]
  | cons e es ih =>
    have fresh : e.1 ∉ keys d.1 := by
      rw [Distinct, keys, List.map_append, List.map_cons] at distinct
      intro old
      exact (List.nodup_append.mp distinct).2.2 e.1 old e.1 (by simp) rfl
    have added : put e.1 e.2 d.1 = d.1 ++ [e] := by
      rw [put, if_neg fresh]
    rw [putAll, ih _ (by simpa [added] using distinct)]
    simp [added]

theorem ofPairs_distinct (d : Dict κ ν) : ofPairs d.1 = d :=
  Subtype.ext (putAll_fresh ⟨[], List.nodup_nil⟩ d.1 d.2)

end OrderedDictionary
