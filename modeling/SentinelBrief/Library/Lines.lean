import Mathlib.Data.List.Infix

/-!
Separator-terminated records of a list. `complete` are the records whose
separator has been seen, `rest` is what follows the last separator. Both are
computed in one pass, so that reading a list in pieces can be compared with
reading it at once: `complete_append` and `rest_append` carry all of it.
`placed` adds the position of each record.
-/
namespace SeparatedLines
variable {α : Type}

/-- The records written back, each with its separator. -/
def unlines (c : α) (ls : List (List α)) : List α := ls.flatMap (· ++ [c])

@[simp] theorem unlines_nil (c : α) : unlines c [] = [] := rfl

@[simp] theorem unlines_cons (c : α) (l : List α) (ls : List (List α)) :
    unlines c (l :: ls) = l ++ c :: unlines c ls := by
  simp [unlines]

@[simp] theorem unlines_append (c : α) (ls ms : List (List α)) :
    unlines c (ls ++ ms) = unlines c ls ++ unlines c ms := by
  simp [unlines]

def joinWith (c : α) : List (List α) → List α
  | [] => []
  | [l] => l
  | l :: m :: ls => l ++ c :: joinWith c (m :: ls)

theorem sep_mem_joinWith {c : α} {ls : List (List α)} (two : 2 ≤ ls.length) : c ∈ joinWith c ls := by
  match ls with
  | [] => cases two
  | [_] => exact absurd two (Nat.not_succ_le_self 1)
  | l :: m :: ls => exact List.mem_append_right _ List.mem_cons_self

theorem mem_joinWith {c x : α} {ls : List (List α)} (member : x ∈ joinWith c ls) :
    x = c ∨ ∃ l ∈ ls, x ∈ l := by
  induction ls with
  | nil => cases member
  | cons l ls ih =>
    cases ls with
    | nil => exact Or.inr ⟨l, List.mem_cons_self, member⟩
    | cons m ls =>
      rw [joinWith, List.mem_append, List.mem_cons] at member
      rcases member with inside | same | later
      · exact Or.inr ⟨l, List.mem_cons_self, inside⟩
      · exact Or.inl same
      · rcases ih later with same | ⟨k, listed, inside⟩
        · exact Or.inl same
        · exact Or.inr ⟨k, List.mem_cons_of_mem _ listed, inside⟩

def placed (start : Nat) : List (List α) → List (Nat × List α)
  | [] => []
  | l :: ls => (start, l) :: placed (start + l.length + 1) ls

@[simp] theorem placed_nil (start : Nat) : placed start ([] : List (List α)) = [] := rfl

theorem placed_append (c : α) (start : Nat) (ls ms : List (List α)) :
    placed start (ls ++ ms) = placed start ls ++ placed (start + (unlines c ls).length) ms := by
  induction ls generalizing start with
  | nil => simp
  | cons l ls ih =>
    simp only [List.cons_append, placed, ih, unlines_cons, List.length_append, List.length_cons]
    congr 3
    omega

@[simp] theorem placed_lines (start : Nat) (ls : List (List α)) :
    (placed start ls).map Prod.snd = ls := by
  induction ls generalizing start with
  | nil => rfl
  | cons l ls ih => simp [placed, ih]

theorem placed_mono {ls ms : List (List α)} (start : Nat) (le : ls <+: ms) :
    placed start ls <+: placed start ms := by
  induction ls generalizing start ms with
  | nil => exact List.nil_prefix
  | cons l ls ih =>
    obtain ⟨more, rfl⟩ := le
    simp only [List.cons_append, placed]
    exact (List.prefix_cons_inj _).mpr (ih _ (List.prefix_append _ _))

theorem placed_start_le {start : Nat} {ls : List (List α)} {x : Nat × List α}
    (member : x ∈ placed start ls) : start ≤ x.1 := by
  induction ls generalizing start with
  | nil => simp at member
  | cons l ls ih =>
    rcases List.mem_cons.mp member with rfl | later
    · exact Nat.le_refl _
    · have := ih later
      omega

variable [DecidableEq α]

def cut (c : α) : List α → List (List α) × List α
  | [] => ([], [])
  | x :: xs =>
    if x = c then ([] :: (cut c xs).1, (cut c xs).2)
    else match (cut c xs).1 with
      | [] => ([], x :: (cut c xs).2)
      | l :: ls => ((x :: l) :: ls, (cut c xs).2)

def complete (c : α) (xs : List α) : List (List α) := (cut c xs).1

def rest (c : α) (xs : List α) : List α := (cut c xs).2

variable {c : α}

@[simp] theorem complete_nil : complete c [] = [] := rfl

@[simp] theorem rest_nil : rest c [] = [] := rfl

@[simp] theorem complete_sep_cons (xs : List α) :
    complete c (c :: xs) = [] :: complete c xs := by
  simp [complete, cut]

@[simp] theorem rest_sep_cons (xs : List α) : rest c (c :: xs) = rest c xs := by
  simp [rest, cut]

theorem unlines_rest (xs : List α) : unlines c (complete c xs) ++ rest c xs = xs := by
  induction xs with
  | nil => rfl
  | cons x xs ih =>
    by_cases same : x = c
    · subst same
      simp [ih]
    · simp only [complete, rest, cut, same, if_false] at ih ⊢
      cases found : (cut c xs).1 with
      | nil => simpa [found] using ih
      | cons l ls => simpa [found] using ih

theorem sep_not_mem_rest (xs : List α) : c ∉ rest c xs := by
  induction xs with
  | nil => simp
  | cons x xs ih =>
    by_cases same : x = c
    · subst same
      simpa using ih
    · simp only [rest, cut, same, if_false] at ih ⊢
      cases found : (cut c xs).1 with
      | nil => simp [Ne.symm same, ih]
      | cons l ls => exact ih

theorem sep_not_mem_complete (xs : List α) : ∀ l ∈ complete c xs, c ∉ l := by
  induction xs with
  | nil => simp
  | cons x xs ih =>
    by_cases same : x = c
    · subst same
      simpa using ih
    · simp only [complete, cut, same, if_false] at ih ⊢
      cases found : (cut c xs).1 with
      | nil => simp
      | cons l ls =>
        simp only [found, List.mem_cons, forall_eq_or_imp] at ih ⊢
        exact ⟨by simp [Ne.symm same, ih.1], ih.2⟩

theorem cut_free_append (r ys : List α) (free : c ∉ r) :
    cut c (r ++ ys) = match complete c ys with
      | [] => ([], r ++ rest c ys)
      | l :: ls => ((r ++ l) :: ls, rest c ys) := by
  induction r with
  | nil =>
    simp only [complete, rest, List.nil_append]
    cases found : cut c ys with
    | mk ls q => cases ls <;> rfl
  | cons x r ih =>
    simp only [List.mem_cons, not_or] at free
    have ne : x ≠ c := fun h => free.1 h.symm
    rw [List.cons_append, cut, ih free.2]
    cases found : complete c ys <;> simp [ne]

theorem complete_free_nil {r ys : List α} (free : c ∉ r) (none : complete c ys = []) :
    complete c (r ++ ys) = [] ∧ rest c (r ++ ys) = r ++ rest c ys := by
  have h := cut_free_append r ys free
  rw [none] at h
  simp [complete, rest, h]

theorem complete_free_cons {r ys l : List α} {ls : List (List α)} (free : c ∉ r)
    (some : complete c ys = l :: ls) :
    complete c (r ++ ys) = (r ++ l) :: ls ∧ rest c (r ++ ys) = rest c ys := by
  have h := cut_free_append r ys free
  rw [some] at h
  simp [complete, rest, h]

theorem complete_free (r : List α) (free : c ∉ r) : complete c r = [] := by
  have h := cut_free_append (c := c) r [] free
  simp only [complete_nil, List.append_nil] at h
  simp [complete, h]

theorem rest_free (r : List α) (free : c ∉ r) : rest c r = r := by
  have h := cut_free_append (c := c) r [] free
  simp only [complete_nil, List.append_nil, rest_nil] at h
  simp [rest, h]

theorem complete_free_sep (l ys : List α) (free : c ∉ l) :
    complete c (l ++ c :: ys) = l :: complete c ys := by
  rw [complete, cut_free_append l (c :: ys) free]
  simp

theorem rest_free_sep (l ys : List α) (free : c ∉ l) :
    rest c (l ++ c :: ys) = rest c ys := by
  rw [rest, cut_free_append l (c :: ys) free]
  simp

theorem sep_append_inj {l m xs ys : List α} (l_free : c ∉ l) (m_free : c ∉ m)
    (same : l ++ c :: xs = m ++ c :: ys) : l = m ∧ xs = ys := by
  have first := complete_free_sep l xs l_free
  rw [same, complete_free_sep m ys m_free, List.cons.injEq] at first
  rw [first.1, List.append_cancel_left_eq, List.cons.injEq] at same
  exact ⟨first.1.symm, same.2⟩

theorem complete_unlines (ls : List (List α)) (ys : List α) (free : ∀ l ∈ ls, c ∉ l) :
    complete c (unlines c ls ++ ys) = ls ++ complete c ys := by
  induction ls with
  | nil => simp
  | cons l ls ih =>
    have head := free l (by simp)
    have tail := ih (fun m hm => free m (by simp [hm]))
    simp only [unlines_cons, List.append_assoc, List.cons_append]
    rw [complete_free_sep l _ head, tail]

theorem rest_unlines (ls : List (List α)) (ys : List α) (free : ∀ l ∈ ls, c ∉ l) :
    rest c (unlines c ls ++ ys) = rest c ys := by
  induction ls with
  | nil => simp
  | cons l ls ih =>
    have head := free l (by simp)
    have tail := ih (fun m hm => free m (by simp [hm]))
    simp only [unlines_cons, List.append_assoc, List.cons_append]
    rw [rest_free_sep l _ head, tail]

theorem complete_append (xs ys : List α) :
    complete c (xs ++ ys) = complete c xs ++ complete c (rest c xs ++ ys) := by
  conv => lhs; rw [← unlines_rest (c := c) xs, List.append_assoc]
  exact complete_unlines _ _ (sep_not_mem_complete xs)

theorem rest_append (xs ys : List α) :
    rest c (xs ++ ys) = rest c (rest c xs ++ ys) := by
  conv => lhs; rw [← unlines_rest (c := c) xs, List.append_assoc]
  exact rest_unlines _ _ (sep_not_mem_complete xs)

theorem rest_length_le (xs : List α) : (rest c xs).length ≤ xs.length := by
  have h := congrArg List.length (unlines_rest (c := c) xs)
  rw [List.length_append] at h
  omega

theorem complete_length_lt {xs l : List α} (member : l ∈ complete c xs) :
    l.length < xs.length := by
  obtain ⟨before, after, eq⟩ := List.append_of_mem member
  have h := congrArg List.length (unlines_rest (c := c) xs)
  rw [eq] at h
  simp only [unlines_append, unlines_cons, List.length_append, List.length_cons] at h
  omega

theorem take_unlines (xs : List α) :
    xs.take (xs.length - (rest c xs).length) = unlines c (complete c xs) := by
  have h := unlines_rest (c := c) xs
  have n := congrArg List.length h
  rw [List.length_append] at n
  have size : xs.length - (rest c xs).length = (unlines c (complete c xs)).length := by
    omega
  have front : (unlines c (complete c xs) ++ rest c xs).take
      (unlines c (complete c xs)).length = unlines c (complete c xs) := List.take_left
  rwa [h, ← size] at front

theorem find_sep_split {xs : List α} {i : Nat} (found : xs.findIdx? (· == c) = some i) :
    ∃ u v, xs = u ++ c :: v ∧ c ∉ u ∧ u.length = i := by
  induction xs generalizing i with
  | nil => simp at found
  | cons x xs ih =>
    rw [List.findIdx?_cons] at found
    by_cases same : x = c
    · simp only [same, beq_self_eq_true, if_true, Option.some.injEq] at found
      exact ⟨[], xs, by simp [same], by simp, by simpa using found⟩
    · simp only [beq_iff_eq, same, if_false, Option.map_eq_some_iff] at found
      obtain ⟨j, later, rfl⟩ := found
      obtain ⟨u, v, rfl, free, len⟩ := ih later
      exact ⟨x :: u, v, by simp, by simp [Ne.symm same, free], by simp [len]⟩

theorem find_sep_none {xs : List α} (found : xs.findIdx? (· == c) = none) : c ∉ xs := by
  intro member
  simpa using List.findIdx?_eq_none_iff.mp found c member

theorem complete_mono {xs ys : List α} (le : xs <+: ys) :
    complete c xs <+: complete c ys := by
  obtain ⟨zs, rfl⟩ := le
  rw [complete_append]
  exact List.prefix_append _ _

theorem count_sep (xs : List α) : xs.count c = (complete c xs).length := by
  induction xs with
  | nil => rfl
  | cons x xs ih =>
    by_cases same : x = c
    · subst same
      simp [ih]
    · rw [List.count_cons_of_ne (by simpa using same), ih]
      simp only [complete, cut, same, if_false]
      cases found : (cut c xs).1 <;> simp

theorem rest_suffix {xs ys : List α} (whole : rest c (xs ++ ys) = []) : rest c ys = [] := by
  rw [rest_append] at whole
  have free := sep_not_mem_rest (c := c) xs
  cases found : complete c ys with
  | nil =>
    rw [(complete_free_nil free found).2] at whole
    exact (List.append_eq_nil_iff.mp whole).2
  | cons l ls =>
    rw [(complete_free_cons free found).2] at whole
    exact whole

theorem complete_drop_length (r : List α) (ls : List (List α)) (m : Nat) (free : c ∉ r)
    (clean : ∀ l ∈ ls, c ∉ l) : (complete c (r ++ (unlines c ls).drop m)).length ≤ ls.length := by
  have fewer := (List.drop_sublist m (unlines c ls)).count_le c
  have all := complete_unlines ls [] clean
  simp only [List.append_nil, complete_nil] at all
  rw [count_sep (unlines c ls), all] at fewer
  rwa [← count_sep, List.count_append, List.count_eq_zero_of_not_mem free, Nat.zero_add]

/-- Bytes put in place of the front of some records keep these only if they are that front. -/
theorem complete_spliced {r : List α} {ls : List (List α)} {m : Nat} (free : c ∉ r)
    (clean : ∀ l ∈ ls, c ∉ l) (some : ls ≠ [])
    (same : complete c (r ++ (unlines c ls).drop m) = ls) : r = (unlines c ls).take m := by
  have whole : rest c ((unlines c ls).take m ++ (unlines c ls).drop m) = [] := by
    rw [List.take_append_drop]
    simpa using rest_unlines ls [] clean
  have ended : rest c (r ++ (unlines c ls).drop m) = [] := by
    cases found : complete c ((unlines c ls).drop m) with
    | nil =>
      rw [(complete_free_nil free found).1] at same
      exact absurd same.symm some
    | cons l ls' =>
      rw [(complete_free_cons free found).2]
      exact rest_suffix whole
  have split := unlines_rest (c := c) (r ++ (unlines c ls).drop m)
  rw [same, ended, List.append_nil] at split
  conv at split => lhs; rw [← List.take_append_drop m (unlines c ls)]
  exact (List.append_cancel_right split).symm

/-- A complete record lies between the start or a separator and a separator. -/
theorem mem_placed_iff {start : Nat} {xs : List α} {x : Nat × List α} :
    x ∈ placed start (complete c xs) ↔
      ∃ u v, xs = u ++ x.2 ++ c :: v ∧ x.1 = start + u.length ∧ c ∉ x.2 ∧ rest c u = [] := by
  constructor
  · intro member
    have free := sep_not_mem_complete (c := c) xs
    have whole := unlines_rest (c := c) xs
    generalize complete c xs = ls at *
    generalize rest c xs = tail at whole
    subst whole
    induction ls generalizing start with
    | nil => simp at member
    | cons l ls ih =>
      rcases List.mem_cons.mp member with rfl | later
      · exact ⟨[], unlines c ls ++ tail, by simp, by simp, free l (by simp), rfl⟩
      · obtain ⟨u, v, eq, pos, clean, ended⟩ := ih later fun m inside => free m (by simp [inside])
        refine ⟨l ++ c :: u, v, by simp [eq], by simp [pos]; omega, clean, ?_⟩
        rw [rest_free_sep l u (free l (by simp))]
        exact ended
  · rintro ⟨u, v, eq, pos, clean, ended⟩
    have front := unlines_rest (c := c) u
    rw [ended, List.append_nil] at front
    have lines : complete c xs = complete c u ++ x.2 :: complete c v := by
      rw [eq, List.append_assoc, complete_append, ended, List.nil_append,
        complete_free_sep _ _ clean]
    rw [lines, placed_append c, front, List.mem_append]
    right
    simp [placed, ← pos]

theorem mem_placed_later {start base : Nat} {xs : List α} {x : Nat × List α}
    (member : x ∈ placed start (complete c xs)) (after : start ≤ base) (behind : base ≤ x.1) :
    x ∈ placed base (complete c (xs.drop (base - start))) := by
  obtain ⟨u, v, eq, pos, clean, ended⟩ := mem_placed_iff.mp member
  refine mem_placed_iff.mpr ⟨u.drop (base - start), v, ?_, ?_, clean, ?_⟩
  · rw [eq, List.append_assoc, List.drop_append_of_le_length (by omega), List.append_assoc]
  · rw [List.length_drop]
    omega
  · have whole : rest c (u.take (base - start) ++ u.drop (base - start)) = [] := by
      rw [List.take_append_drop]
      exact ended
    exact rest_suffix whole

theorem mem_placed_drop {base : Nat} {xs : List α} {x : Nat × List α}
    (member : x ∈ placed 0 (complete c xs)) (behind : base ≤ x.1) :
    x ∈ placed base (complete c (xs.drop base)) :=
  mem_placed_later member (Nat.zero_le _) behind

theorem mem_placed_of_drop {base : Nat} {xs : List α} {x : Nat × List α} (inside : base ≤ xs.length)
    (boundary : rest c (xs.take base) = [])
    (member : x ∈ placed base (complete c (xs.drop base))) :
    x ∈ placed 0 (complete c xs) := by
  obtain ⟨u, v, eq, pos, clean, ended⟩ := mem_placed_iff.mp member
  refine mem_placed_iff.mpr ⟨xs.take base ++ u, v, ?_, ?_, clean, ?_⟩
  · conv => lhs; rw [← List.take_append_drop base xs, eq]
    simp
  · simp [inside, pos]
  · rw [rest_append, boundary, List.nil_append]
    exact ended

def fields (c : α) (xs : List α) : List (List α) := complete c xs ++ [rest c xs]

theorem fields_joinWith {ls : List (List α)} (some : ls ≠ []) (free : ∀ l ∈ ls, c ∉ l) :
    fields c (joinWith c ls) = ls := by
  induction ls with
  | nil => exact absurd rfl some
  | cons l ls ih =>
    rw [List.forall_mem_cons] at free
    cases ls with
    | nil => rw [joinWith, fields, complete_free l free.1, rest_free l free.1, List.nil_append]
    | cons m ls =>
      have later := ih (by simp) free.2
      unfold fields at later ⊢
      rw [joinWith, complete_free_sep l _ free.1, rest_free_sep l _ free.1, List.cons_append, later]

end SeparatedLines
