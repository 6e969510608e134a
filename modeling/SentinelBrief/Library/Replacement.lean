import SentinelBrief.Library.Occurrences

/-!
Replacing a pattern from left to right, each occurrence that does not reach into one already
replaced.
-/
namespace TextReplacement
open PatternOccurrences
variable {α : Type} {old new s t : List α}

/-- The second text is the first with `old` replaced by `new`. -/
inductive Replaced (old new : List α) : List α → List α → Prop where
  | nil : Replaced old new [] []
  | keep {c : α} {s t : List α} (other : ¬ old <+: c :: s) (rest : Replaced old new s t) :
      Replaced old new (c :: s) (c :: t)
  | swap {s t : List α} (rest : Replaced old new s t) : Replaced old new (old ++ s) (new ++ t)

theorem replaced_length (replaced : Replaced old new s t) (same : new.length = old.length) :
    t.length = s.length := by
  induction replaced with
  | nil => rfl
  | keep other rest ih => rw [List.length_cons, List.length_cons, ih]
  | swap rest ih => rw [List.length_append, List.length_append, ih, same]

theorem replaced_outside (replaced : Replaced old new s t) (same : new.length = old.length)
    (i : Nat) :
    t[i]? = s[i]? ∨
      ∃ j, j ≤ i ∧ i < j + old.length ∧ old <+: s.drop j ∧ new <+: t.drop j := by
  induction replaced generalizing i with
  | nil => exact .inl rfl
  | keep other rest ih =>
    cases i with
    | zero => exact .inl rfl
    | succ i =>
      rcases ih i with kept | ⟨j, from_, to_, before, after⟩
      · exact .inl (by rw [List.getElem?_cons_succ, List.getElem?_cons_succ, kept])
      · refine .inr ⟨j + 1, by omega, by omega, ?_, ?_⟩
        · rwa [List.drop_succ_cons]
        · rwa [List.drop_succ_cons]
  | @swap s t rest ih =>
    by_cases inside : i < old.length
    · exact .inr ⟨0, Nat.zero_le i, by omega, List.prefix_append old s, List.prefix_append new t⟩
    · rcases ih (i - old.length) with kept | ⟨j, from_, to_, before, after⟩
      · left
        rw [List.getElem?_append_right (by omega), List.getElem?_append_right (by omega), same, kept]
      · refine .inr ⟨old.length + j, by omega, by omega, ?_, ?_⟩
        · rwa [List.drop_length_add_append]
        · rwa [← same, List.drop_length_add_append]

/-- What the rewritten text begins with, letter for letter of the pattern, the text begins with. -/
theorem replaced_prefix {p : List α} (replaced : Replaced old new s t) (some : new ≠ [])
    (apart : ∀ c ∈ new, c ∉ old) (letters : p ⊆ old) (first : p <+: t) : p <+: s := by
  induction replaced generalizing p with
  | nil => exact first
  | @keep c s t other rest ih =>
    cases p with
    | nil => exact List.nil_prefix
    | cons d p =>
      rw [List.cons_prefix_cons] at first ⊢
      exact ⟨first.1, ih (fun x member => letters (List.mem_cons_of_mem d member)) first.2⟩
  | swap rest ih =>
    cases p with
    | nil => exact List.nil_prefix
    | cons d p =>
      obtain ⟨c, u, rfl⟩ := List.exists_cons_of_ne_nil some
      rw [List.cons_append, List.cons_prefix_cons] at first
      exact absurd (letters List.mem_cons_self) (first.1 ▸ apart c List.mem_cons_self)

theorem infix_apart {p u v : List α} (pattern : p ≠ []) (apart : ∀ c ∈ u, c ∉ p)
    (inside : p <:+: u ++ v) : p <:+: v := by
  obtain ⟨d, q, rfl⟩ := List.exists_cons_of_ne_nil pattern
  induction u with
  | nil => exact inside
  | cons c u ih =>
    rw [List.forall_mem_cons] at apart
    rw [List.cons_append, List.infix_cons_iff, List.cons_prefix_cons] at inside
    rcases inside with first | later
    · exact absurd (first.1 ▸ List.mem_cons_self) apart.1
    · exact ih apart.2 later

theorem replaced_free (replaced : Replaced old new s t) (pattern : old ≠ []) (some : new ≠ [])
    (apart : ∀ c ∈ new, c ∉ old) : ¬ old <:+: t := by
  induction replaced with
  | nil =>
    intro inside
    exact pattern (List.infix_nil.mp inside)
  | keep other rest ih =>
    rw [List.infix_cons_iff, not_or]
    refine ⟨fun first => other ?_, ih⟩
    exact replaced_prefix (.keep other rest) some apart (List.Subset.refl old) first
  | swap rest ih => exact fun inside => ih (infix_apart pattern apart inside)

end TextReplacement
