import Mathlib.Data.List.Infix

/-!
Where a pattern occurs in a text. A position is the part of the text in front of
it. A pattern without the character `c` does not reach over a `c` of the text, so
the positions in a text are those in the pieces between its `c`s.
-/
namespace PatternOccurrences
variable {α : Type}

def OccursAt (p s before : List α) : Prop := before ++ p <+: s

theorem infix_iff_occursAt {p s : List α} : p <:+: s ↔ ∃ before, OccursAt p s before := by
  constructor
  · rintro ⟨before, after, eq⟩
    exact ⟨before, after, eq⟩
  · rintro ⟨before, after, eq⟩
    exact ⟨before, after, eq⟩

theorem occursAt_of_prefix {q p s before : List α} (le : q <+: p) (occurs : OccursAt p s before) :
    OccursAt q s before := by
  obtain ⟨tail, rfl⟩ := le
  obtain ⟨after, eq⟩ := occurs
  exact ⟨tail ++ after, by simpa using eq⟩

theorem mem_of_occursAt {p s before : List α} {a : α} (mem : a ∈ p) (occurs : OccursAt p s before) :
    a ∈ s := occurs.subset (List.mem_append_right _ mem)

theorem occursAt_cons {p s : List α} {c : α} {before : List α} :
    OccursAt p (c :: s) before ↔
      (before = [] ∧ p <+: c :: s) ∨ ∃ b, before = c :: b ∧ OccursAt p s b := by
  cases before with
  | nil => simp [OccursAt]
  | cons d b =>
    rw [OccursAt, List.cons_append, List.cons_prefix_cons]
    constructor
    · rintro ⟨rfl, occurs⟩
      exact .inr ⟨b, rfl, occurs⟩
    · rintro (⟨eq, -⟩ | ⟨b', eq, occurs⟩)
      · cases eq
      · cases eq
        exact ⟨rfl, occurs⟩

theorem prefix_separated {p u v : List α} {c : α} (apart : c ∉ p) :
    p <+: u ++ c :: v ↔ p <+: u := by
  constructor
  · intro le
    have mark : u ++ [c] <+: u ++ c :: v := ⟨v, by simp⟩
    rcases List.prefix_or_prefix_of_prefix le mark with short | long
    · rcases List.prefix_concat_iff.mp short with eq | le'
      · exact absurd (eq ▸ List.mem_append_right u List.mem_cons_self) apart
      · exact le'
    · exact absurd (long.subset (List.mem_append_right u List.mem_cons_self)) apart
  · intro le
    exact le.trans (List.prefix_append _ _)

theorem occursAt_separated {p u v before : List α} {c : α} (apart : c ∉ p) :
    OccursAt p (u ++ c :: v) before ↔
      OccursAt p u before ∨ ∃ b, before = u ++ c :: b ∧ OccursAt p v b := by
  induction u generalizing before with
  | nil =>
    have first : (before = [] ∧ p <+: c :: v) ↔ OccursAt p [] before := by
      rw [← List.nil_append (c :: v), prefix_separated apart]
      simp [OccursAt]
    rw [List.nil_append, occursAt_cons, first]
    rfl
  | cons a u ih =>
    rw [List.cons_append, occursAt_cons, occursAt_cons, ← List.cons_append, prefix_separated apart]
    simp only [ih, List.cons_append]
    constructor
    · rintro (start | ⟨b, rfl, here | ⟨b, rfl, later⟩⟩)
      · exact .inl (.inl start)
      · exact .inl (.inr ⟨b, rfl, here⟩)
      · exact .inr ⟨b, rfl, later⟩
    · rintro ((start | ⟨b, rfl, here⟩) | ⟨b, rfl, later⟩)
      · exact .inl start
      · exact .inr ⟨b, rfl, .inl here⟩
      · exact .inr ⟨_, rfl, .inr ⟨b, rfl, later⟩⟩

theorem infix_separated {p u v : List α} {c : α} (apart : c ∉ p) :
    p <:+: u ++ c :: v ↔ p <:+: u ∨ p <:+: v := by
  simp only [infix_iff_occursAt, occursAt_separated apart]
  constructor
  · rintro ⟨before, here | ⟨b, -, later⟩⟩
    · exact .inl ⟨before, here⟩
    · exact .inr ⟨b, later⟩
  · rintro (⟨before, here⟩ | ⟨b, later⟩)
    · exact ⟨before, .inl here⟩
    · exact ⟨u ++ c :: b, .inr ⟨b, rfl, later⟩⟩

end PatternOccurrences
