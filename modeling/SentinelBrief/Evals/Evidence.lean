import SentinelBrief.Worker.Markers

/-!
The evidence that `build_judge_messages` (`evals/judge.py`) shows the judge, and what its
markers have in common with those around attacker data.
-/
namespace EvalsEvidence
open Utf8Text PatternOccurrences TextReplacement WorkerPipeline WorkerMarkers

def evidenceBegin : PyStr := str "<<<EVIDENCE>>>"

def evidenceEnd : PyStr := str "<<<END_EVIDENCE>>>"

def delimitEvidence (text : PyStr) : PyStr :=
  evidenceBegin ++ str "\n" ++ neutralize text ++ str "\n" ++ evidenceEnd

/-- The text between the markers is the given one, but for triples of `<`, each turned into a
    triple of another letter. -/
structure Kept (text body : PyStr) : Prop where
  length : body.length = text.length
  outside (i : Nat) : body[i]? = text[i]? ∨
    ∃ j, j ≤ i ∧ i < j + 3 ∧ opener <+: text.drop j ∧ replacement <+: body.drop j

/-- `<<<` stands at the start of the first marker and at the start of the last, and nowhere else. -/
structure Neutralised (first last text s : PyStr) : Prop where
  starts : first <+: s
  ends : last <:+ s
  opened (before : PyStr) :
    OccursAt opener s before ↔ before = [] ∨ before = s.take (s.length - last.length)
  twice : s.take (s.length - last.length) ≠ []
  body : ∃ body, s = first ++ str "\n" ++ body ++ str "\n" ++ last ∧ Kept text body

theorem neutralize_kept (text : PyStr) : Kept text (neutralize text) where
  length := replaced_length (neutralize_replaced text) rfl
  outside := replaced_outside (neutralize_replaced text) rfl

theorem between_neutralised {a b : Nat} {u v : PyStr} (text : PyStr) (first : 0x3C ∉ a :: u)
    (last : 0x3C ∉ b :: v) : Neutralised (opener ++ a :: u) (opener ++ b :: v) text
      (between (opener ++ a :: u) (opener ++ b :: v) text) := by
  have front : (between (opener ++ a :: u) (opener ++ b :: v) text).take
      ((between (opener ++ a :: u) (opener ++ b :: v) text).length - (opener ++ b :: v).length) =
        opener ++ a :: u ++ str "\n" ++ neutralize text ++ str "\n" := by
    rw [between, List.length_append, Nat.add_sub_cancel]
    exact List.take_left
  refine ⟨?_, List.suffix_append _ _, fun before => ⟨fun occurs => ?_, ?_⟩, ?_, neutralize text, rfl,
    neutralize_kept text⟩
  · simp only [between, List.append_assoc]
    exact List.prefix_append _ _
  · rw [front]
    rw [← List.append_nil (between _ _ text)] at occurs
    exact opener_between first last List.not_mem_nil occurs
  · rintro (rfl | rfl)
    · exact ⟨a :: u ++ str "\n" ++ neutralize text ++ str "\n" ++ (opener ++ b :: v),
        by simp [between]⟩
    · rw [front]
      exact ⟨b :: v, by simp [between]⟩
  · rw [front]
    simp [opener]

/-- Neither delimiter leaves a `<<<` of the text behind, and each changes nothing else in it. -/
theorem delimiters_neutralise (text : PyStr) :
    Neutralised alertDataBegin alertDataEnd text (delimitAttackerData text) ∧
      Neutralised evidenceBegin evidenceEnd text (delimitEvidence text) :=
  ⟨between_neutralised text (by decide) (by decide), between_neutralised text (by decide) (by decide)⟩

example : delimitEvidence (str "<<<<") = evidenceBegin ++ 10 :: 0x2039 :: 0x2039 :: 0x2039 ::
    str "<\n<<<END_EVIDENCE>>>" := by decide

end EvalsEvidence
