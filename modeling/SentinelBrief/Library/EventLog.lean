import Mathlib.Data.List.Basic

/-!
Logs in which each event is justified by the ones before it.
-/
namespace EventLog
variable {ε : Type} {follows : List ε → ε → Prop} {log : List ε} {e : ε}

def Preceded (follows : List ε → ε → Prop) (log : List ε) : Prop :=
  ∀ before e after, log = before ++ e :: after → follows before e

theorem preceded_nil : Preceded follows [] := by
  intro before e after whole
  simp at whole

theorem preceded_concat (earlier : Preceded follows log) (next : follows log e) :
    Preceded follows (log ++ [e]) := by
  intro before d after whole
  rcases List.eq_nil_or_concat after with rfl | ⟨front, last, rfl⟩
  · obtain ⟨rfl, same⟩ := List.append_inj' whole rfl
    cases same
    exact next
  · have split : log ++ [e] = (before ++ d :: front) ++ [last] := by simpa using whole
    obtain ⟨rfl, -⟩ := List.append_inj' split rfl
    exact earlier before d front rfl

theorem preceded_mem (ordered : Preceded follows log) (member : e ∈ log) :
    ∃ before after, log = before ++ e :: after ∧ follows before e := by
  obtain ⟨before, after, whole⟩ := List.append_of_mem member
  exact ⟨before, after, whole, ordered before e after whole⟩

end EventLog
