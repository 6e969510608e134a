import Mathlib.Data.List.Nodup
import Mathlib.Data.List.Perm.Basic

/-!
A table with a unique index, under transactions. `rows` are committed, `drafts`
were inserted by transactions that are still open and are seen by the index only:
an insert of a key that a draft has must wait for it. `Unique` is what the index
keeps.
-/
namespace UniqueIndex
variable {ρ κ : Type}

structure Table (ρ : Type) where
  rows : List ρ := []
  drafts : List ρ := []

/-- What `INSERT ... ON CONFLICT DO NOTHING` does. -/
inductive Insertion (ρ : Type) where
  | waits
  | conflicts
  | inserted (t : Table ρ)

section
variable [DecidableEq κ] (key : ρ → κ)

def Table.insert (t : Table ρ) (row : ρ) : Insertion ρ :=
  if key row ∈ t.drafts.map key then .waits
  else if key row ∈ t.rows.map key then .conflicts
  else .inserted { t with drafts := t.drafts ++ [row] }

def Table.find (t : Table ρ) (k : κ) : List ρ := t.rows.filter fun row => key row = k

end

/-- The transaction whose drafts are `mine` commits. -/
def Table.commit (t : Table ρ) (mine : ρ → Bool) : Table ρ :=
  { rows := t.rows ++ t.drafts.filter mine, drafts := t.drafts.filter fun row => !mine row }

def Table.rollback (t : Table ρ) (mine : ρ → Bool) : Table ρ :=
  { t with drafts := t.drafts.filter fun row => !mine row }

def Table.update (t : Table ρ) (f : ρ → ρ) : Table ρ := { t with rows := t.rows.map f }

def Unique (key : ρ → κ) (t : Table ρ) : Prop := ((t.rows ++ t.drafts).map key).Nodup

variable {key : ρ → κ} {t : Table ρ}

theorem unique_rows (unique : Unique key t) : (t.rows.map key).Nodup := by
  rw [Unique, List.map_append] at unique
  exact unique.of_append_left

theorem unique_insert [DecidableEq κ] {t' : Table ρ} {row : ρ} (unique : Unique key t)
    (done : t.insert key row = .inserted t') :
    Unique key t' ∧ t' = { t with drafts := t.drafts ++ [row] } := by
  unfold Table.insert at done
  split at done
  · cases done
  · split at done
    · cases done
    · rename_i undrafted free
      cases done
      refine ⟨?_, rfl⟩
      rw [Unique, ← List.append_assoc, List.map_append, List.nodup_append]
      refine ⟨unique, by simp, ?_⟩
      intro a mem b single same
      rw [List.map_cons, List.map_nil, List.mem_singleton] at single
      rw [List.map_append, List.mem_append, same, single] at mem
      exact mem.elim free undrafted

theorem unique_commit (unique : Unique key t) (mine : ρ → Bool) : Unique key (t.commit mine) := by
  have perm : List.Perm ((t.commit mine).rows ++ (t.commit mine).drafts) (t.rows ++ t.drafts) := by
    simp only [Table.commit, List.append_assoc]
    exact (List.filter_append_perm mine t.drafts).append_left t.rows
  exact (perm.map key).nodup_iff.mpr unique

theorem unique_rollback (unique : Unique key t) (mine : ρ → Bool) :
    Unique key (t.rollback mine) := by
  have sub : List.Sublist ((t.rollback mine).rows ++ (t.rollback mine).drafts)
      (t.rows ++ t.drafts) := List.filter_sublist.append_left t.rows
  exact unique.sublist (sub.map key)

theorem unique_update (unique : Unique key t) {f : ρ → ρ} (same : ∀ row, key (f row) = key row) :
    Unique key (t.update f) := by
  have keys : (t.rows.map f).map key = t.rows.map key := by
    rw [List.map_map]
    exact List.map_congr_left fun row _ => same row
  rw [Unique, List.map_append] at unique ⊢
  rw [show (t.update f).rows = t.rows.map f from rfl, keys]
  exact unique

theorem unique_eq (unique : Unique key t) {a b : ρ} (mem : a ∈ t.rows) (mem' : b ∈ t.rows)
    (same : key a = key b) : a = b := List.inj_on_of_nodup_map (unique_rows unique) mem mem' same

theorem find_eq [DecidableEq κ] (unique : Unique key t) {row : ρ} (mem : row ∈ t.rows) :
    t.find key (key row) = [row] := by
  have only : ∀ a ∈ t.find key (key row), a = row := by
    intro a found
    obtain ⟨mem', same⟩ := List.mem_filter.mp found
    exact unique_eq unique mem' mem (of_decide_eq_true same)
  have here : row ∈ t.find key (key row) := List.mem_filter.mpr ⟨mem, decide_eq_true rfl⟩
  have distinct : (t.find key (key row)).Nodup :=
    (unique_rows unique).of_map.filter _
  match found : t.find key (key row) with
  | [] =>
    rw [found] at here
    cases here
  | [a] => rw [only a (by simp [found])]
  | a :: b :: rest =>
    rw [found, List.nodup_cons] at distinct
    have same : a = b := (only a (by simp [found])).trans (only b (by simp [found])).symm
    exact absurd (same ▸ List.mem_cons_self) distinct.1

end UniqueIndex
