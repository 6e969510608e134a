import Mathlib.Algebra.BigOperators.Group.List.Basic
import Mathlib.Algebra.GroupWithZero.Nat
import Mathlib.Data.List.Dedup
import Mathlib.Data.List.Sort

/-!
The clauses of SQL queries as functions on lists: ORDER BY, DISTINCT ON, LEFT
OUTER JOIN, GROUP BY and pages by OFFSET and LIMIT. A query over distinct keys has
one answer: the sorted list is determined by its elements, the first row of a key
is its least one, and a join with at most one partner a row keeps the rows.
-/
namespace RelationalQueries
variable {α β κ : Type}

theorem nodup_keys {id : α → β} {key : α → κ} {l : List α} (distinct : (l.map id).Nodup)
    (tells : ∀ a b, key a = key b → id a = id b) : (l.map key).Nodup := by
  apply List.Nodup.map_on _ distinct.of_map
  intro a mem b mem' same
  exact List.inj_on_of_nodup_map distinct mem mem' (tells a b same)

theorem find_key [DecidableEq κ] {key : α → κ} {l : List α} (distinct : (l.map key).Nodup) {a : α}
    (mem : a ∈ l) : l.find? (fun b => key b = key a) = some a := by
  have some : (l.find? fun b => key b = key a).isSome :=
    List.find?_isSome.mpr ⟨a, mem, decide_eq_true rfl⟩
  obtain ⟨b, found⟩ := Option.isSome_iff_exists.mp some
  have same : key b = key a := by simpa using List.find?_some found
  rw [found, List.inj_on_of_nodup_map distinct (List.mem_of_find?_eq_some found) mem same]

section
variable [LinearOrder κ] (key : α → κ)

def orderBy (l : List α) : List α := l.insertionSort fun a b => key a ≤ key b

variable {key}

theorem orderBy_perm (l : List α) : (orderBy key l).Perm l := List.perm_insertionSort ..

theorem orderBy_sorted (l : List α) : (orderBy key l).Pairwise fun a b => key a ≤ key b := by
  have total : Std.Total fun a b : α => key a ≤ key b := ⟨fun a b => le_total _ _⟩
  have trans : IsTrans α fun a b => key a ≤ key b := ⟨fun _ _ _ => le_trans⟩
  exact List.pairwise_insertionSort _ l

/-- A sorted list is the only one of its elements when their keys differ. -/
theorem orderBy_unique {l m : List α} (distinct : (l.map key).Nodup) (perm : m.Perm l)
    (sorted : m.Pairwise fun a b => key a ≤ key b) : m = orderBy key l := by
  apply List.Perm.eq_of_pairwise _ sorted (orderBy_sorted l) (perm.trans (orderBy_perm l).symm)
  intro a b mem mem' le ge
  exact List.inj_on_of_nodup_map distinct (perm.subset mem) ((orderBy_perm l).subset mem')
    (le_antisymm le ge)

theorem orderBy_filter {l : List α} (distinct : (l.map key).Nodup) (p : α → Bool) :
    (orderBy key l).filter p = orderBy key (l.filter p) := by
  apply orderBy_unique
  · exact distinct.sublist (List.filter_sublist.map key)
  · exact (orderBy_perm l).filter p
  · exact (orderBy_sorted l).filter p

theorem orderBy_find {l : List α} (distinct : (l.map key).Nodup) (p : α → Bool) :
    (orderBy key l).find? p = (orderBy key (l.filter p)).head? := by
  rw [← List.head?_filter, orderBy_filter distinct]

theorem orderBy_strict {l : List α} (distinct : (l.map key).Nodup) :
    (orderBy key l).Pairwise fun a b => key a < key b := by
  have keys : ((orderBy key l).map key).Nodup := ((orderBy_perm l).map key).nodup_iff.mpr distinct
  have apart := List.pairwise_map.mp keys
  exact ((orderBy_sorted l).and apart).imp fun both => lt_of_le_of_ne both.1 both.2

theorem orderBy_keys {key' : β → κ} {l : List α} {m : List β}
    (distinct : (l.map key).Nodup) (distinct' : (m.map key').Nodup)
    (same : ∀ k, k ∈ l.map key ↔ k ∈ m.map key') :
    (orderBy key l).map key = (orderBy key' m).map key' := by
  have perm : ((orderBy key l).map key).Perm ((orderBy key' m).map key') := by
    apply ((orderBy_perm l).map key).trans
    apply List.Perm.trans _ ((orderBy_perm m).map key').symm
    exact (List.perm_ext_iff_of_nodup distinct distinct').mpr same
  have sorted : ((orderBy key l).map key).Pairwise (· ≤ ·) :=
    List.pairwise_map.mpr (orderBy_sorted l)
  have sorted' : ((orderBy key' m).map key').Pairwise (· ≤ ·) :=
    List.pairwise_map.mpr (orderBy_sorted m)
  exact perm.eq_of_pairwise (fun _ _ _ _ le ge => le_antisymm le ge) sorted sorted'

theorem orderBy_head {l : List α} {a : α} (first : (orderBy key l).head? = some a) :
    a ∈ l ∧ ∀ b ∈ l, key a ≤ key b := by
  obtain ⟨rest, eq⟩ := List.head?_eq_some_iff.mp first
  have sorted := @orderBy_sorted α κ _ key l
  rw [eq, List.pairwise_cons] at sorted
  have perm := @orderBy_perm α κ _ key l
  rw [eq] at perm
  refine ⟨perm.subset List.mem_cons_self, fun b mem => ?_⟩
  have there := perm.symm.subset mem
  rcases List.mem_cons.mp there with rfl | later
  · exact le_refl _
  · exact sorted.1 b later

theorem orderBy_congr {μ : Type} [LinearOrder μ] {key' : α → μ} {l : List α}
    (distinct : (l.map key').Nodup)
    (same : ∀ a ∈ l, ∀ b ∈ l, key a ≤ key b → key' a ≤ key' b) :
    orderBy key l = orderBy key' l := by
  apply orderBy_unique distinct (orderBy_perm l)
  apply (orderBy_sorted l).imp_of_mem
  intro a b mem mem' le
  exact same a ((orderBy_perm l).subset mem) b ((orderBy_perm l).subset mem') le

end

section
variable [DecidableEq κ] (key : α → κ)

def distinctOn : List α → List α
  | [] => []
  | a :: l => a :: (distinctOn l).filter fun b => key b ≠ key a

variable {key}

theorem distinctOn_nodup (l : List α) : ((distinctOn key l).map key).Nodup := by
  induction l with
  | nil => exact List.nodup_nil
  | cons a l ih =>
    rw [distinctOn, List.map_cons, List.nodup_cons]
    constructor
    · intro mem
      obtain ⟨b, mem, same⟩ := List.mem_map.mp mem
      exact of_decide_eq_true (List.mem_filter.mp mem).2 same
    · exact ih.sublist (List.filter_sublist.map key)

theorem distinctOn_keys {l : List α} {k : κ} : k ∈ (distinctOn key l).map key ↔ k ∈ l.map key := by
  induction l with
  | nil => rfl
  | cons a l ih =>
    rw [distinctOn, List.map_cons, List.map_cons, List.mem_cons, List.mem_cons, ← ih]
    by_cases here : k = key a
    · simp [here]
    · simp only [here, false_or, List.mem_map, List.mem_filter, decide_eq_true_eq]
      constructor
      · rintro ⟨b, ⟨mem, -⟩, eq⟩
        exact ⟨b, mem, eq⟩
      · rintro ⟨b, mem, eq⟩
        exact ⟨b, ⟨mem, eq ▸ here⟩, eq⟩

theorem distinctOn_filter (l : List α) (k : κ) :
    (distinctOn key l).filter (fun a => key a = k) = (l.find? fun a => key a = k).toList := by
  induction l with
  | nil => rfl
  | cons a l ih =>
    by_cases same : key a = k
    · have none : ((distinctOn key l).filter fun b => key b ≠ key a).filter
          (fun b => key b = k) = [] := by
        rw [List.filter_eq_nil_iff]
        intro b mem
        have other := of_decide_eq_true (List.mem_filter.mp mem).2
        simpa [← same] using other
      rw [distinctOn, List.filter_cons_of_pos (by simpa using same), none,
        List.find?_cons_of_pos (by simpa using same)]
      rfl
    · rw [distinctOn, List.filter_cons_of_neg (by simpa using same), List.filter_filter,
        List.find?_cons_of_neg (by simpa using same), ← ih]
      apply List.filter_congr
      intro b _
      by_cases eq : key b = k
      · simp [eq, Ne.symm same]
      · simp [eq]

end

/-- Every row of the left side with its partners, or with none. -/
def outerJoin (on : α → β → Bool) (l : List α) (m : List β) : List (α × Option β) :=
  l.flatMap fun a => match m.filter (on a) with
    | [] => [(a, none)]
    | partners => partners.map fun b => (a, some b)

theorem mem_outerJoin {on : α → β → Bool} {l : List α} {m : List β} {a : α} :
    (∃ b, (a, b) ∈ outerJoin on l m) ↔ a ∈ l := by
  constructor
  · rintro ⟨b, mem⟩
    obtain ⟨a', there, row⟩ := List.mem_flatMap.mp mem
    split at row
    · rw [List.mem_singleton, Prod.mk.injEq] at row
      exact row.1 ▸ there
    · obtain ⟨_, -, eq⟩ := List.mem_map.mp row
      exact (Prod.mk.inj eq).1 ▸ there
  · intro there
    cases partners : m.filter (on a) with
    | nil => exact ⟨none, List.mem_flatMap.mpr ⟨a, there, by simp [partners]⟩⟩
    | cons b bs => exact ⟨some b, List.mem_flatMap.mpr ⟨a, there, by simp [partners]⟩⟩

theorem outerJoin_filter (on : α → β → Bool) (p : α → Bool) (l : List α) (m : List β) :
    (outerJoin on l m).filter (fun row => p row.1) = outerJoin on (l.filter p) m := by
  induction l with
  | nil => rfl
  | cons a l ih =>
    rw [outerJoin, List.flatMap_cons, ← outerJoin, List.filter_append, ih, List.filter_cons]
    by_cases selected : p a
    · rw [if_pos selected, outerJoin, outerJoin, List.flatMap_cons]
      congr 1
      cases m.filter (on a) <;> simp [selected]
    · rw [if_neg selected]
      cases m.filter (on a) <;> simp [selected]

theorem outerJoin_ids [DecidableEq κ] {id : α → κ} {l : List α} (distinct : (l.map id).Nodup)
    (on : α → β → Bool) (m : List β) :
    ((outerJoin on l m).map fun row => id row.1).dedup.Perm (l.map id) := by
  rw [List.perm_ext_iff_of_nodup (List.nodup_dedup _) distinct]
  intro k
  rw [List.mem_dedup, List.mem_map, List.mem_map]
  constructor
  · rintro ⟨⟨a, b⟩, mem, eq⟩
    exact ⟨a, mem_outerJoin.mp ⟨b, mem⟩, eq⟩
  · rintro ⟨a, mem, eq⟩
    obtain ⟨b, row⟩ := (@mem_outerJoin _ _ on l m a).mpr mem
    exact ⟨(a, b), row, eq⟩

theorem outerJoin_sum {M : Type} [AddCommMonoid M] {on : α → β → Bool} (weight : β → M) (l : List α)
    (m : List β) : ((outerJoin on l m).map fun row => (row.2.map weight).getD 0).sum =
      ((l.flatMap fun a => m.filter (on a)).map weight).sum := by
  induction l with
  | nil => rfl
  | cons a l ih =>
    rw [outerJoin, List.flatMap_cons, ← outerJoin, List.map_append, List.sum_append, ih,
      List.flatMap_cons, List.map_append, List.sum_append]
    congr 1
    cases m.filter (on a) with
    | nil => simp
    | cons b bs => simp [Function.comp_def]

theorem outerJoin_eq_map {on : α → β → Bool} {l : List α} {m : List β} {f : α → Option β}
    (single : ∀ a ∈ l, m.filter (on a) = (f a).toList) :
    outerJoin on l m = l.map fun a => (a, f a) := by
  induction l with
  | nil => rfl
  | cons a l ih =>
    rw [List.forall_mem_cons] at single
    rw [outerJoin, List.flatMap_cons, ← outerJoin, ih single.2, single.1, List.map_cons]
    cases f a <;> rfl

def pageOf (size i : Nat) (l : List α) : List α := (l.drop (i * size)).take size

theorem pages_flatMap (size n : Nat) (l : List α) :
    ((List.range n).flatMap fun i => pageOf size i l) = l.take (n * size) := by
  induction n with
  | zero => simp
  | succ n ih =>
    rw [List.range_succ, List.flatMap_append, ih, List.flatMap_singleton, pageOf, Nat.succ_mul,
      List.take_add]

theorem pages_all {size : Nat} (positive : 0 < size) (l : List α) :
    ((List.range ((l.length + size - 1) / size)).flatMap fun i => pageOf size i l) = l := by
  rw [pages_flatMap, List.take_of_length_le]
  have enough := Nat.lt_div_mul_add (a := l.length + size - 1) positive
  omega

section
variable [DecidableEq κ] (key : α → κ)

def groupBy (l : List α) : List (κ × List α) :=
  (l.map key).dedup.map fun k => (k, l.filter fun a => key a = k)

variable {key}

theorem groups_cons {a : α} {ks : List κ} {l : List α} (distinct : ks.Nodup) (mem : key a ∈ ks) :
    (ks.flatMap fun k => (a :: l).filter fun b => key b = k).Perm
      (a :: ks.flatMap fun k => l.filter fun b => key b = k) := by
  induction ks with
  | nil => cases mem
  | cons k ks ih =>
    rw [List.nodup_cons] at distinct
    rw [List.flatMap_cons, List.flatMap_cons]
    by_cases here : key a = k
    · have later : (ks.flatMap fun k' => (a :: l).filter fun b => key b = k') =
          ks.flatMap fun k' => l.filter fun b => key b = k' := by
        apply List.flatMap_congr
        intro k' mem'
        have other : key a ≠ k' := fun eq => distinct.1 ((here.symm.trans eq) ▸ mem')
        rw [List.filter_cons_of_neg (by simpa using other)]
      rw [List.filter_cons_of_pos (by simpa using here), later]
      exact List.Perm.refl _
    · rw [List.filter_cons_of_neg (by simpa using here)]
      have rest := ih distinct.2 ((List.mem_cons.mp mem).resolve_left here)
      exact (rest.append_left _).trans List.perm_middle

theorem groups_perm {ks : List κ} {l : List α} (distinct : ks.Nodup)
    (covered : ∀ a ∈ l, key a ∈ ks) :
    (ks.flatMap fun k => l.filter fun a => key a = k).Perm l := by
  induction l with
  | nil => simp
  | cons a l ih =>
    rw [List.forall_mem_cons] at covered
    exact (groups_cons distinct covered.1).trans ((ih covered.2).cons a)

theorem partners_perm {l : List β} {id : β → κ} {m : List α} (distinct : (l.map id).Nodup) :
    (l.flatMap fun b => m.filter fun a => key a = id b).Perm
      (m.filter fun a => key a ∈ l.map id) := by
  have own : (l.flatMap fun b => m.filter fun a => key a = id b) =
      (l.map id).flatMap fun k => (m.filter fun a => key a ∈ l.map id).filter fun a => key a = k := by
    rw [List.flatMap_map]
    apply List.flatMap_congr
    intro b mem
    rw [List.filter_filter]
    apply List.filter_congr
    intro a _
    by_cases same : key a = id b
    · have there : id b ∈ l.map id := List.mem_map_of_mem mem
      simp [same, there]
    · simp [same]
  rw [own]
  apply groups_perm distinct
  intro a mem
  exact of_decide_eq_true (List.mem_filter.mp mem).2

theorem groupBy_perm (l : List α) : ((groupBy key l).flatMap Prod.snd).Perm l := by
  rw [groupBy, List.flatMap_map]
  apply groups_perm (List.nodup_dedup _)
  intro a mem
  exact List.mem_dedup.mpr (List.mem_map_of_mem mem)

theorem groupBy_keys (l : List α) : ((groupBy key l).map Prod.fst) = (l.map key).dedup := by
  rw [groupBy, List.map_map]
  exact List.map_id _

theorem groupBy_sum {M : Type} [AddCommMonoid M] (weight : α → M) (l : List α) :
    ((groupBy key l).map fun g => (g.2.map weight).sum).sum = (l.map weight).sum := by
  have perm := (@groupBy_perm α κ _ key l).map weight
  rw [← perm.sum_eq, List.map_flatMap, List.flatMap_def, List.sum_flatten, List.map_map]
  rfl

theorem groupBy_length (l : List α) :
    ((groupBy key l).map fun g => g.2.length).sum = l.length := by
  have sums := @groupBy_sum α κ _ key Nat _ (fun _ => 1) l
  simpa using sums

end

section
variable [DecidableEq κ] (key : α → κ)

def countBy (l : List α) : List (κ × Nat) := (groupBy key l).map fun g => (g.1, g.2.length)

variable {key}

theorem countBy_keys (l : List α) : (countBy key l).map Prod.fst = (l.map key).dedup := by
  rw [countBy, List.map_map, ← groupBy_keys]
  rfl

theorem countBy_nodup (l : List α) : ((countBy key l).map Prod.fst).Nodup := by
  rw [countBy_keys]
  exact List.nodup_dedup _

theorem countBy_sum (l : List α) : ((countBy key l).map Prod.snd).sum = l.length := by
  rw [countBy, List.map_map, ← @groupBy_length α κ _ key l]
  rfl

end

section
variable [DecidableEq κ]

def setKey (k : κ) (n : Nat) : List (κ × Nat) → List (κ × Nat)
  | [] => [(k, n)]
  | (k', n') :: d => if k' = k then (k, n) :: d else (k', n') :: setKey k n d

def valueAt (k : κ) : List (κ × Nat) → Nat
  | [] => 0
  | (k', n) :: d => if k' = k then n else valueAt k d

def filled (keys : List κ) (rows : List (κ × Nat)) : List (κ × Nat) :=
  rows.foldl (fun d row => setKey row.1 row.2 d) (keys.map fun k => (k, 0))

theorem setKey_sum {k : κ} {d : List (κ × Nat)} (zero : valueAt k d = 0) (n : Nat) :
    ((setKey k n d).map Prod.snd).sum = (d.map Prod.snd).sum + n := by
  induction d with
  | nil => simp [setKey]
  | cons entry d ih =>
    rw [valueAt] at zero
    rw [setKey]
    split
    · rename_i same
      rw [if_pos same] at zero
      simp [zero, Nat.add_comm]
    · rename_i other
      rw [if_neg other] at zero
      simp [ih zero, Nat.add_assoc]

theorem setKey_valueAt (k k' : κ) (n : Nat) (d : List (κ × Nat)) :
    valueAt k' (setKey k n d) = if k = k' then n else valueAt k' d := by
  induction d with
  | nil => rfl
  | cons entry d ih =>
    rw [setKey]
    by_cases same : entry.1 = k
    · rw [if_pos same, valueAt, valueAt, same]
      by_cases here : k = k'
      · rw [if_pos here, if_pos here]
      · rw [if_neg here, if_neg here, if_neg here]
    · rw [if_neg same, valueAt, ih, valueAt]
      by_cases here : entry.1 = k'
      · rw [if_pos here, if_pos here, if_neg (fun eq => same (here.trans eq.symm))]
      · rw [if_neg here, if_neg here]

theorem fold_sum {rows : List (κ × Nat)} {d : List (κ × Nat)}
    (distinct : (rows.map Prod.fst).Nodup) (zero : ∀ row ∈ rows, valueAt row.1 d = 0) :
    ((rows.foldl (fun d row => setKey row.1 row.2 d) d).map Prod.snd).sum =
      (d.map Prod.snd).sum + (rows.map Prod.snd).sum := by
  induction rows generalizing d with
  | nil => simp
  | cons row rows ih =>
    rw [List.map_cons, List.nodup_cons] at distinct
    rw [List.forall_mem_cons] at zero
    have later : ∀ r ∈ rows, valueAt r.1 (setKey row.1 row.2 d) = 0 := by
      intro r mem
      have other : row.1 ≠ r.1 := fun eq => distinct.1 (eq ▸ List.mem_map_of_mem mem)
      rw [setKey_valueAt, if_neg other]
      exact zero.2 r mem
    rw [List.foldl_cons, ih distinct.2 later, setKey_sum zero.1, List.map_cons, List.sum_cons,
      Nat.add_assoc]

theorem zeros_valueAt (k : κ) (keys : List κ) : valueAt k (keys.map fun k => (k, 0)) = 0 := by
  induction keys with
  | nil => rfl
  | cons k' keys ih =>
    rw [List.map_cons, valueAt, ih]
    split <;> rfl

theorem filled_sum {keys : List κ} {rows : List (κ × Nat)} (distinct : (rows.map Prod.fst).Nodup) :
    ((filled keys rows).map Prod.snd).sum = (rows.map Prod.snd).sum := by
  rw [filled, fold_sum distinct (fun row _ => zeros_valueAt _ _)]
  simp [Function.comp_def]

theorem fold_other {rows : List (κ × Nat)} {d : List (κ × Nat)} {k : κ}
    (absent : k ∉ rows.map Prod.fst) :
    valueAt k (rows.foldl (fun d row => setKey row.1 row.2 d) d) = valueAt k d := by
  induction rows generalizing d with
  | nil => rfl
  | cons row rows ih =>
    rw [List.map_cons, List.mem_cons, not_or] at absent
    rw [List.foldl_cons, ih absent.2, setKey_valueAt, if_neg (Ne.symm absent.1)]

theorem filled_absent {keys : List κ} {rows : List (κ × Nat)} {k : κ}
    (absent : k ∉ rows.map Prod.fst) : valueAt k (filled keys rows) = 0 :=
  (fold_other absent).trans (zeros_valueAt k keys)

theorem filled_valueAt {keys : List κ} {rows : List (κ × Nat)} {k : κ} {n : Nat}
    (distinct : (rows.map Prod.fst).Nodup) (mem : (k, n) ∈ rows) :
    valueAt k (filled keys rows) = n := by
  obtain ⟨before, after, rfl⟩ := List.append_of_mem mem
  have later : k ∉ after.map Prod.fst := by
    rw [List.map_append, List.map_cons, List.nodup_append, List.nodup_cons] at distinct
    exact distinct.2.1.1
  rw [filled, List.foldl_append, List.foldl_cons, fold_other later, setKey_valueAt, if_pos rfl]

theorem table_sum (keys : List κ) (key : α → κ) (l : List α) :
    ((filled keys (countBy key l)).map Prod.snd).sum = l.length := by
  rw [filled_sum (countBy_nodup l), countBy_sum]

theorem table_valueAt (keys : List κ) (key : α → κ) (l : List α) (k : κ) :
    valueAt k (filled keys (countBy key l)) = (l.filter fun a => key a = k).length := by
  by_cases present : k ∈ l.map key
  · apply filled_valueAt (countBy_nodup l)
    rw [countBy, groupBy, List.map_map]
    exact List.mem_map.mpr ⟨k, List.mem_dedup.mpr present, rfl⟩
  · have nowhere : (l.filter fun a => key a = k) = [] := by
      rw [List.filter_eq_nil_iff]
      intro a mem same
      exact present (of_decide_eq_true same ▸ List.mem_map_of_mem mem)
    rw [nowhere, filled_absent]
    · rfl
    · rwa [countBy_keys, List.mem_dedup]

end

end RelationalQueries
