import Mathlib.Data.List.Perm.Basic

/-!
Taking from the ends of several piles in turn, up to a budget: the loop over an
index, and the order in which it takes the elements, pile by pile and round by
round.
-/
namespace RoundRobin
variable {α : Type}

/-- The loop; none when the fuel is used up. A pile that is empty is passed over. -/
def roundRobin : Nat → List (List α) → Nat → Nat → Option (List α)
  | 0, _, _, _ => none
  | fuel + 1, piles, index, budget =>
    if 0 < budget ∧ piles.any (fun pile => !pile.isEmpty) then
      let i := index % piles.length
      let pile := piles[i]?.getD []
      match pile.getLast? with
      | some a =>
        (roundRobin fuel (piles.set i pile.dropLast) (index + 1) (budget - 1)).map (a :: ·)
      | none => roundRobin fuel piles (index + 1) budget
    else some []

def rounds : Nat → List (List α) → List α
  | 0, _ => []
  | k + 1, piles => piles.filterMap List.getLast? ++ rounds k (piles.map List.dropLast)

def order (piles : List (List α)) : List α := rounds piles.flatten.length piles

theorem tops_perm (piles : List (List α)) :
    piles.flatten.Perm (piles.filterMap List.getLast? ++ (piles.map List.dropLast).flatten) := by
  induction piles with
  | nil => exact List.Perm.refl _
  | cons pile piles ih =>
    rcases List.eq_nil_or_concat pile with rfl | ⟨pile, a, rfl⟩
    · rw [List.filterMap_cons_none rfl]
      simpa using ih
    · simp only [List.concat_eq_append, List.flatten_cons, List.map_cons, List.dropLast_concat,
        List.filterMap_cons, List.getLast?_concat, List.append_assoc, List.cons_append]
      have moved : (pile ++ a :: piles.flatten).Perm (a :: (pile ++ piles.flatten)) :=
        List.perm_middle
      refine moved.trans (List.Perm.cons a ?_)
      have later := (List.Perm.refl pile).append ih
      refine later.trans ?_
      rw [← List.append_assoc, ← List.append_assoc]
      exact List.perm_append_comm.append_right _

theorem rounds_perm {k : Nat} {piles : List (List α)} (enough : ∀ pile ∈ piles, pile.length ≤ k) :
    (rounds k piles).Perm piles.flatten := by
  induction k generalizing piles with
  | zero =>
    have empty : piles.flatten = [] := by
      rw [List.flatten_eq_nil_iff]
      exact fun pile member => List.length_eq_zero_iff.mp (Nat.le_zero.mp (enough pile member))
    rw [empty]
    exact List.Perm.refl _
  | succ k ih =>
    refine List.Perm.trans ?_ (tops_perm piles).symm
    rw [rounds]
    refine (List.Perm.refl _).append (ih ?_)
    intro pile member
    obtain ⟨whole, listed, rfl⟩ := List.mem_map.mp member
    have := enough whole listed
    rw [List.length_dropLast]
    omega

theorem length_le_flatten {piles : List (List α)} {pile : List α} (member : pile ∈ piles) :
    pile.length ≤ piles.flatten.length := by
  exact (List.sublist_flatten_of_mem member).length_le

theorem order_perm (piles : List (List α)) : (order piles).Perm piles.flatten :=
  rounds_perm fun _ member => length_le_flatten member

theorem rounds_empty {piles : List (List α)} (empty : ∀ pile ∈ piles, pile = []) (k : Nat) :
    rounds k piles = [] := by
  apply List.Perm.eq_nil
  have enough : ∀ pile ∈ piles, pile.length ≤ k := fun pile member => by simp [empty pile member]
  have nothing : piles.flatten = [] := List.flatten_eq_nil_iff.mpr empty
  exact nothing ▸ rounds_perm enough

theorem roundRobin_stop {fuel index budget : Nat} {piles : List (List α)}
    (ended : budget = 0 ∨ ∀ pile ∈ piles, pile = []) :
    roundRobin (fuel + 1) piles index budget = some [] := by
  rw [roundRobin, if_neg]
  rintro ⟨positive, filled⟩
  rcases ended with rfl | empty
  · exact Nat.lt_irrefl _ positive
  · obtain ⟨pile, member, nonempty⟩ := List.any_eq_true.mp filled
    simp [empty pile member] at nonempty

section Round
variable {k : Nat}

/-- In the middle of a round: `done` have been served in it, `todo` not yet. -/
def Served (k : Nat) (done todo : List (List α)) : Prop :=
  ∀ q budget extra,
    roundRobin (todo.length + k * (done ++ todo).length + 1 + extra) (done ++ todo)
        (q * (done ++ todo).length + done.length) budget =
      some ((todo.filterMap List.getLast? ++ rounds k (done ++ todo.map List.dropLast)).take budget)

theorem served_cons {pile : List α} {done todo : List (List α)}
    (later : Served k (done ++ [pile.dropLast]) todo) : Served k done (pile :: todo) := by
  intro q budget extra
  have size : (done ++ pile :: todo).length = (done ++ [pile.dropLast] ++ todo).length := by simp
  have fuel : (pile :: todo).length + k * (done ++ pile :: todo).length + 1 + extra =
      (todo.length + k * (done ++ [pile.dropLast] ++ todo).length + 1 + extra) + 1 := by
    rw [← size, List.length_cons]
    omega
  have next : q * (done ++ pile :: todo).length + done.length + 1 =
      q * (done ++ [pile.dropLast] ++ todo).length + (done ++ [pile.dropLast]).length := by
    have served : (done ++ [pile.dropLast]).length = done.length + 1 := List.length_append
    rw [← size, served]
    rfl
  by_cases ended : budget = 0 ∨ ∀ s ∈ done ++ pile :: todo, s = []
  · rw [fuel, roundRobin_stop ended]
    rcases ended with rfl | empty
    · rw [List.take_zero]
    · have tops : (pile :: todo).filterMap List.getLast? = [] := by
        rw [List.filterMap_eq_nil_iff]
        intro s member
        rw [empty s (List.mem_append_right _ member)]
        rfl
      have below : ∀ s ∈ done ++ (pile :: todo).map List.dropLast, s = [] := by
        intro s member
        rcases List.mem_append.mp member with served | mapped
        · exact empty s (List.mem_append_left _ served)
        · obtain ⟨whole, listed, rfl⟩ := List.mem_map.mp mapped
          rw [empty whole (List.mem_append_right _ listed)]
          rfl
      rw [tops, rounds_empty below, List.append_nil, List.take_nil]
  · rw [not_or] at ended
    obtain ⟨positive, filled⟩ := ended
    have going : 0 < budget ∧
        ((done ++ pile :: todo).any fun s => !s.isEmpty) = true := by
      refine ⟨Nat.pos_of_ne_zero positive, ?_⟩
      simp only [not_forall] at filled
      obtain ⟨s, member, nonempty⟩ := filled
      rw [List.any_eq_true]
      exact ⟨s, member, by simpa using nonempty⟩
    have place : (q * (done ++ pile :: todo).length + done.length) %
        (done ++ pile :: todo).length = done.length := by
      rw [Nat.mul_add_mod', Nat.mod_eq_of_lt]
      rw [List.length_append, List.length_cons]
      omega
    have here : (done ++ pile :: todo)[done.length]?.getD [] = pile := by simp
    have rest : (done ++ pile :: todo).set done.length pile.dropLast =
        done ++ [pile.dropLast] ++ todo := by simp
    rw [fuel, roundRobin, if_pos going]
    simp only [place, here, rest, next]
    cases top : pile.getLast? with
    | none =>
      have empty : pile = [] := List.getLast?_eq_none_iff.mp top
      subst empty
      have found := later q budget extra
      simp only [List.dropLast_nil, List.append_assoc, List.singleton_append] at found ⊢
      rw [found, List.filterMap_cons_none rfl]
      rfl
    | some a =>
      dsimp only
      rw [later q (budget - 1) extra, List.filterMap_cons_some top, Option.map_some]
      obtain ⟨left, rfl⟩ := Nat.exists_eq_succ_of_ne_zero positive
      simp [List.append_assoc]

theorem served_all (wrap : ∀ piles : List (List α), (∀ s ∈ piles, s.length ≤ k) → Served k piles [])
    (todo : List (List α)) : ∀ done : List (List α), (∀ s ∈ done, s.length ≤ k) →
      (∀ s ∈ todo, s.length ≤ k + 1) → Served k done todo := by
  induction todo with
  | nil => exact fun done low _ => wrap done low
  | cons pile todo ih =>
    intro done low high
    apply served_cons
    apply ih
    · intro s member
      rcases List.mem_append.mp member with served | last
      · exact low s served
      · have := high pile List.mem_cons_self
        rw [List.mem_singleton.mp last, List.length_dropLast]
        omega
    · exact fun s member => high s (List.mem_cons_of_mem _ member)

theorem served_round (k : Nat) :
    ∀ piles : List (List α), (∀ s ∈ piles, s.length ≤ k) → Served k piles [] := by
  induction k with
  | zero =>
    intro piles low q budget extra
    have empty : ∀ s ∈ piles, s = [] := fun s member => List.length_eq_zero_iff.mp (by
      have := low s member
      omega)
    have fuel : ([] : List (List α)).length + 0 * (piles ++ []).length + 1 + extra = extra + 1 := by
      rw [List.length_nil]
      omega
    rw [fuel, List.append_nil, roundRobin_stop (Or.inr empty)]
    simp [rounds]
  | succ k ih =>
    intro piles low q budget extra
    have again := served_all ih piles [] (by simp) low (q + 1) budget extra
    simp only [List.nil_append, List.length_nil, Nat.add_zero] at again
    have fuel : ([] : List (List α)).length + (k + 1) * (piles ++ []).length + 1 + extra =
        piles.length + k * piles.length + 1 + extra := by
      rw [List.append_nil, Nat.succ_mul, List.length_nil]
      omega
    have index : q * (piles ++ []).length + piles.length = (q + 1) * piles.length := by
      rw [List.append_nil, Nat.succ_mul]
    rw [fuel, index, List.append_nil, again]
    simp [rounds]

end Round

/-- The loop ends, and has taken in the order of the rounds. -/
theorem roundRobin_eq (piles : List (List α)) (budget : Nat) : ∃ bound, ∀ fuel, bound ≤ fuel →
    roundRobin fuel piles 0 budget = some ((order piles).take budget) := by
  have low : ∀ pile ∈ piles, pile.length ≤ piles.flatten.length :=
    fun _ member => length_le_flatten member
  rcases Nat.eq_zero_or_eq_succ_pred piles.flatten.length with none | more
  · refine ⟨1, fun fuel enough => ?_⟩
    obtain ⟨fuel, rfl⟩ := Nat.exists_eq_succ_of_ne_zero (Nat.pos_iff_ne_zero.mp enough)
    have empty : ∀ pile ∈ piles, pile = [] := by
      intro pile member
      have := low pile member
      exact List.length_eq_zero_iff.mp (by omega)
    rw [roundRobin_stop (Or.inr empty), order, rounds_empty empty, List.take_nil]
  · rw [more] at low
    have served := served_all (served_round piles.flatten.length.pred) piles [] (by simp) low
    refine ⟨piles.length + piles.flatten.length.pred * piles.length + 1, fun fuel enough => ?_⟩
    have found := served 0 budget (fuel - (piles.length +
      piles.flatten.length.pred * piles.length + 1))
    simp only [List.nil_append, List.length_nil, Nat.zero_mul, Nat.add_zero] at found
    rw [Nat.add_sub_cancel' enough] at found
    rw [found, order, more]
    rfl

theorem roundRobin_mem {fuel index budget : Nat} {piles : List (List α)} {taken : List α}
    (served : roundRobin fuel piles index budget = some taken) : ∀ a ∈ taken, a ∈ piles.flatten := by
  induction fuel generalizing piles index budget taken with
  | zero => cases served
  | succ fuel ih =>
    rw [roundRobin] at served
    split at served
    · dsimp only at served
      split at served
      · rename_i a last
        obtain ⟨rest, later, rfl⟩ := Option.map_eq_some_iff.mp served
        have inside : ∀ b ∈ piles[index % piles.length]?.getD [], b ∈ piles.flatten := by
          intro b member
          cases found : piles[index % piles.length]? with
          | none =>
            rw [found] at member
            cases member
          | some pile =>
            rw [found] at member
            exact List.mem_flatten.mpr ⟨pile, List.mem_of_getElem? found, member⟩
        intro b member
        rcases List.mem_cons.mp member with rfl | there
        · exact inside b (List.mem_of_getLast? last)
        · obtain ⟨pile, listed, own⟩ := List.mem_flatten.mp (ih later b there)
          rcases List.mem_or_eq_of_mem_set listed with old | rfl
          · exact List.mem_flatten.mpr ⟨pile, old, own⟩
          · exact inside b ((List.dropLast_sublist _).subset own)
      · exact ih served
    · cases served
      simp

end RoundRobin
