import Mathlib.Data.List.Infix

/-!
A queue that is served from the front. An attempt on the head either takes it
off the queue or, when its answer asks for a retry, ends the service with the
head still in place. `Replays` follows a history of puts and services.
-/
namespace FifoQueue
variable {α β : Type}

/-- `Serves retry q atts left`: one service of `q` makes the attempts `atts` and leaves `left`. -/
inductive Serves (retry : β → Bool) : List α → List (α × β) → List α → Prop where
  | done : Serves retry [] [] []
  | stop {x : α} {b : β} (rest : List α) (again : retry b = true) :
      Serves retry (x :: rest) [(x, b)] (x :: rest)
  | take {x : α} {b : β} {rest left : List α} {atts : List (α × β)} (final : retry b = false)
      (later : Serves retry rest atts left) : Serves retry (x :: rest) ((x, b) :: atts) left

inductive Entry (α β : Type) where
  | put (x : α)
  | serve (atts : List (α × β))

inductive Replays (retry : β → Bool) : List α → List (Entry α β) → List α → Prop where
  | nil (q : List α) : Replays retry q [] q
  | put {q q' : List α} {x : α} {h : List (Entry α β)} (later : Replays retry (q ++ [x]) h q') :
      Replays retry q (.put x :: h) q'
  | serve {q left q' : List α} {atts : List (α × β)} {h : List (Entry α β)}
      (now : Serves retry q atts left) (later : Replays retry left h q') :
      Replays retry q (.serve atts :: h) q'

variable {retry : β → Bool} {q q' left : List α} {atts : List (α × β)}

/-- What was served is a front of the queue; if anything is left its head was tried last. -/
theorem serves_parts (served : Serves retry q atts left) :
    ∃ front : List (α × β), (∀ a ∈ front, retry a.2 = false) ∧ q = front.map Prod.fst ++ left ∧
      ((left = [] ∧ atts = front) ∨
        ∃ x rest b, left = x :: rest ∧ retry b = true ∧ atts = front ++ [(x, b)]) := by
  induction served with
  | done => exact ⟨[], by simp, rfl, .inl ⟨rfl, rfl⟩⟩
  | stop rest again => exact ⟨[], by simp, rfl, .inr ⟨_, rest, _, rfl, again, rfl⟩⟩
  | @take x b rest left atts final later ih =>
    obtain ⟨front, all, eq, last⟩ := ih
    refine ⟨(x, b) :: front, ?_, by simp [eq], ?_⟩
    · intro a member
      rcases List.mem_cons.mp member with rfl | old
      · exact final
      · exact all a old
    · rcases last with ⟨none, same⟩ | ⟨y, more, c, some, again, same⟩
      · exact .inl ⟨none, by rw [same]⟩
      · exact .inr ⟨y, more, c, some, again, by rw [same]; rfl⟩

theorem serves_posted (served : Serves retry q atts left) : atts.map Prod.fst <+: q := by
  obtain ⟨front, _, eq, last⟩ := serves_parts served
  rcases last with ⟨_, rfl⟩ | ⟨x, rest, b, rfl, _, rfl⟩
  · rw [eq]
    exact List.prefix_append _ _
  · rw [eq]
    simp

theorem serves_head {x : α} (served : Serves retry (x :: q) atts left) :
    atts.head?.map Prod.fst = some x := by
  cases served <;> rfl

theorem replays_append {h h' : List (Entry α β)} :
    Replays retry q (h ++ h') q' ↔
      ∃ mid, Replays retry q h mid ∧ Replays retry mid h' q' := by
  induction h generalizing q with
  | nil =>
    constructor
    · exact fun later => ⟨q, .nil q, later⟩
    · rintro ⟨mid, now, later⟩
      cases now
      exact later
  | cons e h ih =>
    constructor
    · intro all
      cases all with
      | put later =>
        obtain ⟨mid, first, rest⟩ := ih.mp later
        exact ⟨mid, .put first, rest⟩
      | serve now later =>
        obtain ⟨mid, first, rest⟩ := ih.mp later
        exact ⟨mid, .serve now first, rest⟩
    · rintro ⟨mid, first, rest⟩
      cases first with
      | put first => exact .put (ih.mpr ⟨mid, first, rest⟩)
      | serve now first => exact .serve now (ih.mpr ⟨mid, first, rest⟩)

theorem replays_puts {xs : List α} (all : Replays retry q (xs.map .put) q') : q' = q ++ xs := by
  induction xs generalizing q with
  | nil =>
    cases all
    simp
  | cons x xs ih =>
    cases all with
    | put later => simpa using ih later

theorem serves_leaves {x : α} (served : Serves retry q atts left) (member : x ∈ q) :
    x ∈ left ∨ ∃ b, (x, b) ∈ atts ∧ retry b = false := by
  induction served with
  | done => cases member
  | stop rest again => exact .inl member
  | @take y b rest left atts final later ih =>
    rcases List.mem_cons.mp member with rfl | inside
    · exact .inr ⟨b, List.mem_cons_self, final⟩
    · rcases ih inside with still | ⟨c, tried, done⟩
      · exact .inl still
      · exact .inr ⟨c, List.mem_cons_of_mem _ tried, done⟩

theorem replays_leaves {h : List (Entry α β)} {x : α} (all : Replays retry q h q')
    (known : x ∈ q ∨ .put x ∈ h) :
    x ∈ q' ∨ ∃ atts b, .serve atts ∈ h ∧ (x, b) ∈ atts ∧ retry b = false := by
  induction all with
  | nil q =>
    rcases known with inside | put
    · exact .inl inside
    · cases put
  | @put q q' y h later ih =>
    have inside : x ∈ q ++ [y] ∨ Entry.put x ∈ h := by
      rcases known with old | new
      · exact .inl (List.mem_append_left _ old)
      · rcases List.mem_cons.mp new with same | later
        · cases same
          exact .inl (by simp)
        · exact .inr later
    rcases ih inside with still | ⟨atts, b, served, tried, final⟩
    · exact .inl still
    · exact .inr ⟨atts, b, List.mem_cons_of_mem _ served, tried, final⟩
  | @serve q left q' atts h now later ih =>
    have inside : (x ∈ left ∨ ∃ b, (x, b) ∈ atts ∧ retry b = false) ∨ Entry.put x ∈ h := by
      rcases known with old | new
      · exact .inl (serves_leaves now old)
      · exact .inr ((List.mem_cons.mp new).resolve_left (by simp))
    rcases inside with (still | ⟨b, tried, final⟩) | put
    · rcases ih (.inl still) with still | ⟨more, b, served, tried, final⟩
      · exact .inl still
      · exact .inr ⟨more, b, List.mem_cons_of_mem _ served, tried, final⟩
    · exact .inr ⟨atts, b, List.mem_cons_self, tried, final⟩
    · rcases ih (.inr put) with still | ⟨more, b, served, tried, final⟩
      · exact .inl still
      · exact .inr ⟨more, b, List.mem_cons_of_mem _ served, tried, final⟩

theorem replays_last {h : List (Entry α β)} {xs : List α}
    (all : Replays retry q (h ++ .serve atts :: xs.map .put) q') :
    ∃ mid left, Replays retry q h mid ∧ Serves retry mid atts left ∧ q' = left ++ xs := by
  obtain ⟨mid, before, rest⟩ := replays_append.mp all
  cases rest with
  | serve now later => exact ⟨mid, _, before, now, replays_puts later⟩

theorem serves_stops {front after : List (α × β)} {x : α} {b : β} (again : retry b = true)
    (served : Serves retry q (front ++ (x, b) :: after) left) : after = [] := by
  induction front generalizing q with
  | nil =>
    cases served with
    | stop => rfl
    | take final _ => simp [final] at again
  | cons a front ih =>
    rw [List.cons_append] at served
    generalize tried : front ++ (x, b) :: after = atts at served
    cases served with
    | stop => simp at tried
    | take _ later => exact ih (tried ▸ later)

theorem replays_stops {h later : List (Entry α β)} {front after : List (α × β)} {x : α} {b : β}
    (again : retry b = true)
    (all : Replays retry q (h ++ .serve (front ++ (x, b) :: after) :: later) q') : after = [] := by
  obtain ⟨mid, _, rest⟩ := replays_append.mp all
  cases rest with
  | serve now _ => exact serves_stops again now

theorem replays_next {h h' : List (Entry α β)} {xs : List α} {front next : List (α × β)} {x : α}
    {b : β} (again : retry b = true)
    (all : Replays retry q
      (h ++ .serve (front ++ [(x, b)]) :: (xs.map .put ++ .serve next :: h')) q') :
    next.head?.map Prod.fst = some x := by
  obtain ⟨mid, _, rest⟩ := replays_append.mp all
  cases rest with
  | serve now later =>
    obtain ⟨served, final, _, last⟩ := serves_parts now
    obtain ⟨mid', puts, rest⟩ := replays_append.mp later
    have queue := replays_puts puts
    rcases last with ⟨_, same⟩ | ⟨y, more, c, some, _, same⟩
    · have inside : (x, b) ∈ served := by simp [← same]
      simp [final _ inside] at again
    · have ends := (List.append_inj' same rfl).2
      simp only [List.cons.injEq, Prod.mk.injEq, and_true] at ends
      rw [queue, some, List.cons_append, ← ends.1] at rest
      cases rest with
      | serve now _ => exact serves_head now

end FifoQueue
