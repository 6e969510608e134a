import SentinelBrief.Shipper.AssembleSafety

/-!
Book-keeping over the assembler's calls: which events were fed to the sessions
that are open, were shipped, or were dropped. It is no part of the program; it
only says where an event has gone that `events` no longer holds.
-/
namespace ShipperAssemble
open Utf8Text JsonText

structure Shipment where
  session : OpenSession
  fed : List Json
  payload : Bytes

structure Ledger where
  opened : List (Key × Json) := []
  shipped : List Shipment := []
  dropped : List (OpenSession × List Json) := []

def Ledger.fedTo (l : Ledger) (key : Key) : List Json :=
  (l.opened.filter fun x => x.1 = key).map (·.2)

/-- A session leaves the dict: with a payload it was shipped, without one dropped. -/
def Ledger.leave (l : Ledger) (key : Key) (s : OpenSession) (payloads : List Bytes) : Ledger :=
  { opened := l.opened.filter fun x => x.1 ≠ key,
    shipped := l.shipped ++ payloads.map fun payload => ⟨s, l.fedTo key, payload⟩,
    dropped := if payloads = [] then l.dropped ++ [(s, l.fedTo key)] else l.dropped }

def Ledger.enter (l : Ledger) (key : Key) (event : Json) : Ledger :=
  { l with opened := l.opened ++ [(key, event)] }

def eventOf (cfg : AssemblerConfig) (line : PyStr) : Option Json :=
  match loads cfg.loadLimit line with
  | .ok event => if isEvent event then some event else none
  | .error _ => none

def Ledger.afterFeed (cfg : AssemblerConfig) (line : PyStr) (now : Int) (a : SessionAssembler)
    (payloads : List Bytes) (l : Ledger) : Ledger :=
  match eventOf cfg line with
  | none => l
  | some event => match keyOf (field "session" event) with
    | none => l
    | some key =>
      if isText (field "eventid" event) closedEvent then
        (l.enter key event).leave key (joined cfg key event now a) payloads
      else l.enter key event

def Ledger.afterFlush (cfg : AssemblerConfig) : List Key → SessionAssembler → Ledger → Ledger
  | [], _, l => l
  | key :: keys, a, l => match a.session? key with
    | none => l
    | some s => match ship cfg s (a.forget key) with
      | .error _ => l
      | .ok (payloads, a) => Ledger.afterFlush cfg keys a (l.leave key s payloads)

def Ledger.events (l : Ledger) : List Json :=
  l.opened.map (·.2) ++ (l.shipped.flatMap (·.fed) ++ l.dropped.flatMap (·.2))

def Shipment.Complete (cfg : AssemblerConfig) (sh : Shipment) : Prop :=
  ∃ kept truncated, Payload cfg sh.session sh.payload truncated kept ∧ kept.Sublist sh.fed ∧
    sh.fed.length = sh.session.events.length + sh.session.droppedEvents

def Holds (s : OpenSession) (fed : List Json) : Prop :=
  s.events.Sublist fed ∧ fed.length = s.events.length + s.droppedEvents

structure Books (cfg : AssemblerConfig) (a : SessionAssembler) (l : Ledger) : Prop where
  distinct : a.Distinct
  sessions : ∀ key s, a.session? key = some s → Holds s (l.fedTo key)
  known : ∀ x ∈ l.opened, (a.session? x.1).isSome
  shipments : ∀ sh ∈ l.shipped, sh.Complete cfg
  unconnected : ∀ d ∈ l.dropped, d.1.hasConnect = false ∧ Holds d.1 d.2
  dropped : a.droppedNoConnect = l.dropped.length

variable {cfg : AssemblerConfig} {s : OpenSession} {a a' : SessionAssembler} {l : Ledger}

theorem books_start : Books cfg {} {} where
  distinct := List.nodup_nil
  sessions key s found := by cases found
  known x member := by cases member
  shipments sh member := by cases member
  unconnected d member := by cases member
  dropped := rfl

@[simp] theorem fedTo_enter_same (key : Key) (event : Json) :
    (l.enter key event).fedTo key = l.fedTo key ++ [event] := by
  simp [Ledger.fedTo, Ledger.enter]

@[simp] theorem fedTo_enter_other {key other : Key} (event : Json) (ne : other ≠ key) :
    (l.enter key event).fedTo other = l.fedTo other := by
  simp [Ledger.fedTo, Ledger.enter, ne.symm]

@[simp] theorem fedTo_leave_other {key other : Key} (payloads : List Bytes) (ne : other ≠ key) :
    (l.leave key s payloads).fedTo other = l.fedTo other := by
  simp only [Ledger.fedTo, Ledger.leave, List.filter_filter]
  congr 2
  funext x
  by_cases same : x.1 = other
  · simp [same, ne]
  · simp [same]

theorem store_session?_same (key : Key) (s : OpenSession) (a : SessionAssembler) :
    (a.store key s).session? key = some s := by
  have found : ∀ entries, (setSession key s entries).find? (fun entry => entry.1 == key) =
      some (key, s) := by
    intro entries
    induction entries with
    | nil => simp [setSession]
    | cons entry entries ih =>
      simp only [setSession]
      split
      · simp
      · rename_i other
        rw [List.find?_cons_of_neg (by simpa using other)]
        exact ih
  simp [SessionAssembler.session?, SessionAssembler.store, found]

theorem store_session?_other {key other : Key} (s : OpenSession) (a : SessionAssembler)
    (ne : other ≠ key) : (a.store key s).session? other = a.session? other := by
  have found : ∀ entries, (setSession key s entries).find? (fun entry => entry.1 == other) =
      entries.find? (fun entry => entry.1 == other) := by
    intro entries
    induction entries with
    | nil => simp [setSession, ne.symm]
    | cons entry entries ih =>
      simp only [setSession]
      split
      · rename_i same
        simp [same, ne.symm]
      · by_cases here : entry.1 = other
        · simp [here]
        · rw [List.find?_cons_of_neg (by simpa using here), ih,
            List.find?_cons_of_neg (by simpa using here)]
  simp [SessionAssembler.session?, SessionAssembler.store, found]

theorem holds_append {fed : List Json} (holds : Holds s fed) (event : Json) (now : Int) :
    Holds (s.append cfg event now) (fed ++ [event]) := by
  obtain ⟨sub, size⟩ := holds
  have two := cfg.two_events
  unfold OpenSession.append Holds
  split
  · refine ⟨((List.dropLast_sublist _).trans sub).append (List.Sublist.refl _), ?_⟩
    simp only [List.length_append, List.length_dropLast, List.length_singleton]
    omega
  · refine ⟨sub.append (List.Sublist.refl _), ?_⟩
    simp only [List.length_append, List.length_singleton]
    omega

theorem holds_joined (books : Books cfg a l) (key : Key) (event : Json) (now : Int) :
    Holds (joined cfg key event now a) ((l.enter key event).fedTo key) := by
  rw [fedTo_enter_same]
  apply holds_append
  cases found : a.session? key with
  | some s => exact books.sessions key s found
  | none =>
    have none : l.fedTo key = [] := by
      simp only [Ledger.fedTo, List.map_eq_nil_iff, List.filter_eq_nil_iff]
      intro x member
      have some := books.known x member
      simp only [decide_eq_true_eq]
      rintro rfl
      simp [found] at some
    rw [none]
    exact ⟨List.Sublist.refl _, rfl⟩

theorem books_enter (books : Books cfg a l) (key : Key) (event : Json) (now : Int) :
    Books cfg (a.store key (joined cfg key event now a)) (l.enter key event) where
  distinct := distinct_store books.distinct _ _
  sessions other s found := by
    by_cases same : other = key
    · subst same
      rw [store_session?_same, Option.some.injEq] at found
      exact found ▸ holds_joined books other event now
    · rw [store_session?_other _ _ same] at found
      rw [fedTo_enter_other _ same]
      exact books.sessions other s found
  known x member := by
    by_cases same : x.1 = key
    · rw [same, store_session?_same]
      rfl
    · rw [store_session?_other _ _ same]
      rcases List.mem_append.mp member with old | new
      · exact books.known x old
      · rw [List.mem_singleton] at new
        exact absurd (by rw [new]) same
  shipments := books.shipments
  unconnected := books.unconnected
  dropped := books.dropped

theorem ship_cases {payloads : List Bytes} (shipped : ship cfg s a = .ok (payloads, a')) :
    (∃ bytes truncated, buildPayload cfg s = .ok (bytes, truncated) ∧ payloads = [bytes] ∧
      a'.droppedNoConnect = a.droppedNoConnect) ∨
    (s.hasConnect = false ∧ payloads = [] ∧ a'.droppedNoConnect = a.droppedNoConnect + 1) := by
  unfold ship at shipped
  split at shipped
  · split at shipped
    · cases shipped
    · rename_i bytes truncated built
      cases shipped
      refine .inl ⟨bytes, truncated, built, rfl, ?_⟩
      split <;> rfl
  · rename_i unconnected
    cases shipped
    exact .inr ⟨by simpa using unconnected, rfl, rfl⟩

theorem books_leave {key : Key} {payloads : List Bytes} (books : Books cfg a l)
    (found : a.session? key = some s) (shipped : ship cfg s (a.forget key) = .ok (payloads, a')) :
    Books cfg a' (l.leave key s payloads) := by
  have holds := books.sessions key s found
  have frame := ship_sessions shipped
  have others : ∀ other, other ≠ key → a'.session? other = a.session? other := by
    intro other ne
    rw [← forget_session?_ne (a := a) ne]
    simp only [SessionAssembler.session?, frame.1]
  have left : a'.session? key = none := by
    simp [SessionAssembler.session?, frame.1, SessionAssembler.forget]
  have distinct := ship_distinct shipped (distinct_forget books.distinct _)
  have sessions : ∀ other t, a'.session? other = some t →
      Holds t ((l.leave key s payloads).fedTo other) := by
    intro other t open_t
    have ne : other ≠ key := by
      rintro rfl
      simp [left] at open_t
    rw [others other ne] at open_t
    rw [fedTo_leave_other _ ne]
    exact books.sessions other t open_t
  have known : ∀ x ∈ (l.leave key s payloads).opened, (a'.session? x.1).isSome := by
    intro x member
    simp only [Ledger.leave, List.mem_filter, decide_eq_true_eq] at member
    rw [others x.1 member.2]
    exact books.known x member.1
  rcases ship_cases shipped with ⟨bytes, truncated, built, rfl, count⟩ | ⟨unconnected, rfl, count⟩
  · refine ⟨distinct, sessions, known, ?_, books.unconnected, count.trans books.dropped⟩
    intro sh member
    simp only [Ledger.leave, List.map_cons, List.map_nil, List.mem_append, List.mem_singleton]
      at member
    rcases member with old | rfl
    · exact books.shipments sh old
    · obtain ⟨kept, written⟩ := buildPayload_payload built
      exact ⟨kept, truncated, written, written.some_events.trans holds.1, holds.2⟩
  · refine ⟨distinct, sessions, known, ?_, ?_, ?_⟩
    · intro sh member
      simp only [Ledger.leave, List.map_nil, List.append_nil] at member
      exact books.shipments sh member
    · intro d member
      simp only [Ledger.leave, if_true, List.mem_append, List.mem_singleton] at member
      rcases member with old | rfl
      · exact books.unconnected d old
      · exact ⟨unconnected, holds⟩
    · simp [Ledger.leave, count, SessionAssembler.forget, books.dropped]

structure Entered (cfg : AssemblerConfig) (a' : SessionAssembler) (l l' : Ledger)
    (payloads : List Bytes) (events : List Json) : Prop where
  books : Books cfg a' l'
  events : l'.events.Perm (l.events ++ events)
  payloads : l'.shipped.map (·.payload) = l.shipped.map (·.payload) ++ payloads

theorem entered_nothing (books : Books cfg a l) : Entered cfg a l l [] [] :=
  ⟨books, by simp, by simp⟩

theorem entered_trans {a₁ : SessionAssembler} {l₁ l₂ : Ledger} {first later : List Bytes}
    {events more : List Json} (left : Entered cfg a₁ l l₁ first events)
    (right : Entered cfg a' l₁ l₂ later more) :
    Entered cfg a' l l₂ (first ++ later) (events ++ more) where
  books := right.books
  events := by
    rw [← List.append_assoc]
    exact right.events.trans (left.events.append_right _)
  payloads := by rw [right.payloads, left.payloads, List.append_assoc]

theorem events_enter (l : Ledger) (key : Key) (event : Json) :
    (l.enter key event).events.Perm (l.events ++ [event]) := by
  simp only [Ledger.events, Ledger.enter, List.map_append, List.map_cons, List.map_nil]
  rw [List.append_assoc, List.append_assoc]
  exact List.Perm.append_left _ List.perm_append_comm

theorem events_leave (l : Ledger) (key : Key) (s : OpenSession) {payloads : List Bytes}
    (one : payloads.length ≤ 1) : (l.leave key s payloads).events.Perm l.events := by
  have opened : ((l.opened.filter fun x => x.1 ≠ key).map (·.2) ++ l.fedTo key).Perm
      (l.opened.map (·.2)) := by
    rw [Ledger.fedTo, ← List.map_append]
    refine List.Perm.map _ (List.perm_append_comm.trans ?_)
    simpa using List.filter_append_perm (fun x => decide (x.1 = key)) l.opened
  rcases payloads with _ | ⟨payload, _ | ⟨_, _⟩⟩
  · refine List.Perm.trans ?_ (opened.append_right _)
    simp only [Ledger.leave, Ledger.events, List.map_nil, List.append_nil, if_true,
      List.flatMap_append, List.flatMap_cons, List.flatMap_nil]
    rw [List.append_assoc]
    refine List.Perm.append_left _ ?_
    rw [← List.append_assoc]
    exact List.perm_append_comm
  · refine List.Perm.trans ?_ (opened.append_right _)
    simp only [Ledger.leave, Ledger.events, List.map_cons, List.map_nil, List.cons_ne_nil,
      if_false, List.flatMap_append, List.flatMap_cons, List.flatMap_nil, List.append_nil]
    rw [List.append_assoc, List.append_assoc]
    refine List.Perm.append_left _ ?_
    rw [← List.append_assoc, ← List.append_assoc]
    exact List.perm_append_comm.append_right _
  · simp at one

theorem ship_one {payloads : List Bytes} (shipped : ship cfg s a = .ok (payloads, a')) :
    payloads.length ≤ 1 := by
  rcases ship_cases shipped with ⟨_, _, _, rfl, _⟩ | ⟨_, rfl, _⟩ <;> simp

theorem entered_leave {key : Key} {payloads : List Bytes} (books : Books cfg a l)
    (found : a.session? key = some s) (shipped : ship cfg s (a.forget key) = .ok (payloads, a')) :
    Entered cfg a' l (l.leave key s payloads) payloads [] where
  books := books_leave books found shipped
  events := by simpa using events_leave l key s (ship_one shipped)
  payloads := by simp [Ledger.leave, Function.comp_def]

theorem entered_enter (books : Books cfg a l) (key : Key) (event : Json) (now : Int) :
    Entered cfg (a.store key (joined cfg key event now a)) l (l.enter key event) [] [event] :=
  ⟨books_enter books key event now, events_enter l key event, by simp [Ledger.enter]⟩

theorem entered_feed {line : PyStr} {now : Int} {payloads : List Bytes} (books : Books cfg a l)
    (fed : feed cfg line now a = .ok (payloads, a')) :
    Entered cfg a' l (l.afterFeed cfg line now a payloads) payloads (eventOf cfg line).toList := by
  have skipped : Entered cfg { a with parseErrors := a.parseErrors + 1 } l l [] [] :=
    entered_nothing ⟨books.distinct, books.sessions, books.known, books.shipments,
      books.unconnected, books.dropped⟩
  unfold feed at fed
  unfold Ledger.afterFeed
  cases read : loads cfg.loadLimit line with
  | error e =>
    have none : eventOf cfg line = none := by simp [eventOf, read]
    rw [none]
    cases e <;> simp only [read, reduceCtorEq, Except.ok.injEq, Prod.mk.injEq] at fed
    obtain ⟨rfl, rfl⟩ := fed
    exact skipped
  | ok event =>
    simp only [read] at fed
    by_cases usable : isEvent event
    · have some : eventOf cfg line = some event := by simp [eventOf, read, usable]
      rw [some]
      simp only [usable, if_true] at fed
      cases key : keyOf (field "session" event) with
      | none => simp [key] at fed
      | some k =>
        simp only [key, fold] at fed
        have entered := entered_enter books k event now
        by_cases closed : isText (field "eventid" event) closedEvent
        · simp only [key, closed, if_true] at fed ⊢
          exact entered_trans entered
            (entered_leave entered.books (store_session?_same _ _ _) fed)
        · simp only [key, closed] at fed ⊢
          cases fed
          exact entered
    · have none : eventOf cfg line = none := by simp [eventOf, read, usable]
      rw [none]
      simp only [usable] at fed
      cases fed
      exact skipped

theorem entered_flush {keys : List Key} {payloads : List Bytes} (books : Books cfg a l)
    (flushed : flush cfg keys a = .ok (payloads, a')) :
    Entered cfg a' l (l.afterFlush cfg keys a) payloads [] := by
  induction keys generalizing a l payloads with
  | nil =>
    cases flushed
    exact entered_nothing books
  | cons key keys ih =>
    simp only [flush] at flushed
    cases found : a.session? key with
    | none => simp [found] at flushed
    | some s =>
      simp only [found] at flushed
      cases shipped : ship cfg s (a.forget key) with
      | error e => simp [shipped] at flushed
      | ok out =>
        obtain ⟨first, a₁⟩ := out
        simp only [shipped] at flushed
        cases rest : flush cfg keys a₁ with
        | error e => simp [rest] at flushed
        | ok more =>
          obtain ⟨later, a₂⟩ := more
          simp only [rest, Except.ok.injEq, Prod.mk.injEq] at flushed
          obtain ⟨rfl, rfl⟩ := flushed
          have left := entered_leave books found shipped
          simp only [Ledger.afterFlush, found, shipped]
          exact entered_trans left (ih left.books rest)

theorem flush_sessions {keys : List Key} {payloads : List Bytes}
    (flushed : flush cfg keys a = .ok (payloads, a')) :
    a'.sessions = a.sessions.filter fun entry => entry.1 ∉ keys := by
  induction keys generalizing a payloads with
  | nil =>
    cases flushed
    simp
  | cons key keys ih =>
    simp only [flush] at flushed
    cases found : a.session? key with
    | none => simp [found] at flushed
    | some s =>
      simp only [found] at flushed
      cases shipped : ship cfg s (a.forget key) with
      | error e => simp [shipped] at flushed
      | ok out =>
        obtain ⟨first, a₁⟩ := out
        simp only [shipped] at flushed
        cases rest : flush cfg keys a₁ with
        | error e => simp [rest] at flushed
        | ok more =>
          obtain ⟨later, a₂⟩ := more
          simp only [rest, Except.ok.injEq, Prod.mk.injEq] at flushed
          obtain ⟨rfl, rfl⟩ := flushed
          rw [ih rest, (ship_sessions shipped).1, SessionAssembler.forget, List.filter_filter]
          congr 1
          funext entry
          simp [Bool.and_comm]

end ShipperAssemble
