import SentinelBrief.Shipper.Assemble

/-!
When the assembler raises, and what a payload holds. Every envelope written
for a session after the first holds fewer events, so the first one decides.
-/
namespace ShipperAssemble
open Utf8Text JsonText

variable {cfg : AssemblerConfig} {s : OpenSession} {a a' : SessionAssembler}

theorem itemsDepth_le {events : List Json} {k : Nat} :
    itemsDepth events ≤ k ↔ ∀ e ∈ events, e.depth ≤ k := by
  induction events with
  | nil => simp [itemsDepth]
  | cons e events ih => simp [itemsDepth, ih]

theorem itemsScalars_iff {events : List Json} :
    itemsScalars events = true ↔ ∀ e ∈ events, e.scalars = true := by
  induction events with
  | nil => simp [itemsScalars]
  | cons e events ih => simp [itemsScalars, ih]

structure Dumpable (cfg : AssemblerConfig) (s : OpenSession) (events : List Json) : Prop where
  ids : s.sessionId.scalars = true ∧ s.srcIp.scalars = true ∧ s.sensor.scalars = true
  texts : ∀ e ∈ events, e.scalars = true
  shallow : s.sessionId.depth + 1 ≤ cfg.dumpLimit ∧ s.srcIp.depth + 1 ≤ cfg.dumpLimit ∧
    s.sensor.depth + 1 ≤ cfg.dumpLimit ∧ 2 ≤ cfg.dumpLimit
  nested : ∀ e ∈ events, e.depth + 2 ≤ cfg.dumpLimit

theorem dumpable_subset {events fewer : List Json} (inv : Dumpable cfg s events)
    (sub : fewer ⊆ events) : Dumpable cfg s fewer :=
  ⟨inv.ids, fun e member => inv.texts e (sub member), inv.shallow,
    fun e member => inv.nested e (sub member)⟩

theorem envelope_scalars (events : List Json) (truncated : Option Nat) :
    (envelope s events truncated).scalars = true ↔
      (s.sessionId.scalars = true ∧ s.srcIp.scalars = true ∧ s.sensor.scalars = true) ∧
      ∀ e ∈ events, e.scalars = true := by
  have names : (∀ name ∈ [str "source", str "session_id", str "src_ip", str "sensor", str "events",
      str "shipper", str "version", str "truncated_events", str "cowrie", shipperVersion],
      (name.all fun cp => decide (Scalar cp)) = true) := by decide
  simp only [List.forall_mem_cons, List.not_mem_nil, false_imp_iff, implies_true, and_true] at names
  obtain ⟨source, id, ip, sensor, event, shipper, version, count, cowrie, number⟩ := names
  cases truncated with
  | none =>
    simp [envelope, Json.scalars, membersScalars, source, id, ip, sensor, event, cowrie,
      itemsScalars_iff, and_assoc]
  | some n =>
    simp [envelope, Json.scalars, membersScalars, source, id, ip, sensor, event, cowrie, shipper,
      version, count, number, itemsScalars_iff, and_assoc]

theorem envelope_depth (cfg : AssemblerConfig) (events : List Json) (truncated : Option Nat) :
    (envelope s events truncated).depth ≤ cfg.dumpLimit ↔
      (s.sessionId.depth + 1 ≤ cfg.dumpLimit ∧ s.srcIp.depth + 1 ≤ cfg.dumpLimit ∧
        s.sensor.depth + 1 ≤ cfg.dumpLimit ∧ 2 ≤ cfg.dumpLimit) ∧
      ∀ e ∈ events, e.depth + 2 ≤ cfg.dumpLimit := by
  have items : itemsDepth events + 2 ≤ cfg.dumpLimit ↔
      2 ≤ cfg.dumpLimit ∧ ∀ e ∈ events, e.depth + 2 ≤ cfg.dumpLimit := by
    constructor
    · intro le
      refine ⟨by omega, fun e member => ?_⟩
      have := itemsDepth_le.mp (Nat.le_refl (itemsDepth events)) e member
      omega
    · rintro ⟨two, all⟩
      have := itemsDepth_le (k := cfg.dumpLimit - 2).mpr fun e member => by
        have := all e member
        omega
      omega
  have sizes : (envelope s events truncated).depth ≤ cfg.dumpLimit ↔
      (s.sessionId.depth + 1 ≤ cfg.dumpLimit ∧ s.srcIp.depth + 1 ≤ cfg.dumpLimit ∧
        s.sensor.depth + 1 ≤ cfg.dumpLimit) ∧ itemsDepth events + 2 ≤ cfg.dumpLimit := by
    cases truncated with
    | none =>
      simp only [envelope, Json.depth, membersDepth, List.append_nil]
      omega
    | some n =>
      simp only [envelope, Json.depth, membersDepth, List.cons_append, List.nil_append]
      omega
  rw [sizes, items]
  tauto

theorem dumps_ok_iff (events : List Json) (truncated : Option Nat) :
    (∃ bytes, dumps cfg (envelope s events truncated) = .ok bytes) ↔ Dumpable cfg s events := by
  have text := encodes_text (envelope s events truncated)
  rw [envelope_scalars] at text
  have depth := envelope_depth cfg (s := s) events truncated
  unfold dumps encode
  constructor
  · rintro ⟨bytes, ok⟩
    split at ok
    · cases ok
    · rename_i shallow
      split at ok
      · cases ok
      · rename_i found
        split at found
        · rename_i encodable
          obtain ⟨ids, texts⟩ := text.mp encodable
          obtain ⟨flat, nested⟩ := depth.mp (by omega)
          exact ⟨ids, texts, flat, nested⟩
        · cases found
  · intro inv
    have shallow := depth.mpr ⟨inv.shallow, inv.nested⟩
    have encodable := text.mpr ⟨inv.ids, inv.texts⟩
    rw [if_neg (by omega), if_pos encodable]
    exact ⟨_, rfl⟩

theorem firstAndLast_sublist {n : Nat} (events : List Json) (short : n < events.length) :
    (firstAndLast n events).Sublist events ∧ (firstAndLast n events).length = n + 1 := by
  have some : events ≠ [] := by
    rintro rfl
    simp at short
  have split := List.dropLast_append_getLast some
  have last : events.getLast?.toList = [events.getLast some] := by
    rw [List.getLast?_eq_some_getLast some]
    rfl
  have front : (events.take n).Sublist events.dropLast := by
    rw [List.dropLast_eq_take]
    exact (List.take_prefix_take_left (by omega)).sublist
  refine ⟨?_, ?_⟩
  · rw [firstAndLast, last]
    conv => rhs; rw [← split]
    exact front.append_right _
  · rw [firstAndLast, last, List.length_append, List.length_take, List.length_singleton]
    omega

theorem capEvents_sublist (cfg : AssemblerConfig) (events : List Json) :
    (capEvents cfg events).Sublist events := by
  have two := cfg.two_events
  unfold capEvents
  split
  · exact (firstAndLast_sublist _ (by omega)).1
  · exact List.Sublist.refl _

theorem halveEvents_sublist {events : List Json} (many : 2 < events.length) :
    (halveEvents events).Sublist events ∧ (halveEvents events).length < events.length := by
  obtain ⟨sub, size⟩ := firstAndLast_sublist (n := max 2 (events.length / 2) - 1)
    events (by omega)
  exact ⟨sub, by rw [halveEvents, size]; omega⟩

/-- The loop ends with some of the events and the payload written from them, within the cap
    or down to two events. -/
theorem fitPayload_ok {total fuel : Nat} {events : List Json} {payload : Bytes}
    (inv : Dumpable cfg s events) (enough : events.length ≤ fuel)
    (written : dumps cfg (envelope s events (some (total - events.length))) = .ok payload) :
    ∃ kept bytes, fitPayload cfg s total fuel events payload = .ok (kept, bytes) ∧
      kept.Sublist events ∧
      dumps cfg (envelope s kept (some (total - kept.length))) = .ok bytes ∧
      (bytes.length ≤ cfg.maxPayloadBytes ∨ kept.length ≤ 2) := by
  induction fuel generalizing events payload with
  | zero =>
    exact ⟨events, payload, rfl, List.Sublist.refl _, written, .inr (by omega)⟩
  | succ fuel ih =>
    simp only [fitPayload]
    split
    · rename_i large
      obtain ⟨sub, shorter⟩ := halveEvents_sublist large.2
      have inv' := dumpable_subset inv sub.subset
      obtain ⟨bytes, again⟩ := (dumps_ok_iff (halveEvents events)
        (some (total - (halveEvents events).length))).mpr inv'
      obtain ⟨kept, final, fits, fewer, rest⟩ := ih inv' (by omega) again
      exact ⟨kept, final, by simp only [again]; exact fits, fewer.trans sub, rest⟩
    · exact ⟨events, payload, rfl, List.Sublist.refl _, written, by omega⟩

structure Payload (cfg : AssemblerConfig) (s : OpenSession) (bytes : Bytes) (truncated : Bool)
    (kept : List Json) : Prop where
  some_events : kept.Sublist s.events
  written : dumps cfg (envelope s kept
    (if truncated then some (s.events.length + s.droppedEvents - kept.length) else none)) = .ok bytes
  counted : truncated = true ↔ 0 < s.events.length + s.droppedEvents - kept.length

theorem buildPayload_ok (inv : Dumpable cfg s (capEvents cfg s.events)) :
    ∃ bytes truncated kept, buildPayload cfg s = .ok (bytes, truncated) ∧
      Payload cfg s bytes truncated kept := by
  obtain ⟨first, written⟩ := (dumps_ok_iff (capEvents cfg s.events)
    (some (s.events.length + s.droppedEvents - (capEvents cfg s.events).length))).mpr inv
  obtain ⟨kept, bytes, fits, sub, again, _⟩ := fitPayload_ok inv (Nat.le_refl _) written
  have whole : kept.Sublist s.events := sub.trans (capEvents_sublist cfg s.events)
  simp only [buildPayload, written, fits]
  split
  · rename_i some
    exact ⟨bytes, true, kept, rfl, whole, by simpa using again, by simpa using some⟩
  · rename_i all
    obtain ⟨final, last⟩ := (dumps_ok_iff kept none).mpr (dumpable_subset inv sub.subset)
    exact ⟨final, false, kept, by simp only [last], whole, by simpa using last, by simpa using all⟩

theorem buildPayload_ok_iff :
    (∃ out, buildPayload cfg s = .ok out) ↔ Dumpable cfg s (capEvents cfg s.events) := by
  constructor
  · rintro ⟨out, ok⟩
    simp only [buildPayload] at ok
    split at ok
    · cases ok
    · rename_i payload written
      exact (dumps_ok_iff _ _).mp ⟨payload, written⟩
  · intro inv
    obtain ⟨bytes, truncated, _, ok, _⟩ := buildPayload_ok inv
    exact ⟨_, ok⟩

theorem buildPayload_payload {bytes : Bytes} {truncated : Bool}
    (built : buildPayload cfg s = .ok (bytes, truncated)) :
    ∃ kept, Payload cfg s bytes truncated kept := by
  obtain ⟨_, _, kept, ok, payload⟩ := buildPayload_ok (buildPayload_ok_iff.mp ⟨_, built⟩)
  rw [built, Except.ok.injEq, Prod.mk.injEq] at ok
  obtain ⟨rfl, rfl⟩ := ok
  exact ⟨kept, payload⟩

theorem ship_ok_iff (cfg : AssemblerConfig) (s : OpenSession) (a : SessionAssembler) :
    (∃ out, ship cfg s a = .ok out) ↔
    (s.hasConnect = true → Dumpable cfg s (capEvents cfg s.events)) := by
  unfold ship
  cases connect : s.hasConnect with
  | false => simp
  | true =>
    simp only [if_true, true_implies]
    rw [← buildPayload_ok_iff]
    constructor
    · rintro ⟨out, ok⟩
      cases built : buildPayload cfg s with
      | error e => simp [built] at ok
      | ok payload => exact ⟨payload, rfl⟩
    · rintro ⟨⟨payload, truncated⟩, built⟩
      simp only [built]
      exact ⟨_, rfl⟩

/-- What a line may not be for `feed` to return: an integer of too many digits, nested too deep,
    an event whose `session` is a list or an object, or one that closes a session which cannot
    be written. -/
structure FeedSafe (cfg : AssemblerConfig) (line : PyStr) (now : Int) (a : SessionAssembler) :
    Prop where
  digits : loads cfg.loadLimit line ≠ .error .value
  shallow : loads cfg.loadLimit line ≠ .error .recursion
  event : ∀ event, loads cfg.loadLimit line = .ok event → isEvent event = true →
    ∃ key, keyOf (field "session" event) = some key ∧
      (isText (field "eventid" event) closedEvent = true →
        (joined cfg key event now a).hasConnect = true →
        Dumpable cfg (joined cfg key event now a)
          (capEvents cfg (joined cfg key event now a).events))

theorem feed_ok_iff {line : PyStr} {now : Int} :
    (∃ out, feed cfg line now a = .ok out) ↔ FeedSafe cfg line now a := by
  simp only [feed]
  cases loaded : loads cfg.loadLimit line with
  | error e =>
    cases e with
    | decode => exact ⟨fun _ => ⟨by simp [loaded], by simp [loaded], by simp [loaded]⟩, fun _ => ⟨_, rfl⟩⟩
    | value => exact ⟨by simp, fun safe => absurd loaded safe.digits⟩
    | recursion => exact ⟨by simp, fun safe => absurd loaded safe.shallow⟩
  | ok event =>
    simp only
    by_cases usable : isEvent event = true
    · rw [if_pos usable]
      cases hashed : keyOf (field "session" event) with
      | none =>
        refine ⟨by simp, fun safe => ?_⟩
        obtain ⟨key, some, _⟩ := safe.event event loaded usable
        simp [hashed] at some
      | some key =>
        simp only [fold]
        have written := ship_ok_iff cfg (joined cfg key event now a)
          ((a.store key (joined cfg key event now a)).forget key)
        constructor
        · rintro ⟨out, ok⟩
          refine ⟨by simp [loaded], by simp [loaded], fun other same _ => ?_⟩
          rw [loaded, Except.ok.injEq] at same
          subst same
          refine ⟨key, hashed, fun closing connect => ?_⟩
          rw [if_pos closing] at ok
          exact written.mp ⟨out, ok⟩ connect
        · intro safe
          obtain ⟨key', same, closes⟩ := safe.event event loaded usable
          rw [hashed, Option.some.injEq] at same
          subst same
          split
          · rename_i closing
            exact written.mpr (closes closing)
          · exact ⟨_, rfl⟩
    · rw [if_neg usable]
      refine ⟨fun _ => ⟨by simp [loaded], by simp [loaded], fun other same yes => ?_⟩, fun _ => ⟨_, rfl⟩⟩
      rw [loaded, Except.ok.injEq] at same
      exact absurd (same ▸ yes) usable

@[simp] theorem forget_session?_ne {key other : Key} (ne : other ≠ key) :
    (a.forget key).session? other = a.session? other := by
  simp only [SessionAssembler.session?, SessionAssembler.forget, List.find?_filter]
  congr 2
  funext entry
  by_cases same : entry.1 = other
  · simp [same, ne]
  · simp [same]

theorem ship_sessions {payloads : List Bytes} (shipped : ship cfg s a = .ok (payloads, a')) :
    a'.sessions = a.sessions ∧ a'.parseErrors = a.parseErrors := by
  unfold ship at shipped
  split at shipped
  · split at shipped
    · cases shipped
    · cases shipped
      split <;> exact ⟨rfl, rfl⟩
  · cases shipped
    exact ⟨rfl, rfl⟩

def FlushSafe (cfg : AssemblerConfig) (keys : List Key) (a : SessionAssembler) : Prop :=
  ∀ key ∈ keys, ∀ s, a.session? key = some s → s.hasConnect = true →
    Dumpable cfg s (capEvents cfg s.events)

theorem flush_ok_iff {keys : List Key} (distinct : keys.Nodup)
    (known : ∀ key ∈ keys, (a.session? key).isSome) :
    (∃ out, flush cfg keys a = .ok out) ↔ FlushSafe cfg keys a := by
  induction keys generalizing a with
  | nil => simp [flush, FlushSafe]
  | cons key keys ih =>
    obtain ⟨s, found⟩ := Option.isSome_iff_exists.mp (known key (by simp))
    obtain ⟨apart, distinct⟩ := List.nodup_cons.mp distinct
    have written := ship_ok_iff cfg s (a.forget key)
    have later : ∀ payloads a', ship cfg s (a.forget key) = .ok (payloads, a') →
        ((∃ out, flush cfg keys a' = .ok out) ↔ FlushSafe cfg keys a) := by
      intro payloads a' shipped
      have same : ∀ other ∈ keys, a'.session? other = a.session? other := by
        intro other member
        have ne : other ≠ key := by
          rintro rfl
          exact apart member
        rw [← forget_session?_ne (a := a) ne]
        simp only [SessionAssembler.session?, (ship_sessions shipped).1]
      rw [ih distinct fun other member => by rw [same other member]; exact known other (by simp [member])]
      unfold FlushSafe
      constructor
      · intro safe other member t open_t
        exact safe other member t (by rw [same other member]; exact open_t)
      · intro safe other member t open_t
        exact safe other member t (by rw [← same other member]; exact open_t)
    simp only [flush, found]
    cases shipped : ship cfg s (a.forget key) with
    | error e =>
      refine ⟨by simp, fun safe => ?_⟩
      obtain ⟨out, ok⟩ := written.mpr (safe key (by simp) s found)
      simp [shipped] at ok
    | ok out =>
      obtain ⟨payloads, a'⟩ := out
      have split : FlushSafe cfg (key :: keys) a ↔
          (s.hasConnect = true → Dumpable cfg s (capEvents cfg s.events)) ∧
          FlushSafe cfg keys a := by
        simp [FlushSafe, found]
      rw [split, ← written, ← later payloads a' shipped]
      simp only [shipped, Except.ok.injEq, exists_eq', true_and]
      cases flushed : flush cfg keys a' with
      | error e => simp
      | ok out => simp

def SessionAssembler.Distinct (a : SessionAssembler) : Prop := (a.sessions.map (·.1)).Nodup

theorem session?_isSome {key : Key} (member : key ∈ a.sessions.map (·.1)) :
    (a.session? key).isSome := by
  obtain ⟨entry, inside, rfl⟩ := List.mem_map.mp member
  rw [SessionAssembler.session?, Option.isSome_map, List.find?_isSome]
  exact ⟨entry, inside, by simp⟩

theorem staleIds_sublist (cfg : AssemblerConfig) (now : Int) (a : SessionAssembler) :
    (a.staleIds cfg now).Sublist (a.sessions.map (·.1)) :=
  List.filter_sublist.map _

theorem flushIdle_ok_iff (now : Int) (distinct : a.Distinct) :
    (∃ out, flushIdle cfg now a = .ok out) ↔ FlushSafe cfg (a.staleIds cfg now) a :=
  flush_ok_iff ((staleIds_sublist cfg now a).nodup distinct)
    fun _ member => session?_isSome ((staleIds_sublist cfg now a).subset member)

theorem flushAll_ok_iff (distinct : a.Distinct) :
    (∃ out, flushAll cfg a = .ok out) ↔ FlushSafe cfg (a.sessions.map (·.1)) a :=
  flush_ok_iff distinct fun _ member => session?_isSome member

theorem setSession_keys (key : Key) (s : OpenSession) (entries : List (Key × OpenSession)) :
    (setSession key s entries).map (·.1) =
      if key ∈ entries.map (·.1) then entries.map (·.1) else entries.map (·.1) ++ [key] := by
  induction entries with
  | nil => simp [setSession]
  | cons entry entries ih =>
    simp only [setSession]
    by_cases same : entry.1 = key
    · simp [same]
    · rw [if_neg same, List.map_cons, ih, List.map_cons]
      have other : ¬ key = entry.1 := fun h => same h.symm
      by_cases inside : key ∈ entries.map (·.1)
      · simp only [inside, if_true, List.mem_cons, or_true]
      · simp only [inside, if_false, List.mem_cons, other, or_self, List.cons_append]

theorem distinct_store (distinct : a.Distinct) (key : Key) (s : OpenSession) :
    (a.store key s).Distinct := by
  unfold SessionAssembler.Distinct SessionAssembler.store
  rw [setSession_keys]
  split
  · exact distinct
  · rename_i fresh
    exact List.Nodup.append distinct (List.nodup_singleton _) (by simpa using fresh)

theorem distinct_forget (distinct : a.Distinct) (key : Key) : (a.forget key).Distinct :=
  List.Nodup.sublist (List.filter_sublist.map _) distinct

theorem ship_distinct {payloads : List Bytes} (shipped : ship cfg s a = .ok (payloads, a'))
    (distinct : a.Distinct) : a'.Distinct := by
  unfold SessionAssembler.Distinct
  rw [(ship_sessions shipped).1]
  exact distinct

theorem feed_distinct {line : PyStr} {now : Int} {payloads : List Bytes}
    (fed : feed cfg line now a = .ok (payloads, a')) (distinct : a.Distinct) : a'.Distinct := by
  unfold feed at fed
  split at fed
  · cases fed
    exact distinct
  · cases fed
  · cases fed
  · split at fed
    · split at fed
      · cases fed
      · simp only [fold] at fed
        split at fed
        · exact ship_distinct fed (distinct_forget (distinct_store distinct _ _) _)
        · cases fed
          exact distinct_store distinct _ _
    · cases fed
      exact distinct

theorem flush_distinct {keys : List Key} {payloads : List Bytes}
    (flushed : flush cfg keys a = .ok (payloads, a')) (distinct : a.Distinct) : a'.Distinct := by
  induction keys generalizing a payloads with
  | nil =>
    cases flushed
    exact distinct
  | cons key keys ih =>
    simp only [flush] at flushed
    split at flushed
    · cases flushed
    · split at flushed
      · cases flushed
      · rename_i shipped
        split at flushed
        · cases flushed
        · rename_i later
          cases flushed
          exact ih later (ship_distinct shipped (distinct_forget distinct _))

def SessionAssembler.withErrors (a : SessionAssembler) (n : Nat) : SessionAssembler :=
  { a with parseErrors := n }

theorem ship_withErrors {payloads : List Bytes} (n : Nat)
    (shipped : ship cfg s a = .ok (payloads, a')) :
    ship cfg s (a.withErrors n) = .ok (payloads, a'.withErrors n) := by
  unfold ship at shipped ⊢
  cases connect : s.hasConnect with
  | false =>
    simp only [connect, Bool.false_eq_true, if_false] at shipped ⊢
    cases shipped
    rfl
  | true =>
    simp only [connect, if_true] at shipped ⊢
    cases built : buildPayload cfg s with
    | error e => simp [built] at shipped
    | ok out =>
      obtain ⟨payload, truncated⟩ := out
      simp only [built] at shipped ⊢
      cases truncated <;> cases shipped <;> rfl

theorem fold_withErrors {key : Key} {event : Json} {now : Int} {payloads : List Bytes} (n : Nat)
    (folded : fold cfg key event now a = .ok (payloads, a')) :
    fold cfg key event now (a.withErrors n) = .ok (payloads, a'.withErrors n) ∧
      a'.parseErrors = a.parseErrors := by
  simp only [fold] at folded ⊢
  split at folded
  · rename_i closing
    rw [if_pos closing]
    exact ⟨ship_withErrors n folded, (ship_sessions folded).2⟩
  · rename_i open_still
    rw [if_neg open_still]
    cases folded
    exact ⟨rfl, rfl⟩

theorem flush_withErrors {keys : List Key} {payloads : List Bytes} (n : Nat)
    (flushed : flush cfg keys a = .ok (payloads, a')) :
    flush cfg keys (a.withErrors n) = .ok (payloads, a'.withErrors n) ∧
      a'.parseErrors = a.parseErrors := by
  induction keys generalizing a payloads with
  | nil =>
    cases flushed
    exact ⟨rfl, rfl⟩
  | cons key keys ih =>
    simp only [flush] at flushed ⊢
    have same : (a.withErrors n).session? key = a.session? key := rfl
    rw [same]
    cases found : a.session? key with
    | none => simp [found] at flushed
    | some s =>
      simp only [found] at flushed ⊢
      cases shipped : ship cfg s (a.forget key) with
      | error e => simp [shipped] at flushed
      | ok out =>
        obtain ⟨first, a₁⟩ := out
        simp only [shipped] at flushed
        have again : ship cfg s ((a.withErrors n).forget key) = .ok (first, a₁.withErrors n) :=
          ship_withErrors n shipped
        cases later : flush cfg keys a₁ with
        | error e => simp [later] at flushed
        | ok out =>
          obtain ⟨rest, a₂⟩ := out
          simp only [later] at flushed
          cases flushed
          obtain ⟨tail, count⟩ := ih later
          simp only [again, tail, true_and]
          rw [count, (ship_sessions shipped).2]
          rfl

end ShipperAssemble
