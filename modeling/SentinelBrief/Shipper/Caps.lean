import SentinelBrief.Shipper.AssembleSafety

/-!
The two caps of `build_payload`. Every list of events that is ever written for
a session is a front of the events fed to it and the last of them, so cutting
one event at a time, cutting once and halving all keep the same shape.
-/
namespace ShipperCaps
open ShipperAssemble Utf8Text JsonText

variable {cfg : AssemblerConfig} {s : OpenSession}

theorem firstAndLast_length {n : Nat} (events : List Json) (short : n < events.length) :
    (firstAndLast n events).length = n + 1 := (firstAndLast_sublist events short).2

theorem firstAndLast_last {n : Nat} {events : List Json} (some : events ≠ []) :
    (firstAndLast n events).getLast? = events.getLast? := by
  rw [firstAndLast, List.getLast?_eq_some_getLast some]
  simp

theorem firstAndLast_all {events : List Json} (some : events ≠ []) :
    firstAndLast (events.length - 1) events = events := by
  rw [firstAndLast, List.getLast?_eq_some_getLast some, ← List.dropLast_eq_take]
  exact List.dropLast_append_getLast some

theorem firstAndLast_twice {m n : Nat} {events : List Json} (le : m ≤ n)
    (short : n < events.length) :
    firstAndLast m (firstAndLast n events) = firstAndLast m events := by
  have some : events ≠ [] := by
    rintro rfl
    simp at short
  have front : (firstAndLast n events).take m = events.take m := by
    rw [firstAndLast, List.take_append_of_le_length (by rw [List.length_take]; omega),
      List.take_take, Nat.min_eq_left le]
  rw [firstAndLast, front, firstAndLast_last some, firstAndLast]

/-- `kept` is a front of the events and the last of them; the front is empty only if there is
    just one event. -/
def FrontAndLast (kept events : List Json) : Prop :=
  ∃ n, n < events.length ∧ (0 < n ∨ events.length = 1) ∧ kept = firstAndLast n events

theorem frontAndLast_all {events : List Json} (some : events ≠ []) :
    FrontAndLast events events := by
  have positive := List.length_pos_iff.mpr some
  exact ⟨events.length - 1, by omega, by omega, (firstAndLast_all some).symm⟩

theorem frontAndLast_first {kept events : List Json} {n : Nat} (shape : FrontAndLast kept events)
    (positive : 0 < n) (short : n < kept.length) :
    FrontAndLast (firstAndLast n kept) events := by
  obtain ⟨m, inside, _, rfl⟩ := shape
  rw [firstAndLast_length events inside] at short
  exact ⟨n, by omega, .inl positive, firstAndLast_twice (by omega) inside⟩

theorem frontAndLast_ends {kept events : List Json} (shape : FrontAndLast kept events) :
    kept.head? = events.head? ∧ kept.getLast? = events.getLast? ∧ kept.Sublist events := by
  obtain ⟨n, inside, front, rfl⟩ := shape
  have some : events ≠ [] := List.length_pos_iff.mp (by omega)
  refine ⟨?_, firstAndLast_last some, (firstAndLast_sublist events inside).1⟩
  rcases front with positive | single
  · rw [firstAndLast, List.head?_append, List.head?_take, if_neg (by omega),
      List.head?_eq_some_head some]
    rfl
  · obtain ⟨event, rfl⟩ := List.length_eq_one_iff.mp single
    cases n with
    | zero => rfl
    | succ n => simp at inside

theorem frontAndLast_cap {events : List Json} (some : events ≠ []) :
    FrontAndLast (capEvents cfg events) events := by
  have two := cfg.two_events
  unfold capEvents
  split
  · exact frontAndLast_first (frontAndLast_all some) (by omega) (by omega)
  · exact frontAndLast_all some

theorem frontAndLast_halve {kept events : List Json} (shape : FrontAndLast kept events)
    (many : 2 < kept.length) : FrontAndLast (halveEvents kept) events :=
  frontAndLast_first shape (by omega) (by omega)

/-- Past the cap the event before the last one goes, which is what the cap leaves out. -/
theorem cap_append (cfg : AssemblerConfig) (events : List Json) (event : Json) :
    capEvents cfg (events ++ [event]) =
      if cfg.maxEvents < (capEvents cfg events).length + 1 then
        (capEvents cfg events).dropLast ++ [event]
      else capEvents cfg events ++ [event] := by
  have two := cfg.two_events
  have last : (events ++ [event]).getLast? = some event := by simp
  unfold capEvents
  by_cases over_now : cfg.maxEvents < events.length
  · have size := firstAndLast_length (n := cfg.maxEvents - 1) events (by omega)
    have some : events ≠ [] := List.length_pos_iff.mp (by omega)
    rw [if_pos over_now, if_pos (by rw [List.length_append]; omega), if_pos (by omega),
      firstAndLast, last, List.take_append_of_le_length (by omega), firstAndLast,
      List.getLast?_eq_some_getLast some]
    simp
  · rw [if_neg over_now, List.length_append, List.length_singleton]
    by_cases full : cfg.maxEvents < events.length + 1
    · rw [if_pos full, if_pos full, firstAndLast, last,
        List.take_append_of_le_length (by omega), List.dropLast_eq_take]
      simp [show cfg.maxEvents - 1 = events.length - 1 by omega]
    · rw [if_neg full, if_neg full]

def appendAll (cfg : AssemblerConfig) (s : OpenSession) (events : List (Json × Int)) :
    OpenSession :=
  events.foldl (fun s e => s.append cfg e.1 e.2) s

structure CappedOnce (cfg : AssemblerConfig) (s : OpenSession) (fed : List Json) : Prop where
  events : s.events = capEvents cfg fed
  dropped : s.droppedEvents + (capEvents cfg fed).length = fed.length

theorem cappedOnce_append {fed : List Json} (inv : CappedOnce cfg s fed) (event : Json) (now : Int) :
    CappedOnce cfg (s.append cfg event now) (fed ++ [event]) := by
  have two := cfg.two_events
  have step := cap_append cfg fed event
  obtain ⟨events, dropped⟩ := inv
  constructor
  · rw [step]
    unfold OpenSession.append
    rw [events]
    split <;> rfl
  · rw [step]
    unfold OpenSession.append
    rw [events]
    split
    · simp only [List.length_append, List.length_dropLast, List.length_singleton]
      omega
    · simp only [List.length_append, List.length_singleton]
      omega

@[simp] theorem append_sessionId (event : Json) (now : Int) :
    (s.append cfg event now).sessionId = s.sessionId := by
  unfold OpenSession.append
  split <;> rfl

@[simp] theorem append_srcIp (event : Json) (now : Int) :
    (s.append cfg event now).srcIp = s.srcIp := by
  unfold OpenSession.append
  split <;> rfl

@[simp] theorem append_sensor (event : Json) (now : Int) :
    (s.append cfg event now).sensor = s.sensor := by
  unfold OpenSession.append
  split <;> rfl

theorem appendAll_cappedOnce {fed : List Json} (events : List (Json × Int))
    (inv : CappedOnce cfg s fed) :
    CappedOnce cfg (appendAll cfg s events) (fed ++ events.map Prod.fst) ∧
      (appendAll cfg s events).sessionId = s.sessionId ∧ (appendAll cfg s events).srcIp = s.srcIp ∧
      (appendAll cfg s events).sensor = s.sensor := by
  induction events generalizing s fed with
  | nil => simpa [appendAll] using inv
  | cons e events ih =>
    have later := ih (cappedOnce_append inv e.1 e.2)
    simp only [append_sessionId, append_srcIp, append_sensor] at later
    simpa [appendAll, List.append_assoc] using later

/-- The loop ends by its own condition: fuel past the number of events changes nothing. -/
theorem fitPayload_fuel {total fuel fuel' : Nat} {events : List Json} {payload : Bytes}
    (enough : events.length ≤ fuel) (enough' : events.length ≤ fuel') :
    fitPayload cfg s total fuel events payload = fitPayload cfg s total fuel' events payload := by
  induction fuel generalizing fuel' events payload with
  | zero =>
    cases fuel' with
    | zero => rfl
    | succ fuel' =>
      simp only [fitPayload]
      rw [if_neg (by omega)]
  | succ fuel ih =>
    cases fuel' with
    | zero =>
      simp only [fitPayload]
      rw [if_neg (by omega)]
    | succ fuel' =>
      simp only [fitPayload]
      split
      · rename_i large
        obtain ⟨_, shorter⟩ := halveEvents_sublist large.2
        cases dumps cfg (envelope s (halveEvents events)
            (some (total - (halveEvents events).length))) with
        | error e => rfl
        | ok bytes => exact ih (by omega) (by omega)
      · rfl

theorem fitPayload_shape {total fuel : Nat} {fed events kept : List Json} {payload bytes : Bytes}
    (shape : FrontAndLast events fed) (enough : events.length ≤ fuel)
    (written : dumps cfg (envelope s events (some (total - events.length))) = .ok payload)
    (fits : fitPayload cfg s total fuel events payload = .ok (kept, bytes)) :
    FrontAndLast kept fed ∧ kept.length ≤ events.length ∧
      dumps cfg (envelope s kept (some (total - kept.length))) = .ok bytes ∧
      (bytes.length ≤ cfg.maxPayloadBytes ∨ kept.length ≤ 2) := by
  induction fuel generalizing events payload with
  | zero =>
    cases fits
    exact ⟨shape, Nat.le_refl _, written, .inr (by omega)⟩
  | succ fuel ih =>
    simp only [fitPayload] at fits
    split at fits
    · rename_i large
      obtain ⟨_, shorter⟩ := halveEvents_sublist large.2
      split at fits
      · cases fits
      · rename_i again
        obtain ⟨shaped, fewer, rest⟩ := ih (frontAndLast_halve shape large.2) (by omega) again fits
        exact ⟨shaped, by omega, rest⟩
    · cases fits
      exact ⟨shape, Nat.le_refl _, written, by omega⟩

theorem dumps_size {value : Json} {bytes : Bytes} (ok : dumps cfg value = .ok bytes) :
    bytes.length = octets value.text := by
  unfold dumps encode at ok
  split at ok
  · cases ok
  · split at ok
    · cases ok
    · rename_i found
      split at found
      · cases found
        cases ok
        rfl
      · cases found

theorem shipper_key_size {events : List Json} {n : Nat} {without with_key : Bytes}
    (short : dumps cfg (envelope s events none) = .ok without)
    (long : dumps cfg (envelope s events (some n)) = .ok with_key) :
    without.length ≤ with_key.length := by
  rw [dumps_size short, dumps_size long, envelope, envelope, List.append_nil]
  exact octets_obj_append _ _

theorem envelope_shipper (events : List Json) (truncated : Option Nat) :
    (envelope s events truncated).get? (str "shipper") = truncated.map fun n =>
      .obj [(str "version", .str shipperVersion), (str "truncated_events", .int n)] := by
  cases truncated <;> rfl

theorem envelope_events (events : List Json) (truncated : Option Nat) :
    (envelope s events truncated).get? (str "events") = some (.arr events) := by
  cases truncated <;> rfl

theorem fitPayload_ids {t : OpenSession} (same : envelope t = envelope s)
    (total fuel : Nat) (events : List Json) (payload : Bytes) :
    fitPayload cfg t total fuel events payload = fitPayload cfg s total fuel events payload := by
  induction fuel generalizing events payload with
  | zero => rfl
  | succ fuel ih => simp only [fitPayload, same, ih]

theorem capEvents_bounded (cfg : AssemblerConfig) (events : List Json) :
    (capEvents cfg events).length ≤ cfg.maxEvents := by
  have two := cfg.two_events
  unfold capEvents
  split
  · rw [firstAndLast_length events (by omega)]
    omega
  · omega

theorem capEvents_twice (events : List Json) :
    capEvents cfg (capEvents cfg events) = capEvents cfg events := by
  have small := capEvents_bounded cfg events
  generalize capEvents cfg events = kept at small
  rw [capEvents, if_neg (by omega)]

/-- The payload does not show whether the cap was applied event by event or once. -/
theorem buildPayload_once {fed : List Json} (inv : CappedOnce cfg s fed) :
    buildPayload cfg s = buildPayload cfg { s with events := fed, droppedEvents := 0 } := by
  have total : s.events.length + s.droppedEvents = fed.length := by
    have dropped := inv.dropped
    rw [inv.events]
    omega
  have ids : envelope { s with events := fed, droppedEvents := 0 } = envelope s := rfl
  simp only [buildPayload, total, Nat.add_zero, ids, fitPayload_ids ids]
  rw [inv.events, capEvents_twice]

theorem buildPayload_shape {fed : List Json} {bytes : Bytes} {truncated : Bool} (some_fed : fed ≠ [])
    (inv : CappedOnce cfg s fed) (built : buildPayload cfg s = .ok (bytes, truncated)) :
    ∃ kept, FrontAndLast kept fed ∧ (bytes.length ≤ cfg.maxPayloadBytes ∨ kept.length ≤ 2) ∧
      dumps cfg (envelope s kept (if 0 < fed.length - kept.length
        then some (fed.length - kept.length) else none)) = .ok bytes ∧
      (truncated = true ↔ 0 < fed.length - kept.length) := by
  have ids : envelope { s with events := fed, droppedEvents := 0 } = envelope s := rfl
  rw [buildPayload_once inv] at built
  simp only [buildPayload, Nat.add_zero, ids, fitPayload_ids ids] at built
  split at built
  · cases built
  · rename_i first written
    split at built
    · cases built
    · rename_i kept final fits
      obtain ⟨shape, _, again, small⟩ := fitPayload_shape (frontAndLast_cap some_fed) (Nat.le_refl _)
        written fits
      split at built
      · rename_i some_dropped
        cases built
        exact ⟨kept, shape, small, by rw [if_pos some_dropped]; exact again, by simpa using some_dropped⟩
      · rename_i none_dropped
        split at built
        · cases built
        · rename_i last
          cases built
          refine ⟨kept, shape, ?_, by rw [if_neg none_dropped]; exact last, by simpa using none_dropped⟩
          have shorter := shipper_key_size last again
          omega

structure Caps (cfg : AssemblerConfig) (s : OpenSession) (fed : List Json) : Prop where
  once : s.events = capEvents cfg fed ∧
    s.droppedEvents = fed.length - (capEvents cfg fed).length ∧
    buildPayload cfg s = buildPayload cfg { s with events := fed, droppedEvents := 0 }
  terminates : ∀ total events payload fuel, events.length ≤ fuel →
    fitPayload cfg s total fuel events payload =
      fitPayload cfg s total events.length events payload
  returns : (∃ out, buildPayload cfg s = .ok out) ↔ Dumpable cfg s (capEvents cfg fed)
  payload : ∀ bytes truncated, buildPayload cfg s = .ok (bytes, truncated) →
    ∃ kept env, dumps cfg env = .ok bytes ∧ env.get? (str "events") = some (.arr kept) ∧
      (∃ n, n < fed.length ∧ (0 < n ∨ fed.length = 1) ∧
        kept = fed.take n ++ fed.getLast?.toList) ∧
      (bytes.length ≤ cfg.maxPayloadBytes ∨ kept.length ≤ 2) ∧
      env.get? (str "shipper") = if 0 < fed.length - kept.length then
        some (.obj [(str "version", .str shipperVersion),
          (str "truncated_events", .int (fed.length - kept.length : Nat))]) else none

theorem caps_of_cappedOnce {fed : List Json} (some_fed : fed ≠ []) (inv : CappedOnce cfg s fed) :
    Caps cfg s fed where
  once := by
    have dropped := inv.dropped
    exact ⟨inv.events, by omega, buildPayload_once inv⟩
  terminates total events payload fuel enough := fitPayload_fuel enough (Nat.le_refl _)
  returns := by rw [buildPayload_ok_iff, inv.events, capEvents_twice]
  payload bytes truncated built := by
    obtain ⟨kept, shape, small, written, _⟩ := buildPayload_shape some_fed inv built
    refine ⟨kept, _, written, envelope_events _ _, shape, small, ?_⟩
    rw [envelope_shipper]
    split <;> rfl

/-- `build_payload` on a session that `feed` has given its events one by one. -/
theorem payload_capped (cfg : AssemblerConfig) (s₀ : OpenSession) (first : Json × Int)
    (rest : List (Json × Int)) :
    Caps cfg (appendAll cfg { s₀ with events := [], droppedEvents := 0 } (first :: rest))
      ((first :: rest).map Prod.fst) := by
  have start : CappedOnce cfg { s₀ with events := [], droppedEvents := 0 } [] := ⟨rfl, rfl⟩
  obtain ⟨inv, -⟩ := appendAll_cappedOnce (first :: rest) start
  exact caps_of_cappedOnce (List.cons_ne_nil _ _) inv

end ShipperCaps
