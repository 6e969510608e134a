import Mathlib.Tactic.Common
import SentinelBrief.Library.Runs
import SentinelBrief.Library.Utf8

/-!
`GET /api/v1/stream` (`api/routes/stream.py`): the route takes a slot of the
`StreamGate` and `verdict_event_stream` gives it back in its `finally`. A body is
described by the point at which its generator is suspended; a response is
finished when its body has ended or is dropped. `render` is
`render_verdict_event` on a channel message.
-/
namespace ApiStream
open Utf8Text StepRuns

structure StreamGate where
  limit : Nat
  active : Nat := 0

def StreamGate.acquire (g : StreamGate) : Bool × StreamGate :=
  if g.limit ≤ g.active then (false, g) else (true, { g with active := g.active + 1 })

def StreamGate.release (g : StreamGate) : StreamGate := { g with active := g.active - 1 }

inductive Position where
  | refused
  /-- The route returned; the generator has not been advanced. -/
  | unstarted
  | subscribing
  | reading
  | yielded
  /-- In the inner `finally`, waiting for `_close_pubsub`. -/
  | closing
  | ended
  | dropped
  deriving DecidableEq

structure Stream where
  position : Position
  sent : List PyStr := []
  releases : Nat := 0

structure Streams where
  gate : StreamGate
  streams : List Stream := []

inductive BodyEvent where
  | advance
  | pubsubRaises
  | subscribed
  | subscribeRaises
  /-- `get_message` returned `None` or timed out. -/
  | idle
  | message (raw : PyStr)
  | redisError
  | pubsubClosed
  /-- A disconnect, a cancellation or a shutdown. -/
  | cancel

inductive Event where
  | request
  | body (i : Nat) (e : BodyEvent)

def formatComment (text : PyStr) : PyStr := str ": " ++ text ++ str "\n\n"

def heartbeatComment : PyStr := str "heartbeat"

def Streams.put (w : Streams) (i : Nat) (s : Stream) : Streams :=
  { w with streams := w.streams.set i s }

/-- The outer `finally` of stream `i`. -/
def Streams.finish (w : Streams) (i : Nat) (s : Stream) : Streams :=
  { w with gate := w.gate.release,
           streams := w.streams.set i { s with position := .ended, releases := s.releases + 1 } }

/-- `stream_verdicts`. -/
def Streams.request (w : Streams) : Streams :=
  match w.gate.acquire with
  | (false, gate) => { gate := gate, streams := w.streams ++ [{ position := .refused }] }
  | (true, gate) => { gate := gate, streams := w.streams ++ [{ position := .unstarted }] }

section
variable (render : PyStr → Option PyStr)

/-- `verdict_event_stream` with the server around it. -/
def bodyStep (w : Streams) (i : Nat) (s : Stream) : BodyEvent → Option Streams
  | .advance => match s.position with
    | .unstarted => some (w.put i { s with position := .subscribing })
    | .yielded => some (w.put i { s with position := .reading })
    | _ => none
  | .pubsubRaises => match s.position with
    | .unstarted => some (w.finish i s)
    | _ => none
  | .subscribed => match s.position with
    | .subscribing => some (w.put i { s with position := .reading })
    | _ => none
  | .subscribeRaises => match s.position with
    | .subscribing => some (w.put i { s with position := .closing })
    | _ => none
  | .idle => match s.position with
    | .reading => some (w.put i { s with position := .yielded,
                                         sent := s.sent ++ [formatComment heartbeatComment] })
    | _ => none
  | .message raw => match s.position with
    | .reading => match render raw with
      | none => some w
      | some frame => some (w.put i { s with position := .yielded, sent := s.sent ++ [frame] })
    | _ => none
  | .redisError => match s.position with
    | .reading => some (w.put i { s with position := .closing })
    | _ => none
  | .pubsubClosed => match s.position with
    | .closing => some (w.finish i s)
    | _ => none
  | .cancel => match s.position with
    | .unstarted => some (w.put i { s with position := .dropped })
    | .subscribing | .reading | .yielded => some (w.put i { s with position := .closing })
    | .closing => some (w.finish i s)
    | _ => none

def step (w : Streams) : Event → Option Streams
  | .request => some w.request
  | .body i e => match w.streams[i]? with
    | none => none
    | some s => bodyStep render w i s e

end

def Stream.granted (s : Stream) : Bool := s.position ≠ .refused

def Stream.finished (s : Stream) : Bool := match s.position with
  | .ended | .dropped => true
  | _ => false

def Stream.isOpen (s : Stream) : Bool := s.granted && !s.finished

/-- No disconnect comes between the return of the route and the first advance of the body. -/
def Advanced (w : Streams) : Event → Prop
  | .body i .cancel => ∀ s, w.streams[i]? = some s → s.position ≠ .unstarted
  | _ => True

instance (w : Streams) : (e : Event) → Decidable (Advanced w e)
  | .body i .cancel =>
    inferInstanceAs (Decidable (∀ s ∈ w.streams[i]?, s.position ≠ .unstarted))
  | .request | .body _ .advance | .body _ .pubsubRaises | .body _ .subscribed
  | .body _ .subscribeRaises | .body _ .idle | .body _ (.message _) | .body _ .redisError
  | .body _ .pubsubClosed => .isTrue trivial

def Streams.openCount (w : Streams) : Nat := w.streams.countP Stream.isOpen

def Stream.holdsSlot (s : Stream) : Bool := s.isOpen || s.position = .dropped

structure Inv (w : Streams) : Prop where
  active : w.gate.active = w.streams.countP Stream.holdsSlot
  bounded : w.gate.active ≤ w.gate.limit
  matched : ∀ s ∈ w.streams, s.releases = if s.position = .ended then 1 else 0

variable {render : PyStr → Option PyStr} {w w' : Streams} {i : Nat} {s s' : Stream}

/-- Everything a step of a body can do. -/
theorem body_cases {e : BodyEvent} (taken : bodyStep render w i s e = some w') :
    w' = w ∨
    (∃ s', w' = w.put i s' ∧ s.isOpen = true ∧ s'.isOpen = true ∧ s'.releases = s.releases) ∨
    (s.isOpen = true ∧ w' = w.finish i s) ∨
    (e = .cancel ∧ s.position = .unstarted ∧ w' = w.put i { s with position := .dropped }) := by
  obtain ⟨position, sent, releases⟩ := s
  cases e with
  | message raw =>
    simp only [bodyStep] at taken
    split at taken
    · split at taken
      · exact .inl (Option.some.inj taken).symm
      · exact .inr (.inl ⟨_, (Option.some.inj taken).symm, rfl, rfl, rfl⟩)
    · cases taken
  | advance | subscribed | subscribeRaises | idle | redisError =>
    cases position <;> first
      | exact .inr (.inl ⟨_, (Option.some.inj taken).symm, rfl, rfl, rfl⟩)
      | cases taken
  | pubsubRaises | pubsubClosed =>
    cases position <;> first
      | exact .inr (.inr (.inl ⟨rfl, (Option.some.inj taken).symm⟩))
      | cases taken
  | cancel =>
    cases position with
    | refused | ended | dropped => cases taken
    | unstarted => exact .inr (.inr (.inr ⟨rfl, rfl, (Option.some.inj taken).symm⟩))
    | subscribing | reading | yielded =>
      exact .inr (.inl ⟨_, (Option.some.inj taken).symm, rfl, rfl, rfl⟩)
    | closing => exact .inr (.inr (.inl ⟨rfl, (Option.some.inj taken).symm⟩))

theorem holdsSlot_of_isOpen (opened : s.isOpen = true) : s.holdsSlot = true := by
  rw [Stream.holdsSlot, opened]
  rfl

theorem countP_put (found : w.streams[i]? = some s) (holds : s.holdsSlot = true)
    (holds' : s'.holdsSlot = true) :
    (w.put i s').streams.countP Stream.holdsSlot = w.streams.countP Stream.holdsSlot := by
  obtain ⟨bound, eq⟩ := List.getElem?_eq_some_iff.mp found
  have positive : 0 < w.streams.countP Stream.holdsSlot :=
    List.countP_pos_iff.mpr ⟨s, List.mem_of_getElem? found, holds⟩
  rw [Streams.put, List.countP_set bound, eq, holds, holds']
  simp only [if_true]
  omega

theorem inv_put (inv : Inv w) (found : w.streams[i]? = some s) (holds : s.holdsSlot = true)
    (holds' : s'.holdsSlot = true) (ended : s'.position ≠ .ended) (zero : s'.releases = 0) :
    Inv (w.put i s') := by
  refine ⟨?_, inv.bounded, ?_⟩
  · rw [countP_put found holds holds']
    exact inv.active
  · intro t mem
    rcases List.mem_or_eq_of_mem_set mem with old | rfl
    · exact inv.matched t old
    · rw [zero, if_neg ended]

theorem inv_finish (inv : Inv w) (found : w.streams[i]? = some s) (opened : s.isOpen = true)
    (zero : s.releases = 0) : Inv (w.finish i s) := by
  obtain ⟨bound, eq⟩ := List.getElem?_eq_some_iff.mp found
  have ended : Stream.holdsSlot { s with position := .ended, releases := s.releases + 1 } = false :=
    rfl
  refine ⟨?_, ?_, ?_⟩
  · rw [Streams.finish, List.countP_set bound, eq, holdsSlot_of_isOpen opened, ended,
      StreamGate.release, inv.active]
    simp
  · have bounded := inv.bounded
    rw [Streams.finish, StreamGate.release]
    simp only
    omega
  · intro t mem
    rcases List.mem_or_eq_of_mem_set mem with old | rfl
    · exact inv.matched t old
    · simp [zero]

theorem releases_open (inv : Inv w) (found : w.streams[i]? = some s) (opened : s.isOpen = true) :
    s.releases = 0 := by
  rw [inv.matched s (List.mem_of_getElem? found), if_neg]
  intro ended
  rw [Stream.isOpen, Stream.finished, ended] at opened
  simp at opened

theorem inv_body {e : BodyEvent} (inv : Inv w) (found : w.streams[i]? = some s)
    (taken : bodyStep render w i s e = some w') : Inv w' := by
  rcases body_cases taken with rfl | ⟨s', rfl, opened, later, same⟩ | ⟨opened, rfl⟩ |
    ⟨-, unstarted, rfl⟩
  · exact inv
  · have zero : s'.releases = 0 := same.trans (releases_open inv found opened)
    apply inv_put inv found (holdsSlot_of_isOpen opened) (holdsSlot_of_isOpen later) _ zero
    intro ended
    rw [Stream.isOpen, Stream.finished, ended] at later
    simp at later
  · exact inv_finish inv found opened (releases_open inv found opened)
  · have opened : s.isOpen = true := by
      rw [Stream.isOpen, Stream.granted, Stream.finished, unstarted]
      rfl
    have zero := releases_open inv found opened
    exact inv_put inv found (holdsSlot_of_isOpen opened) rfl (by simp) zero

theorem inv_request (inv : Inv w) : Inv w.request := by
  have active := inv.active
  have bounded := inv.bounded
  unfold Streams.request StreamGate.acquire
  by_cases full : w.gate.limit ≤ w.gate.active
  · simp only [if_pos full]
    refine ⟨?_, bounded, ?_⟩
    · rw [List.countP_append, active]
      rfl
    · intro t mem
      rcases List.mem_append.mp mem with old | new
      · exact inv.matched t old
      · rw [List.mem_singleton.mp new]
        rfl
  · simp only [if_neg full]
    refine ⟨?_, by simp only; omega, ?_⟩
    · rw [List.countP_append, active]
      rfl
    · intro t mem
      rcases List.mem_append.mp mem with old | new
      · exact inv.matched t old
      · rw [List.mem_singleton.mp new]
        rfl

theorem inv_step {e : Event} (inv : Inv w) (taken : step render w e = some w') : Inv w' := by
  cases e with
  | request =>
    cases taken
    exact inv_request inv
  | body i e =>
    simp only [step] at taken
    split at taken
    · cases taken
    · rename_i s found
      exact inv_body inv found taken

def start (limit : Nat) : Streams := { gate := { limit := limit } }

theorem reach_inv {limit : Nat} (reached : Reach (step render) anyStep (start limit) w) : Inv w := by
  apply reach_invariant Inv _ (fun _ _ _ inv _ taken => inv_step inv taken) reached
  exact ⟨rfl, Nat.zero_le _, fun s mem => absurd mem List.not_mem_nil⟩

theorem undropped_step {e : Event} (undropped : ∀ s ∈ w.streams, s.position ≠ .dropped)
    (met : Advanced w e) (taken : step render w e = some w') :
    ∀ s ∈ w'.streams, s.position ≠ .dropped := by
  cases e with
  | request =>
    cases taken
    unfold Streams.request
    split <;>
    · intro t mem
      rcases List.mem_append.mp mem with old | new
      · exact undropped t old
      · rw [List.mem_singleton.mp new]
        simp
  | body i e =>
    simp only [step] at taken
    split at taken
    · cases taken
    · rename_i s found
      rcases body_cases taken with rfl | ⟨s', rfl, -, later, -⟩ | ⟨-, rfl⟩ | ⟨rfl, unstarted, -⟩
      · exact undropped
      · intro t mem dropped
        rcases List.mem_or_eq_of_mem_set mem with old | rfl
        · exact undropped t old dropped
        · rw [Stream.isOpen, Stream.finished, dropped] at later
          simp at later
      · intro t mem
        rcases List.mem_or_eq_of_mem_set mem with old | rfl
        · exact undropped t old
        · simp
      · exact absurd unstarted (met s found)

theorem reach_undropped {limit : Nat}
    (reached : Reach (step render) Advanced (start limit) w) :
    ∀ s ∈ w.streams, s.position ≠ .dropped := by
  apply reach_invariant (fun w => ∀ s ∈ w.streams, s.position ≠ .dropped) _
    (fun _ _ _ undropped met taken => undropped_step undropped met taken) reached
  exact fun s mem => absurd mem List.not_mem_nil

theorem openCount_eq (undropped : ∀ s ∈ w.streams, s.position ≠ .dropped) :
    w.streams.countP Stream.holdsSlot = w.openCount := by
  apply List.countP_congr
  intro s mem
  simp [Stream.holdsSlot, undropped s mem]

theorem limit_step {e : Event} (taken : step render w e = some w') :
    w'.gate.limit = w.gate.limit := by
  cases e with
  | request =>
    cases taken
    unfold Streams.request StreamGate.acquire
    by_cases full : w.gate.limit ≤ w.gate.active <;> simp [full]
  | body i e =>
    simp only [step] at taken
    split at taken
    · cases taken
    · rcases body_cases taken with rfl | ⟨s', rfl, -⟩ | ⟨-, rfl⟩ | ⟨-, -, rfl⟩ <;> rfl

theorem reach_limit {ok : Streams → Event → Prop} {limit : Nat}
    (reached : Reach (step render) ok (start limit) w) : w.gate.limit = limit :=
  reach_invariant (fun w => w.gate.limit = limit) rfl
    (fun _ _ _ eq _ taken => (limit_step taken).trans eq) reached

/-- In every run in which no body is dropped before its first advance the slots in use are those
of the open streams, each is given back once, and a stream is refused only while all are in use. -/
theorem slots_kept {limit : Nat} (reached : Reach (step render) Advanced (start limit) w) :
    w.gate.active = w.openCount ∧
    (∀ s ∈ w.streams, s.granted = true → s.releases = if s.finished then 1 else 0) ∧
    (w.request.streams = w.streams ++ [{ position := .refused }] → w.openCount = limit) := by
  have inv := reach_inv (reach_weaken (fun _ _ _ => trivial) reached)
  have undropped := reach_undropped reached
  have active : w.gate.active = w.openCount := inv.active.trans (openCount_eq undropped)
  refine ⟨active, ?_, ?_⟩
  · intro s mem granted
    have alive := undropped s mem
    rw [inv.matched s mem, Stream.finished]
    cases eq : s.position <;> simp_all
  · intro refused
    have bounded := inv.bounded
    have limits := reach_limit reached
    unfold Streams.request StreamGate.acquire at refused
    by_cases full : w.gate.limit ≤ w.gate.active
    · omega
    · simp [full] at refused

def reconnect : List Event :=
  [.request, .body 0 .advance, .body 0 .subscribed, .body 0 .idle, .body 0 .cancel,
    .body 0 .pubsubClosed, .request]

theorem slots_kept_reconnect :
    ∃ w, runIf (step fun _ => none) Advanced (start 1) reconnect = some w ∧ w.streams.length = 2 ∧
      w.gate.active = 1 ∧ w.gate.active = w.openCount := by
  have facts : (runIf (step fun _ => none) Advanced (start 1) reconnect).map
      (fun w => (w.streams.length, w.gate.active)) = some (2, 1) := by decide +kernel
  rcases ran : runIf (step fun _ => none) Advanced (start 1) reconnect with _ | w
  · rw [ran] at facts
    cases facts
  · rw [ran, Option.map_some, Option.some.injEq, Prod.mk.injEq] at facts
    exact ⟨w, rfl, facts.1, facts.2, (slots_kept (runIf_reaches .start ran)).1⟩

/-- The client leaves before the body is advanced: its slot stays taken and the next one is
refused although no stream is open. -/
theorem slot_leaked :
    ∃ w, run (step fun _ => none) (start 1) [.request, .body 0 .cancel, .request] = some w ∧
      w.gate.active = 1 ∧ w.openCount = 0 ∧
      w.streams.map (·.position) = [.dropped, .refused] ∧ w.streams.map (·.releases) = [0, 0] := by
  refine ⟨_, rfl, ?_⟩
  decide

end ApiStream
