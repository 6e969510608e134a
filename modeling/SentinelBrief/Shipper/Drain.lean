import Mathlib.Data.Rat.Defs
import Mathlib.Algebra.Order.Ring.Unbundled.Rat
import SentinelBrief.Library.Json
import SentinelBrief.Shipper.Spool

/-!
`Backoff` and `drain` (`main.py`) against an outage. Seconds are exact; only
the float power is partial, as in Python. `drain` keeps what it has done when it
raises. `api` answers the POSTs in turn and `loads` is `json.loads` on the
bytes of a payload.
-/
namespace ShipperDrain
open ShipperSpool Utf8Text JsonText

inductive DrainError where
  | overflow
  | assertion
  | loads
  deriving DecidableEq

inductive BytesError where
  | jsonDecode
  | other
  deriving DecidableEq

structure Backoff where
  baseS : Rat
  maxS : Rat
  consecutive : Nat := 0

/-- `2.0**n`. -/
def powTwo (n : Nat) : Option Rat := if n < 1024 then some (2 ^ n) else none

def Backoff.wait (b : Backoff) : Except DrainError (Rat × Backoff) :=
  match powTwo b.consecutive with
  | some power =>
    .ok (min (b.baseS * power) b.maxS, { b with consecutive := b.consecutive + 1 })
  | none => .error .overflow

def Backoff.reset (b : Backoff) : Backoff := { b with consecutive := 0 }

structure Drainer where
  spool : Spool
  backoff : Backoff
  posts : Nat := 0

section
variable (api : Nat → Bytes → Option Nat) (loads : Bytes → Except BytesError Json)

def sessionIdForLog (payload : Bytes) : Except DrainError PyStr :=
  match loads payload with
  | .error .jsonDecode => .ok (str "unknown")
  | .error .other => .error .loads
  | .ok data => match data.get? (str "session_id") with
    | some (.str id) => .ok id
    | _ => .ok (str "unknown")

def drainFiles : List SpoolFile → Nat → Drainer → Except DrainError Nat × Drainer
  | [], delivered, d => (.ok delivered, d)
  | file :: files, delivered, d =>
    let result := post (api d.posts file.payload)
    let d := { d with posts := d.posts + 1 }
    if result.retry then
      match d.backoff.wait with
      | .ok (_, backoff) => (.ok delivered, { d with backoff := backoff })
      | .error e => (.error e, d)
    else match result.status with
      | none => (.error .assertion, d)
      | some status =>
        if 200 ≤ status ∧ status < 300 then
          let d := { d with spool := d.spool.remove file, backoff := d.backoff.reset }
          match sessionIdForLog loads file.payload with
          | .ok _ => drainFiles files (delivered + 1) d
          | .error e => (.error e, d)
        else drainFiles files delivered { d with spool := d.spool.dead file }

def drain (d : Drainer) : Except DrainError Nat × Drainer :=
  drainFiles api loads d.spool.pending 0 d

/-- `n` calls of `drain` in turn, up to the first that raises. -/
def drainTimes : Nat → Drainer → Except DrainError (List Nat) × Drainer
  | 0, d => (.ok [], d)
  | n + 1, d => match drain api loads d with
    | (.error e, d) => (.error e, d)
    | (.ok delivered, d) => match drainTimes n d with
      | (.error e, d) => (.error e, d)
      | (.ok counts, d) => (.ok (delivered :: counts), d)

end

theorem wait_iff (base max : Rat) (n : Nat) :
    (Backoff.mk base max n).wait = .ok (min (base * 2 ^ n) max, ⟨base, max, n + 1⟩) ↔ n < 1024 := by
  unfold Backoff.wait powTwo
  by_cases small : n < 1024
  · simp [small]
  · simp [small]

variable {api : Nat → Bytes → Option Nat} {loads : Bytes → Except BytesError Json} {d : Drainer}

theorem drain_nil (empty : d.spool.pending = []) : drain api loads d = (.ok 0, d) := by
  rw [drain, empty]
  rfl

theorem drain_outage (retryable : ∀ i payload, (post (api i payload)).retry = true)
    (waiting : d.spool.pending ≠ []) :
    drain api loads d =
      if d.backoff.consecutive < 1024 then
        (.ok 0, { d with posts := d.posts + 1,
                         backoff := { d.backoff with consecutive := d.backoff.consecutive + 1 } })
      else (.error .overflow, { d with posts := d.posts + 1 }) := by
  obtain ⟨file, files, pending⟩ := List.exists_cons_of_ne_nil waiting
  rw [drain, pending]
  simp only [drainFiles, retryable, if_true, Backoff.wait, powTwo]
  by_cases small : d.backoff.consecutive < 1024
  · simp [small]
  · simp [small]

theorem drainTimes_nil (empty : d.spool.pending = []) (n : Nat) :
    drainTimes api loads n d = (.ok (List.replicate n 0), d) := by
  induction n with
  | zero => rfl
  | succ n ih => simp [drainTimes, drain_nil empty, ih, List.replicate_succ]

theorem drainTimes_survives (retryable : ∀ i payload, (post (api i payload)).retry = true) (n : Nat)
    (waiting : d.spool.pending ≠ []) (bound : d.backoff.consecutive + n ≤ 1024) :
    ∃ d', drainTimes api loads n d = (.ok (List.replicate n 0), d') ∧ d'.spool = d.spool := by
  induction n generalizing d with
  | zero => exact ⟨d, rfl, rfl⟩
  | succ n ih =>
    have drained : drain api loads d = _ := drain_outage retryable waiting
    rw [if_pos (by omega)] at drained
    obtain ⟨d', later, same⟩ := ih (d := (drain api loads d).2)
      (by rw [drained]; exact waiting) (by rw [drained]; simp only; omega)
    rw [drained] at later same
    exact ⟨d', by simp [drainTimes, drained, later, List.replicate_succ], same⟩

theorem drainTimes_raises (retryable : ∀ i payload, (post (api i payload)).retry = true) (n : Nat)
    (waiting : d.spool.pending ≠ []) (beyond : 1024 < d.backoff.consecutive + (n + 1)) :
    (drainTimes api loads (n + 1) d).1 = .error .overflow := by
  induction n generalizing d with
  | zero =>
    have drained : drain api loads d = _ := drain_outage retryable waiting
    rw [if_neg (by omega)] at drained
    simp [drainTimes, drained]
  | succ n ih =>
    have drained : drain api loads d = _ := drain_outage retryable waiting
    by_cases small : d.backoff.consecutive < 1024
    · rw [if_pos small] at drained
      have later := ih (d := (drain api loads d).2) (by rw [drained]; exact waiting)
        (by rw [drained]; simp only; omega)
      rw [drained] at later
      rw [drainTimes, drained]
      dsimp only
      split
      · rename_i raised
        rw [raised] at later
        exact later
      · rename_i returned
        rw [returned] at later
        cases later
    · rw [if_neg small] at drained
      rw [drainTimes, drained]

/-- An outage is survived while its waits stay below the float range. -/
theorem outage_survived_iff (api : Nat → Bytes → Option Nat)
    (loads : Bytes → Except BytesError Json)
    (retryable : ∀ i payload, (post (api i payload)).retry = true) (base max : Rat) (n : Nat)
    (d : Drainer) :
    ((Backoff.mk base max n).wait = .ok (min (base * 2 ^ n) max, ⟨base, max, n + 1⟩) ↔
      n < 1024) ∧
    ((∃ d', drainTimes api loads n d = (.ok (List.replicate n 0), d') ∧ d'.spool = d.spool) ↔
      n = 0 ∨ d.backoff.consecutive + n ≤ 1024 ∨ d.spool.pending = []) := by
  refine ⟨wait_iff base max n, ?_⟩
  by_cases empty : d.spool.pending = []
  · exact ⟨fun _ => .inr (.inr empty), fun _ => ⟨d, drainTimes_nil empty n, rfl⟩⟩
  constructor
  · rintro ⟨d', eq, -⟩
    by_contra outside
    obtain ⟨m, rfl⟩ := Nat.exists_eq_succ_of_ne_zero (fun zero => outside (.inl zero))
    have raised : (drainTimes api loads (m + 1) d).1 = _ :=
      drainTimes_raises retryable m empty (by omega)
    rw [eq] at raised
    cases raised
  · rintro (rfl | bound | nothing)
    · exact ⟨d, rfl, rfl⟩
    · exact drainTimes_survives retryable n empty bound
    · exact absurd nothing empty

def down (_ : Nat) (_ : Bytes) : Option Nat := some 503

def oneFile : Drainer :=
  { spool := { files := [⟨str "a.json", [0x7B, 0x7D]⟩] }, backoff := ⟨2, 60, 0⟩ }

def noLoads (_ : Bytes) : Except BytesError Json := .error .other

theorem outage_survived_iff_short :
    (Backoff.mk 2 60 1000).wait = .ok (min (2 * 2 ^ 1000) 60, ⟨2, 60, 1001⟩) ∧
    ∃ d', drainTimes down noLoads 1000 oneFile = (.ok (List.replicate 1000 0), d') ∧
      d'.spool = oneFile.spool := by
  have survived := outage_survived_iff down noLoads (fun _ _ => rfl) 2 60 1000 oneFile
  exact ⟨survived.1.mpr (by decide), survived.2.mpr (.inr (.inl (by decide)))⟩

theorem outage_raises :
    (Backoff.mk 2 60 1024).wait = .error .overflow ∧
    (drainTimes down noLoads 1025 oneFile).1 = .error .overflow := by
  constructor
  · rfl
  · exact drainTimes_raises (fun _ _ => rfl) 1024 (by decide) (by decide)

end ShipperDrain
