import SentinelBrief.Shipper.Spool

/-!
`Spool.put` on a file system that can fail: the directory with its `*.tmp`
files, and the one point of a call at which an `OSError` is raised. The call
stops there, except for the `unlink` of the file that could not be moved.
-/
namespace ShipperSpoolFaults
open Utf8Text ShipperSpool

/-- A `*.tmp` file is listed under the name it is to get. -/
structure SpoolDir where
  spool : Spool := {}
  temporaries : List SpoolFile := []
  deriving Repr

/-- `write` after some bytes of the payload; `replace`, and whether the `.tmp`
file could then be removed. -/
inductive Fault where
  | unlink
  | create
  | write (bytes : Nat)
  | replace (cleanup : Bool)
  deriving DecidableEq, Repr

structure Outcome where
  dir : SpoolDir
  raised : Bool
  deriving Repr

def Outcome.next (o : Outcome) (step : SpoolDir → Outcome) : Outcome :=
  if o.raised then o else step o.dir

def SpoolDir.unlinkTemporary (dir : SpoolDir) (name : PyStr) : SpoolDir :=
  { dir with temporaries := dir.temporaries.filter fun f => f.name ≠ name }

def SpoolDir.writeTemporary (dir : SpoolDir) (f : SpoolFile) : SpoolDir :=
  { dir with temporaries := (dir.unlinkTemporary f.name).temporaries ++ [f] }

def SpoolDir.replaceTemporary (dir : SpoolDir) (f : SpoolFile) : SpoolDir :=
  let s := dir.spool.unlink f.name
  { dir.unlinkTemporary f.name with spool := { s with files := s.files ++ [f] } }

def dropOldest (cfg : SpoolConfig) (fault : Option Fault) (dir : SpoolDir) : Outcome :=
  match dir.spool.evicted cfg with
  | none => ⟨dir, false⟩
  | some oldest =>
    if fault = some .unlink then ⟨dir, true⟩
    else ⟨{ dir with spool := dir.spool.unlink oldest.name }, false⟩

def writeBytes (fault : Option Fault) (f : SpoolFile) (dir : SpoolDir) : Outcome :=
  match fault with
  | some .create => ⟨dir, true⟩
  -- the file is open and stays, with what was written
  | some (.write bytes) => ⟨dir.writeTemporary { f with payload := f.payload.take bytes }, true⟩
  | _ => ⟨dir.writeTemporary f, false⟩

def replaceFile (fault : Option Fault) (f : SpoolFile) (dir : SpoolDir) : Outcome :=
  match fault with
  | some (.replace cleanup) => ⟨if cleanup then dir.unlinkTemporary f.name else dir, true⟩
  | _ => ⟨dir.replaceTemporary f, false⟩

def put (cfg : SpoolConfig) (now : Nat) (payload : Bytes) (fault : Option Fault)
    (dir : SpoolDir) : Outcome :=
  let f : SpoolFile := ⟨spoolName cfg now payload, payload⟩
  ((dropOldest cfg fault dir).next (writeBytes fault f)).next (replaceFile fault f)

def SpoolDir.HasTemporary (dir : SpoolDir) (name : PyStr) : Prop :=
  ∃ f ∈ dir.temporaries, f.name = name

instance (dir : SpoolDir) (name : PyStr) : Decidable (dir.HasTemporary name) := by
  unfold SpoolDir.HasTemporary
  infer_instance

def Undone (name : PyStr) (before after : SpoolDir) : Prop :=
  after.spool.pending = before.spool.pending ∧ ¬ after.HasTemporary name

instance (name : PyStr) (before after : SpoolDir) : Decidable (Undone name before after) := by
  unfold Undone
  infer_instance

def Recoverable (cfg : SpoolConfig) (name : PyStr) (dir : SpoolDir) : Option Fault → Prop
  | none => True
  | some .unlink => dir.spool.evicted cfg = none ∨ ¬ dir.HasTemporary name
  | some .create => dir.spool.evicted cfg = none ∧ ¬ dir.HasTemporary name
  | some (.write _) => False
  | some (.replace cleanup) => dir.spool.evicted cfg = none ∧ cleanup = true

theorem put_faultless (cfg : SpoolConfig) (now : Nat) (payload : Bytes) (dir : SpoolDir) :
    (put cfg now payload none dir).raised = false ∧
    (put cfg now payload none dir).dir.spool = dir.spool.put cfg now payload ∧
    ¬ (put cfg now payload none dir).dir.HasTemporary (spoolName cfg now payload) := by
  cases oldest : dir.spool.evicted cfg <;>
    simp [put, dropOldest, oldest, Outcome.next, writeBytes, replaceFile, Spool.put,
      SpoolDir.writeTemporary, SpoolDir.replaceTemporary, SpoolDir.unlinkTemporary,
      SpoolDir.HasTemporary]

theorem pending_length (s : Spool) : s.pending.length = s.files.length := by
  rw [Spool.pending, List.length_insertionSort]

theorem evicted_pending {cfg : SpoolConfig} {s : Spool} {oldest : SpoolFile}
    (gone : s.evicted cfg = some oldest) : oldest ∈ s.files := by
  unfold Spool.evicted at gone
  split at gone
  · have member := List.mem_of_mem_head? gone
    rwa [Spool.pending, List.mem_insertionSort] at member
  · cases gone

theorem evicted_changes {cfg : SpoolConfig} {s : Spool} {oldest : SpoolFile}
    (gone : s.evicted cfg = some oldest) : (s.unlink oldest.name).pending ≠ s.pending := by
  intro same
  have lengths := congrArg List.length same
  rw [pending_length, pending_length] at lengths
  have kept := List.length_filter_eq_length_iff.mp lengths oldest (evicted_pending gone)
  simp at kept

theorem hasTemporary_written (dir : SpoolDir) (f : SpoolFile) :
    (dir.writeTemporary f).HasTemporary f.name :=
  ⟨f, List.mem_append_right _ (List.mem_singleton.mpr rfl), rfl⟩

theorem hasTemporary_unlinked (dir : SpoolDir) (name : PyStr) :
    ¬ (dir.unlinkTemporary name).HasTemporary name := by
  rintro ⟨f, member, same⟩
  rw [SpoolDir.unlinkTemporary, List.mem_filter] at member
  simp [same] at member

theorem undone_refl (name : PyStr) (dir : SpoolDir) :
    Undone name dir dir ↔ ¬ dir.HasTemporary name := by
  simp [Undone]

theorem later_spool {fault : Option Fault} {f : SpoolFile} {dir : SpoolDir}
    (failed : ((writeBytes fault f dir).next (replaceFile fault f)).raised = true) :
    ((writeBytes fault f dir).next (replaceFile fault f)).dir.spool = dir.spool := by
  cases fault with
  | none => simp [writeBytes, replaceFile, Outcome.next] at failed
  | some fault =>
    cases fault with
    | unlink => simp [writeBytes, replaceFile, Outcome.next] at failed
    | create => rfl
    | write bytes => rfl
    | replace cleanup => cases cleanup <;> rfl

theorem later_temporary (fault : Option Fault) (f : SpoolFile) (dir : SpoolDir) :
    (((writeBytes fault f dir).next (replaceFile fault f)).raised = true →
      ¬ ((writeBytes fault f dir).next (replaceFile fault f)).dir.HasTemporary f.name) ↔
    match fault with
    | none | some .unlink => True
    | some .create => ¬ dir.HasTemporary f.name
    | some (.write _) => False
    | some (.replace cleanup) => cleanup = true := by
  cases fault with
  | none => simp [writeBytes, replaceFile, Outcome.next]
  | some fault =>
    cases fault with
    | unlink => simp [writeBytes, replaceFile, Outcome.next]
    | create => simp [writeBytes, Outcome.next]
    | write bytes =>
      have left := hasTemporary_written dir { f with payload := f.payload.take bytes }
      simpa [writeBytes, Outcome.next] using left
    | replace cleanup =>
      have left := hasTemporary_written dir f
      have cleaned := hasTemporary_unlinked (dir.writeTemporary f) f.name
      cases cleanup <;> simp [writeBytes, replaceFile, Outcome.next, left, cleaned]

theorem full_not_undone {cfg : SpoolConfig} {dir : SpoolDir} {oldest : SpoolFile}
    (now : Nat) (payload : Bytes) {fault : Option Fault}
    (full : dir.spool.evicted cfg = some oldest) (passed : fault ≠ some .unlink)
    (failed : (put cfg now payload fault dir).raised = true) (name : PyStr) :
    ¬ Undone name dir (put cfg now payload fault dir).dir := by
  have dropped : dropOldest cfg fault dir =
      ⟨{ dir with spool := dir.spool.unlink oldest.name }, false⟩ := by
    simp [dropOldest, full, passed]
  rintro ⟨same, _⟩
  refine evicted_changes full ?_
  simp only [put, dropped, Outcome.next, Bool.false_eq_true, if_false] at failed same
  rw [← same]
  exact (congrArg Spool.pending (later_spool failed)).symm

/-- A failed `put` has changed nothing exactly when it failed at a point where
nothing had been unlinked and no `.tmp` file is left open. -/
theorem put_undone_iff (cfg : SpoolConfig) (now : Nat) (payload : Bytes) (fault : Option Fault)
    (dir : SpoolDir) :
    ((put cfg now payload fault dir).raised = true →
      Undone (spoolName cfg now payload) dir (put cfg now payload fault dir).dir) ↔
    Recoverable cfg (spoolName cfg now payload) dir fault := by
  cases oldest : dir.spool.evicted cfg with
  | none =>
    have below : put cfg now payload fault dir =
        (writeBytes fault ⟨spoolName cfg now payload, payload⟩ dir).next
          (replaceFile fault ⟨spoolName cfg now payload, payload⟩) := by
      simp [put, dropOldest, oldest, Outcome.next]
    rw [below]
    have temporary := later_temporary fault ⟨spoolName cfg now payload, payload⟩ dir
    constructor
    · intro undone
      have cleared := temporary.mp fun failed => (undone failed).2
      rcases fault with _ | _ | _ | _ | cleanup <;> simp_all [Recoverable]
    · intro recoverable failed
      refine ⟨congrArg Spool.pending (later_spool failed), temporary.mpr ?_ failed⟩
      rcases fault with _ | _ | _ | _ | cleanup <;> simp_all [Recoverable]
  | some file =>
    by_cases stopped : fault = some .unlink
    · subst stopped
      have kept : put cfg now payload (some .unlink) dir = ⟨dir, true⟩ := by
        simp [put, dropOldest, oldest, Outcome.next]
      simp [kept, undone_refl, Recoverable, oldest]
    · have lost := full_not_undone now payload oldest stopped
      rcases fault with _ | _ | _ | _ | cleanup
      · simp [put_faultless, Recoverable]
      · exact absurd rfl stopped
      · have failed : (put cfg now payload (some .create) dir).raised = true := by
          simp [put, dropOldest, oldest, Outcome.next, writeBytes]
        simp [failed, lost failed, Recoverable, oldest]
      · rename_i bytes
        have failed : (put cfg now payload (some (.write bytes)) dir).raised = true := by
          simp [put, dropOldest, oldest, Outcome.next, writeBytes]
        simp [failed, lost failed, Recoverable]
      · have failed : (put cfg now payload (some (.replace cleanup)) dir).raised = true := by
          simp [put, dropOldest, oldest, Outcome.next, writeBytes, replaceFile]
        simp [failed, lost failed, Recoverable, oldest]

/-- A full disk, met after two bytes by a spool that is full too: the oldest
payload is gone, nothing is in its place, and the `.tmp` file stays. -/
theorem put_full_disk :
    let cfg : SpoolConfig := ⟨1, fun _ => str "0", Nat.one_pos⟩
    let dir : SpoolDir := { spool := { files := [⟨str "1.json", [123, 125]⟩] } }
    let after := put cfg 7 [91, 49, 93] (some (.write 2)) dir
    after.raised = true ∧
    dir.spool.pending = [⟨str "1.json", [123, 125]⟩] ∧ after.dir.spool.pending = [] ∧
    after.dir.temporaries = [⟨str "00000000000000000007-0.json", [91, 49]⟩] ∧
    ¬ (after.raised = true → Undone (spoolName cfg 7 [91, 49, 93]) dir after.dir) := by
  decide

end ShipperSpoolFaults
