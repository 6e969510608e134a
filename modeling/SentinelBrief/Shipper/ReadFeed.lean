import SentinelBrief.Library.Runs
import SentinelBrief.Shipper.AssembleSafety
import SentinelBrief.Shipper.TailCalls

/-!
Reading and feeding, in any order of calls, over any log and any `tail.json`.
Others may replace the files between calls. A call that raises ends the run;
the conditions below name the data on which one does.
-/
namespace ShipperReadFeed
open ShipperTail ShipperAssemble SeparatedLines Utf8Text JsonText StepRuns
open BufferedReading (pending pending_fresh fresh_nil)

variable {cfg : TailConfig} {acfg : AssemblerConfig}

/-- `int(value)` raises nothing but `ValueError`. -/
def Convertible : Json → Prop
  | .null => False
  | .arr _ => False
  | .obj _ => False
  | .float (.inf _) => False
  | _ => True

/-- Every `tail.json` but: JSON nested too deep, JSON that is no object, or an object whose
    numbers are null, a list, an object or infinite. -/
def HarmlessState (cfg : TailConfig) (stateFile : Option Bytes) : Prop :=
  ∀ bytes text, stateFile = some bytes → decode bytes = some text →
    loads cfg.recursionLimit text ≠ .error .recursion ∧
    ∀ data, loads cfg.recursionLimit text = .ok data → ∃ fs, data = .obj fs ∧
      (∀ v, Json.get? (str "inode") data = some v → Convertible v ∧
        (∀ i, intOfJson v = .ok (some i) →
          ∀ u, Json.get? (str "offset") data = some u → Convertible u))

theorem intOfJson_ok_iff (v : Json) : (∃ i, intOfJson v = .ok i) ↔ Convertible v := by
  cases v with
  | float f => cases f <;> simp [intOfJson, Convertible]
  | _ => simp [intOfJson, Convertible]

theorem stateOfJson_ok_iff (data : Json) : (∃ state, stateOfJson data = .ok state) ↔
    ∃ fs, data = .obj fs ∧ (∀ v, Json.get? (str "inode") data = some v → Convertible v ∧
      (∀ i, intOfJson v = .ok (some i) →
        ∀ u, Json.get? (str "offset") data = some u → Convertible u)) := by
  cases data with
  | obj fs =>
    simp only [Json.obj.injEq, exists_eq_left', stateOfJson, intField]
    cases inode : Json.get? (str "inode") (.obj fs) with
    | none => simp
    | some v =>
      simp only [Option.some.injEq, forall_eq']
      rw [← intOfJson_ok_iff]
      cases first : intOfJson v with
      | error e => simp
      | ok i =>
        cases i with
        | none => simp
        | some i =>
          cases offset : Json.get? (str "offset") (.obj fs) with
          | none => simp
          | some u =>
            simp only [Except.ok.injEq, Option.some.injEq, forall_eq', exists_eq', true_and]
            rw [← intOfJson_ok_iff]
            cases second : intOfJson u with
            | error e => simp
            | ok o => cases o <;> simp
  | _ => simp [stateOfJson, intField]

theorem loadState_ok_iff (stateFile : Option Bytes) :
    (∃ state, loadState cfg stateFile = .ok state) ↔ HarmlessState cfg stateFile := by
  unfold loadState HarmlessState
  cases stateFile with
  | none => simp
  | some bytes =>
    simp only [Option.some.injEq]
    cases text : decode bytes with
    | none =>
      refine ⟨fun _ b t same some => ?_, fun _ => ⟨_, rfl⟩⟩
      subst same
      simp [text] at some
    | some text' =>
      have unfolded : (∀ b t, bytes = b → decode b = some t →
          loads cfg.recursionLimit t ≠ .error .recursion ∧
          ∀ data, loads cfg.recursionLimit t = .ok data → ∃ fs, data = .obj fs ∧
            (∀ v, Json.get? (str "inode") data = some v → Convertible v ∧
              (∀ i, intOfJson v = .ok (some i) →
                ∀ u, Json.get? (str "offset") data = some u → Convertible u))) ↔
          (loads cfg.recursionLimit text' ≠ .error .recursion ∧
          ∀ data, loads cfg.recursionLimit text' = .ok data →
            ∃ state, stateOfJson data = .ok state) := by
        simp only [stateOfJson_ok_iff]
        constructor
        · intro all
          exact all bytes text' rfl text
        · rintro all b t rfl found
          rw [text, Option.some.injEq] at found
          exact found ▸ all
      rw [unfolded]
      cases loaded : loads cfg.recursionLimit text' with
      | error e => cases e <;> simp [loaded]
      | ok data => simp [loaded]

/-- The bytes a call goes on from. While a line is dropped their number is all that is known. -/
def carriedBytes (t : LogTailer) : Bytes :=
  match t.droppingBytes with
  | none => t.buffer
  | some n => List.replicate n 0

def Decodes (cfg : TailConfig) (bytes : Bytes) : Prop :=
  ∀ l ∈ usable cfg.maxLineBytes (complete newline bytes), (decode l).isSome

instance (cfg : TailConfig) (bytes : Bytes) : Decidable (Decodes cfg bytes) :=
  inferInstanceAs (Decidable (∀ l ∈ usable cfg.maxLineBytes (complete newline bytes),
    (decode l).isSome))

def ReadSafe (cfg : TailConfig) (growth : List Bytes) (disk : Disk) (t : LogTailer) : Prop :=
  match t.file with
  | some f => Decodes cfg
      (carriedBytes t ++ pending f.toReader (disk.content f.inode ++ growth.flatten))
  | none => match disk.entry with
    | .file i => HarmlessState cfg disk.stateFile ∧
      ∀ state, loadState cfg disk.stateFile = .ok state →
        offTMin ≤ seekTarget state i (disk.content i).length ∧
        Decodes cfg (carriedBytes t ++ (disk.content i ++ growth.flatten).drop
          (seekTarget state i (disk.content i).length).toNat)
    | _ => True

def Bounded (cfg : TailConfig) (t : LogTailer) : Prop :=
  Carried cfg (carriedBytes t) t.buffer t.droppingBytes

theorem bounded_of_carried {t : LogTailer} (left : Bytes)
    (inv : Carried cfg left t.buffer t.droppingBytes) : Bounded cfg t := by
  refine ⟨fun steady => ⟨by simp [carriedBytes, steady], (inv.whole steady).2⟩, fun n dropping => ?_⟩
  obtain ⟨empty, _, _, long⟩ := inv.lost n dropping
  have zero : newline ≠ 0 := by decide
  refine ⟨empty, ?_, by simp [carriedBytes, dropping], long⟩
  simp [carriedBytes, dropping, zero]

theorem drainOpenFile_safe {growth : List Bytes} {f : OpenFile} {disk disk' : Disk}
    {t t' : LogTailer} {r : Except ShipperTail.Raised (List PyStr)} (inv : Bounded cfg t)
    (valid : Decodes cfg
      (carriedBytes t ++ pending f.toReader (disk.content f.inode ++ growth.flatten)))
    (call : drainOpenFile cfg growth f disk t = some (r, t', disk')) :
    (∃ lines, r = .ok lines) ∧ Bounded cfg t' := by
  obtain ⟨more, added, left, front, f', out⟩ := drainOpenFile_from call inv
  have read : more <+: pending f.toReader (disk.content f.inode ++ growth.flatten) := by
    obtain ⟨rest, split⟩ := out.grown
    rw [← split, ← List.append_assoc, ← out.read rest]
    exact List.prefix_append _ _
  -- the lines handed out are lines of what was carried and what was read on
  have inside : ∀ l ∈ usable cfg.maxLineBytes front, (decode l).isSome := by
    intro l member
    apply valid l
    have parts := List.mem_filter.mp member
    refine List.mem_filter.mpr ⟨?_, parts.2⟩
    have whole : complete newline (carriedBytes t ++ more) <+: complete newline
        (carriedBytes t ++ pending f.toReader (disk.content f.inode ++ growth.flatten)) :=
      complete_mono ((List.prefix_append_right_inj _).mpr read)
    rw [out.parts, complete_unlines _ _ out.clean] at whole
    exact whole.subset (List.mem_append_left _ parts.1)
  obtain ⟨lines, decoded⟩ := mapM_decode_isSome inside
  have result := out.outcome
  rw [decoded] at result
  exact ⟨⟨lines, result⟩, bounded_of_carried left out.carried⟩

theorem settleCall_bounded {persist rotated : Bool} {t : LogTailer} {disk : Disk}
    (inv : Bounded cfg t) : Bounded cfg (settleCall persist rotated t disk).1 := by
  have closed : Bounded cfg t.closeFile := by
    refine ⟨fun _ => ?_, fun n dropping => by cases dropping⟩
    simp [carriedBytes, LogTailer.closeFile]
  have chosen : Bounded cfg (if rotated && t.atEof then t.closeFile else t) := by
    split
    · exact closed
    · exact inv
  simp only [settleCall]
  generalize (if rotated && t.atEof then t.closeFile else t) = u at chosen
  split
  · unfold commitOffset
    split
    · exact chosen
    · exact chosen
  · exact chosen

theorem readNewLines_safe {persist : Bool} {growth : List Bytes} {disk disk' : Disk}
    {t t' : LogTailer} {r : Except ShipperTail.Raised (List PyStr)} (inv : Bounded cfg t)
    (safe : ReadSafe cfg growth disk t)
    (call : readNewLines cfg persist growth disk t = some (r, t', disk')) :
    (∃ lines, r = .ok lines) ∧ Bounded cfg t' := by
  have settled : ∀ {rotated t₁ disk₁}, ((∃ lines, r = .ok lines) ∧ Bounded cfg t₁) →
      ((∃ e, r = .error e ∧ t' = t₁ ∧ disk' = disk₁) ∨
        ∃ lines, r = .ok lines ∧ (t', disk') = settleCall persist rotated t₁ disk₁) →
      (∃ lines, r = .ok lines) ∧ Bounded cfg t' :=
    fun ⟨returned, bounded⟩ ended =>
      ⟨returned, ended_keeps (P := fun t _ => Bounded cfg t) ended bounded (settleCall_bounded bounded)⟩
  unfold ReadSafe at safe
  cases file : t.file with
  | some f =>
    simp only [file] at safe
    obtain ⟨errno, frame⟩ := statInode_frame disk t
    obtain ⟨t₁, disk₁, drained, after⟩ := readNewLines_open file call
    rw [frame] at drained
    exact settled (drainOpenFile_safe (t := { t with lastOpenErrno := errno }) inv safe drained) after
  | none =>
    simp only [file] at safe
    have unopened : ∀ errno, Bounded cfg (if errno = enoent then t else warnOncePerErrno errno t) := by
      intro errno
      split
      · exact inv
      · exact inv
    rcases readNewLines_closed file call with ⟨e, raised, _⟩ | ⟨errno, _, rfl, _, rfl⟩ |
      ⟨t₀, f, t₁, disk₁, opened, open_f, drained, after⟩
    · -- the position is never read from a file that is not there
      exfalso
      unfold openAtSavedOffset at raised
      split at raised
      · cases raised
      · cases raised
      · rename_i i entry
        simp only [entry] at safe
        obtain ⟨state, loaded⟩ := (loadState_ok_iff disk.stateFile).mpr safe.1
        have low := (safe.2 state loaded).1
        simp only [loaded] at raised
        rw [if_neg (by omega)] at raised
        split at raised <;> cases raised
    · exact ⟨⟨[], rfl⟩, unopened errno⟩
    · obtain ⟨i, target, state, entry, rfl, loaded, place⟩ := openAtSavedOffset_opened opened
      simp only [Option.some.injEq] at open_f
      subst open_f
      simp only [entry] at safe
      have valid := (safe.2 state loaded).2
      rw [← place, Int.toNat_natCast, ← pending_fresh (fresh_nil target _)] at valid
      exact settled (drainOpenFile_safe (f := ⟨⟨target, []⟩, i⟩)
        (t := { t with file := some ⟨⟨target, []⟩, i⟩, inode := some i, lastOpenErrno := none })
        inv valid drained) after

inductive AssemblerCall where
  | feed (line : PyStr) (now : Int)
  | flushIdle (now : Int)
  | flushAll
  deriving DecidableEq, Repr

def perform (acfg : AssemblerConfig) (call : AssemblerCall) (a : SessionAssembler) :
    Except ShipperAssemble.Raised (List Bytes × SessionAssembler) :=
  match call with
  | .feed line now => feed acfg line now a
  | .flushIdle now => flushIdle acfg now a
  | .flushAll => flushAll acfg a

def replay (acfg : AssemblerConfig) :
    List AssemblerCall → SessionAssembler →
      Except ShipperAssemble.Raised (List Bytes × SessionAssembler)
  | [], a => .ok ([], a)
  | call :: calls, a => match perform acfg call a with
    | .error e => .error e
    | .ok (payloads, a) => match replay acfg calls a with
      | .error e => .error e
      | .ok (later, a) => .ok (payloads ++ later, a)

def skips (acfg : AssemblerConfig) : AssemblerCall → Bool
  | .feed line _ => match loads acfg.loadLimit line with
    | .ok event => !isEvent event
    | .error _ => true
  | _ => false

def CallSafe (acfg : AssemblerConfig) (call : AssemblerCall) (a : SessionAssembler) : Prop :=
  match call with
  | .feed line now => FeedSafe acfg line now a
  | .flushIdle now => FlushSafe acfg (a.staleIds acfg now) a
  | .flushAll => FlushSafe acfg (a.sessions.map (·.1)) a

theorem replay_snoc {calls : List AssemblerCall} {call : AssemblerCall} {a b c : SessionAssembler}
    {first second : List Bytes} (before : replay acfg calls a = .ok (first, b))
    (last : perform acfg call b = .ok (second, c)) :
    replay acfg (calls ++ [call]) a = .ok (first ++ second, c) := by
  induction calls generalizing a first with
  | nil =>
    cases before
    simp [replay, last]
  | cons d calls ih =>
    simp only [List.cons_append, replay] at before ⊢
    cases done : perform acfg d a with
    | error e => simp [done] at before
    | ok out =>
      obtain ⟨payloads, a₁⟩ := out
      simp only [done] at before ⊢
      cases rest : replay acfg calls a₁ with
      | error e => simp [rest] at before
      | ok out =>
        obtain ⟨later, a₂⟩ := out
        simp only [rest] at before
        cases before
        rw [ih rest]
        simp

theorem perform_ok_iff {call : AssemblerCall} {a : SessionAssembler} (distinct : a.Distinct) :
    (∃ out, perform acfg call a = .ok out) ↔ CallSafe acfg call a := by
  cases call with
  | feed line now => exact feed_ok_iff
  | flushIdle now => exact flushIdle_ok_iff now distinct
  | flushAll => exact flushAll_ok_iff distinct

theorem perform_distinct {call : AssemblerCall} {a a' : SessionAssembler} {payloads : List Bytes}
    (done : perform acfg call a = .ok (payloads, a')) (distinct : a.Distinct) : a'.Distinct := by
  cases call with
  | feed line now => exact feed_distinct done distinct
  | flushIdle now => exact flush_distinct done distinct
  | flushAll => exact flush_distinct done distinct

theorem perform_skips {call : AssemblerCall} {a a' : SessionAssembler} {payloads : List Bytes}
    (skipped : skips acfg call = true) (done : perform acfg call a = .ok (payloads, a')) :
    payloads = [] ∧ a' = a.withErrors (a.parseErrors + 1) := by
  cases call with
  | feed line now =>
    simp only [skips] at skipped
    simp only [perform, feed] at done
    cases loaded : loads acfg.loadLimit line with
    | error e =>
      cases e with
      | decode =>
        simp only [loaded] at done
        cases done
        exact ⟨rfl, rfl⟩
      | value => simp [loaded] at done
      | recursion => simp [loaded] at done
    | ok event =>
      have unusable : ¬ isEvent event = true := by simpa [loaded] using skipped
      simp only [loaded, if_neg unusable] at done
      cases done
      exact ⟨rfl, rfl⟩
  | flushIdle now => cases skipped
  | flushAll => cases skipped

theorem perform_withErrors {call : AssemblerCall} {a a' : SessionAssembler}
    {payloads : List Bytes} (n : Nat) (kept : skips acfg call = false)
    (done : perform acfg call a = .ok (payloads, a')) :
    perform acfg call (a.withErrors n) = .ok (payloads, a'.withErrors n) ∧
      a'.parseErrors = a.parseErrors := by
  cases call with
  | feed line now =>
    simp only [skips] at kept
    simp only [perform, feed] at done ⊢
    cases loaded : loads acfg.loadLimit line with
    | error e => simp [loaded] at kept
    | ok event =>
      have usable : isEvent event = true := by simpa [loaded] using kept
      simp only [loaded, if_pos usable] at done ⊢
      cases hashed : keyOf (field "session" event) with
      | none => simp [hashed] at done
      | some key =>
        simp only [hashed] at done ⊢
        exact fold_withErrors n done
  | flushIdle now => exact flush_withErrors n done
  | flushAll => exact flush_withErrors n done

/-- The tailer and the assembler over files that others write. `calls` are the calls made to
    the assembler, `payloads` what they returned. -/
structure Reader where
  disk : Disk
  tailer : LogTailer := {}
  assembler : SessionAssembler := {}
  calls : List AssemblerCall := []
  payloads : List Bytes := []
  raised : Bool := false

inductive Event where
  | files (disk : Disk)
  | readNewLines (persist : Bool) (growth : List Bytes)
  | assembler (call : AssemblerCall)

def readable (disk : Disk) : Bool :=
  match disk.entry with
  | .denied _ => false
  | _ => true

def step (cfg : TailConfig) (acfg : AssemblerConfig) (w : Reader) : Event → Option Reader
  | .files disk => if readable disk then some { w with disk := disk } else none
  | .readNewLines persist growth =>
    match readNewLines cfg persist growth w.disk w.tailer with
    | none => none
    | some (.ok _, t, disk) => some { w with disk := disk, tailer := t }
    | some (.error _, t, disk) => some { w with disk := disk, tailer := t, raised := true }
  | .assembler call => match perform acfg call w.assembler with
    | .error _ => some { w with calls := w.calls ++ [call], raised := true }
    | .ok (payloads, a) =>
      some { w with assembler := a, calls := w.calls ++ [call], payloads := w.payloads ++ payloads }

def Safe (cfg : TailConfig) (acfg : AssemblerConfig) (w : Reader) : Event → Prop
  | .files _ => True
  | .readNewLines _ growth => ReadSafe cfg growth w.disk w.tailer
  | .assembler call => CallSafe acfg call w.assembler

structure Unharmed (cfg : TailConfig) (acfg : AssemblerConfig) (w : Reader) : Prop where
  quiet : w.raised = false
  bounded : Bounded cfg w.tailer
  distinct : w.assembler.Distinct
  counted : w.assembler.parseErrors = (w.calls.filter (skips acfg)).length
  others : replay acfg (w.calls.filter fun call => !skips acfg call) {} =
    .ok (w.payloads, w.assembler.withErrors 0)

theorem unharmed_start (disk : Disk) : Unharmed cfg acfg { disk := disk } where
  quiet := rfl
  bounded := ⟨fun _ => by simp [carriedBytes], fun n dropping => by cases dropping⟩
  distinct := List.nodup_nil
  counted := rfl
  others := rfl

theorem unharmed_step {w w' : Reader} {e : Event} (inv : Unharmed cfg acfg w)
    (met : Safe cfg acfg w e) (taken : step cfg acfg w e = some w') : Unharmed cfg acfg w' := by
  cases e with
  | files disk =>
    simp only [step] at taken
    split at taken
    · cases taken
      exact ⟨inv.quiet, inv.bounded, inv.distinct, inv.counted, inv.others⟩
    · cases taken
  | readNewLines persist growth =>
    cases call : readNewLines cfg persist growth w.disk w.tailer with
    | none => simp [step, call] at taken
    | some out =>
      obtain ⟨r, t', disk'⟩ := out
      obtain ⟨⟨lines, rfl⟩, bounded⟩ := readNewLines_safe inv.bounded met call
      simp only [step, call] at taken
      cases taken
      exact ⟨inv.quiet, bounded, inv.distinct, inv.counted, inv.others⟩
  | assembler call =>
    obtain ⟨⟨payloads, a'⟩, done⟩ := (perform_ok_iff inv.distinct).mpr met
    simp only [step, done] at taken
    cases taken
    have distinct := perform_distinct done inv.distinct
    cases skipped : skips acfg call with
    | true =>
      obtain ⟨rfl, rfl⟩ := perform_skips skipped done
      refine ⟨inv.quiet, inv.bounded, distinct, ?_, ?_⟩
      · simp [SessionAssembler.withErrors, List.filter_append, skipped, inv.counted]
      · simpa [SessionAssembler.withErrors, List.filter_append, skipped] using inv.others
    | false =>
      obtain ⟨again, count⟩ := perform_withErrors 0 skipped done
      refine ⟨inv.quiet, inv.bounded, distinct, ?_, ?_⟩
      · simp [List.filter_append, skipped, count, inv.counted]
      · simp only [List.filter_append, List.filter_singleton, skipped, Bool.not_false]
        exact replay_snoc inv.others again

/-- In a run that meets only harmless data no call raises; the lines that are no usable events
    are counted, and everything else is as if they had not been there. -/
theorem reading_feeding_safe {disk : Disk} {w : Reader}
    (reached : Reach (step cfg acfg) (Safe cfg acfg) { disk := disk } w) :
    w.raised = false ∧ w.assembler.parseErrors = (w.calls.filter (skips acfg)).length ∧
      replay acfg (w.calls.filter fun call => !skips acfg call) {} =
        .ok (w.payloads, w.assembler.withErrors 0) := by
  have inv := reach_invariant (Unharmed cfg acfg) (unharmed_start disk) (fun _ _ _ => unharmed_step) reached
  exact ⟨inv.quiet, inv.counted, inv.others⟩

theorem replay_reach {disk : Disk} {w : Reader} {calls : List AssemblerCall} {payloads : List Bytes}
    {a : SessionAssembler} (reached : Reach (step cfg acfg) (Safe cfg acfg) { disk := disk } w)
    (replayed : replay acfg calls w.assembler = .ok (payloads, a)) :
    Reach (step cfg acfg) (Safe cfg acfg) { disk := disk }
      { w with assembler := a, calls := w.calls ++ calls, payloads := w.payloads ++ payloads } := by
  induction calls generalizing w payloads with
  | nil =>
    cases replayed
    simpa using reached
  | cons call calls ih =>
    have inv := reach_invariant (Unharmed cfg acfg) (unharmed_start disk) (fun _ _ _ => unharmed_step) reached
    cases done : perform acfg call w.assembler with
    | error e =>
      rw [replay, done] at replayed
      cases replayed
    | ok out =>
      have met : Safe cfg acfg w (.assembler call) := (perform_ok_iff inv.distinct).mp ⟨out, done⟩
      have next := reached.next met (by rw [step, done])
      rw [replay, done] at replayed
      dsimp only at replayed
      cases rest : replay acfg calls out.2 with
      | error e =>
        rw [rest] at replayed
        cases replayed
      | ok later =>
        rw [rest] at replayed
        cases replayed
        simpa [List.append_assoc] using ih next rest

def smallTail : TailConfig := ⟨4, 2, 8, 100, by decide, by decide, by decide⟩

def smallAssembler : AssemblerConfig := ⟨900, 5, 1000, 100, 100, by decide⟩

def logOf (content : Bytes) : Disk :=
  { entry := .file 1, content := fun _ => content, stateFile := none }

def eventText (eventid : PyStr) : PyStr :=
  str "\x7b\"eventid\":\"" ++ eventid ++
    str "\",\"session\":\"s\",\"src_ip\":\"1\",\"sensor\":\"h\",\"timestamp\":\"t\"\x7d"

def wideTail : TailConfig := ⟨64, 8, 8192, 100, by decide, by decide, by decide⟩

/-- A line that is no event beside one that opens a session. -/
def mixedLog : Bytes := (str "x\n" ++ eventText connectEvent ++ str "\n").flatMap encodePoint

def mixedCalls : List AssemblerCall := [.feed (str "x") 0, .feed (eventText connectEvent) 0, .flushAll]

/-- The line `x` is read, skipped and counted; the session beside it is shipped. -/
theorem reading_feeding_safe_line :
    ∃ w, Reach (step wideTail smallAssembler) (Safe wideTail smallAssembler) { disk := logOf mixedLog } w ∧
      w.calls = mixedCalls ∧ w.payloads.length = 1 ∧ w.raised = false ∧
      w.assembler.parseErrors = (w.calls.filter (skips smallAssembler)).length ∧
      replay smallAssembler (w.calls.filter fun call => !skips smallAssembler call) {} =
        .ok (w.payloads, w.assembler.withErrors 0) := by
  have met : Safe wideTail smallAssembler { disk := logOf mixedLog } (.readNewLines true [[], [], []]) := by
    refine ⟨by simp [HarmlessState, logOf], fun state loaded => ?_⟩
    cases loaded
    exact ⟨by decide, by decide +kernel⟩
  have read : (step wideTail smallAssembler { disk := logOf mixedLog }
      (.readNewLines true [[], [], []])).isSome = true := by decide +kernel
  obtain ⟨w, taken⟩ := Option.isSome_iff_exists.mp read
  have unfed : w.assembler = {} ∧ w.calls = [] ∧ w.payloads = [] := by
    simp only [step] at taken
    split at taken <;> cases taken <;> exact ⟨rfl, rfl, rfl⟩
  have fed : (match replay smallAssembler mixedCalls {} with
      | .ok (payloads, _) => payloads.length == 1
      | .error _ => false) = true := by decide +kernel
  cases replayed : replay smallAssembler mixedCalls {} with
  | error e =>
    rw [replayed] at fed
    cases fed
  | ok out =>
    rw [replayed] at fed
    rw [← unfed.1] at replayed
    have reached := replay_reach (Reach.start.next met taken) replayed
    obtain ⟨quiet, counted, again⟩ := reading_feeding_safe reached
    exact ⟨_, reached, by simp [unfed], by simpa [unfed] using fed, quiet, counted, again⟩

theorem invalid_line_raises :
    ¬ ∀ (cfg : TailConfig) (acfg : AssemblerConfig) (disk : Disk) (w : Reader),
      Reach (step cfg acfg) anyStep { disk := disk } w → w.raised = false := by
  intro all
  have some : (run (step smallTail smallAssembler) { disk := logOf [0xFF, newline] }
      [.readNewLines true [[], []]]).map (·.raised) = some true := by decide +kernel
  obtain ⟨w, taken, raised⟩ := Option.map_eq_some_iff.mp some
  have quiet := all smallTail smallAssembler _ w (run_reaches Reach.start taken)
  simp [raised] at quiet

end ShipperReadFeed
