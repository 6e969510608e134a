import SentinelBrief.Api.SessionAlert
import SentinelBrief.Worker.Fixtures

/-!
`evals.record.record`, run any number of times over one fixtures directory. `trace` is every call
of a tool that was made live, with what the tool did.
-/
namespace EvalsRecord
open Utf8Text JsonText ApiSessionAlert WorkerFixtures

abbrev Call := PyStr × PyStr

def externalToolNames : List PyStr := [str "get_ip_geo_asn", str "lookup_ip_reputation"]

/-- `(tool_name, {"ip": src_ip})` for the alerts of the cases. -/
def plannedCalls (cases : List SessionAlert) : List Call :=
  let ips := (cases.map (·.srcIp)).dedup.insertionSort fun a b => a ≤ b
  externalToolNames.flatMap fun tool => ips.map fun ip => (tool, ip)

def filteredCalls (cases : List SessionAlert) (only : Option PyStr) : List Call :=
  match only with
  | some tool => (plannedCalls cases).filter fun call => call.1 = tool
  | none => plannedCalls cases

structure RecordReport where
  planned : Nat
  recorded : Nat
  skippedExisting : Nat
  /-- The tool, the fixture's key, and the reason or the exception's class. -/
  failed : List (PyStr × PyStr × PyStr)

/-- The arguments of one `record()`, and what a tool does if it is called during it. -/
structure Run where
  cases : List SessionAlert
  registry : ToolRegistry
  only : Option PyStr
  dryRun : Bool
  outcome : Call → Outcome

structure World where
  files : Files
  trace : List (Call × Outcome)

def World.empty : World := ⟨fun _ => none, []⟩

structure Progress where
  world : World
  recorded : Nat := 0
  skippedExisting : Nat := 0
  failed : List (PyStr × PyStr × PyStr) := []

/-- `reason.split(":", 1)[0]`. -/
def reportedReason (reason : PyStr) : PyStr := reason.takeWhile (· ≠ 0x3A)

section
variable (host : Host)

def Progress.fail (p : Progress) (call : Call) (reason : PyStr) : Progress :=
  { p with failed := p.failed ++ [(call.1, fixtureKey host call.2, reason)] }

def Progress.finish (p : Progress) (call : Call) : Progress :=
  if p.world.files (fixturePath host call.1 call.2) = none then p.fail host call (str "not_recorded")
  else { p with recorded := p.recorded + 1 }

/-- One call of the loop; false when `FixtureMissingError` leaves it. -/
def recordCall (run : Run) (p : Progress) (call : Call) : Progress × Bool :=
  let path := fixturePath host call.1 call.2
  match p.world.files path with
  | some _ => ({ p with skippedExisting := p.skippedExisting + 1 }, true)
  | none =>
    let trace :=
      if call.1 ∈ run.registry.names then p.world.trace ++ [(call, run.outcome call)] else p.world.trace
    match run.registry.execute host p.world.files call.1 call.2 (run.outcome call) with
    | (none, files) => ({ p with world := ⟨files, trace⟩ }, false)
    | (some result, files) =>
      match unavailableReason host result with
      | some reason =>
        if reason ∉ deterministicReasons then
          -- `path.unlink(missing_ok=True)`
          let p := { p with world := ⟨Function.update files path none, trace⟩ }
          (p.fail host call (reportedReason reason), true)
        else ({ p with world := ⟨files, trace⟩ }.finish host call, true)
      | none => ({ p with world := ⟨files, trace⟩ }.finish host call, true)

def recordCalls (run : Run) : List Call → Progress → Progress × Bool
  | [], p => (p, true)
  | call :: calls, p => match recordCall host run p call with
    | (p, true) => recordCalls run calls p
    | (p, false) => (p, false)

/-- `record`; no report when it raises. -/
def record (run : Run) (w : World) : World × Option RecordReport :=
  let calls := filteredCalls run.cases run.only
  if run.dryRun then (w, some { planned := calls.length, recorded := 0, skippedExisting := 0, failed := [] })
  else match recordCalls host run calls { world := w } with
    | (p, true) => (p.world, some {
        planned := calls.length
        recorded := p.recorded
        skippedExisting := p.skippedExisting
        failed := p.failed })
    | (p, false) => (p.world, none)

def recordAll (runs : List Run) (w : World) : World := runs.foldl (fun w run => (record host run w).1) w

end

structure Run.JsonValued (run : Run) : Prop where
  ips : ∀ alert ∈ run.cases, Apart alert.srcIp
  results : ∀ call result, run.outcome call = .result result → (Json.obj result).Valued

/-- An unavailable answer is not truncated. -/
def Run.Roomy (host : Host) (run : Run) : Prop :=
  ∀ call result reason, run.outcome call = .result result → unavailableReason host result = some reason →
    (Json.obj result).text.length ≤ run.registry.maxResultChars

def LastAnswer (trace : List (Call × Outcome)) (call : Call) (result : Fields) : Prop :=
  ∃ before after, trace = before ++ (call, .result result) :: after ∧ ∀ e ∈ after, e.1 ≠ call

/-- Every file is the fixture of a call's last answer, and that answer is not poisoned. -/
def Faithful (host : Host) (known : Call → Prop) (w : World) : Prop :=
  ∀ tool key text, w.files (tool, key) = some text → ∃ ip result, known (tool, ip) ∧
    key = fixtureKey host ip ∧ text = fixtureText tool ip result ∧ LastAnswer w.trace (tool, ip) result ∧
    (Json.obj result).Valued ∧ (fixture tool ip result).sorted.dumpError host.dumpNesting = none ∧
    ¬Poisoned host result

theorem lastAnswer_other {trace : List (Call × Outcome)} {call : Call} {result : Fields}
    (last : LastAnswer trace call result) {e : Call × Outcome} (other : e.1 ≠ call) :
    LastAnswer (trace ++ [e]) call result := by
  obtain ⟨before, after, rfl, later⟩ := last
  refine ⟨before, after ++ [e], by simp, fun x member => ?_⟩
  rcases List.mem_append.mp member with old | new
  · exact later x old
  · exact List.mem_singleton.mp new ▸ other

inductive Stepped (host : Host) (run : Run) (p : Progress) (call : Call) : Progress × Bool → Prop where
  | skipped {text : PyStr} (existing : p.world.files (fixturePath host call.1 call.2) = some text) :
    Stepped host run p call ({ p with skippedExisting := p.skippedExisting + 1 }, true)
  | raised {trace : List (Call × Outcome)} (new : p.world.files (fixturePath host call.1 call.2) = none)
      (traced : trace = p.world.trace ∨ trace = p.world.trace ++ [(call, run.outcome call)]) :
    Stepped host run p call ({ p with world := ⟨p.world.files, trace⟩ }, false)
  | failed {trace : List (Call × Outcome)} (reason : PyStr)
      (new : p.world.files (fixturePath host call.1 call.2) = none)
      (traced : trace = p.world.trace ∨ trace = p.world.trace ++ [(call, run.outcome call)]) :
    Stepped host run p call
      ({ p with world := ⟨p.world.files, trace⟩ }.fail host call reason, true)
  | recorded {result : Fields} (new : p.world.files (fixturePath host call.1 call.2) = none)
      (answered : run.outcome call = .result result)
      (dumped : (fixture call.1 call.2 result).sorted.dumpError host.dumpNesting = none)
      (clean : ¬Poisoned host result) :
    Stepped host run p call
      ({ p with
        world := ⟨Function.update p.world.files (fixturePath host call.1 call.2)
          (some (fixtureText call.1 call.2 result)), p.world.trace ++ [(call, run.outcome call)]⟩
        recorded := p.recorded + 1 }, true)

theorem unlinked {files : Files} {path : Path} (new : files path = none) : Function.update files path none = files := by
  rw [← new]
  exact Function.update_eq_self path files

theorem recordCall_stepped {host : Host} {run : Run} (roomy : run.Roomy host) (p : Progress) (call : Call) :
    Stepped host run p call (recordCall host run p call) := by
  cases existing : p.world.files (fixturePath host call.1 call.2) with
  | some text =>
    unfold recordCall
    dsimp only
    rw [existing]
    exact .skipped existing
  | none =>
    have traced : (if call.1 ∈ run.registry.names then p.world.trace ++ [(call, run.outcome call)]
          else p.world.trace) = p.world.trace ∨
        (if call.1 ∈ run.registry.names then p.world.trace ++ [(call, run.outcome call)] else p.world.trace) =
          p.world.trace ++ [(call, run.outcome call)] := by
      split
      · exact Or.inr rfl
      · exact Or.inl rfl
    unfold recordCall
    dsimp only
    rw [existing]
    dsimp only
    rcases execute_cases host run.registry p.world.files call.1 call.2 (run.outcome call) with
      same | ⟨registered, result, answered, dumped, eq⟩
    · -- no file was written
      rcases executed : run.registry.execute host p.world.files call.1 call.2 (run.outcome call) with
        ⟨answer, files⟩
      rw [executed] at same
      obtain rfl : files = p.world.files := same
      cases answer with
      | none => exact .raised existing traced
      | some result =>
        dsimp only
        unfold Progress.finish
        rw [if_pos existing]
        cases unavailableReason host result with
        | none => exact .failed _ existing traced
        | some reason =>
          dsimp only
          split
          · rw [unlinked existing]
            exact .failed _ existing traced
          · exact .failed _ existing traced
    · -- the file was written, and stays unless the answer is poisoned
      have reasons : unavailableReason host (truncate run.registry.maxResultChars result) =
          unavailableReason host result :=
        unavailableReason_truncate fun reason found => roomy call result reason answered found
      have finished (clean : ¬Poisoned host result) :
          Stepped host run p call (Progress.finish host
            { p with world := ⟨Function.update p.world.files (fixturePath host call.1 call.2)
                (some (fixtureText call.1 call.2 result)), p.world.trace ++ [(call, run.outcome call)]⟩ } call,
            true) := by
        unfold Progress.finish
        rw [if_neg (by simp)]
        exact .recorded existing answered dumped clean
      rw [eq, if_pos registered]
      rw [if_pos registered] at traced
      dsimp only
      rw [reasons]
      cases found : unavailableReason host result with
      | none =>
        refine finished ?_
        rintro ⟨_, given, _⟩
        cases found.symm.trans given
      | some reason =>
        dsimp only
        split
        · rw [Function.update_idem, unlinked existing]
          exact .failed _ existing traced
        · rename_i known
          refine finished ?_
          rintro ⟨other, same, poison⟩
          rw [found, Option.some.injEq] at same
          exact known (same ▸ poison)

section
variable {host : Host} {run : Run} {p : Progress} {call : Call} {next : Progress × Bool}

theorem stepped_keeps (stepped : Stepped host run p call next) {path : Path} {text : PyStr}
    (stored : p.world.files path = some text) : next.1.world.files path = some text := by
  cases stepped with
  | skipped existing => exact stored
  | raised new traced => exact stored
  | failed reason new traced => exact stored
  | recorded new answered dumped clean =>
    have other : path ≠ fixturePath host call.1 call.2 := by
      rintro rfl
      rw [new] at stored
      cases stored
    exact (Function.update_of_ne other _ _).trans stored

theorem stepped_done (stepped : Stepped host run p call next) :
    (∃ more, next.1.failed = p.failed ++ more) ∧
      (next.2 = true → next.1.failed = p.failed → next.1.world.files (fixturePath host call.1 call.2) ≠ none) := by
  cases stepped with
  | skipped existing => exact ⟨⟨[], by simp⟩, fun _ _ => by simp [existing]⟩
  | raised new traced => exact ⟨⟨[], by simp⟩, fun done _ => by cases done⟩
  | failed reason new traced => exact ⟨⟨_, rfl⟩, fun _ same => by simp [Progress.fail] at same⟩
  | recorded new answered dumped clean => exact ⟨⟨[], by simp⟩, fun _ _ => by simp⟩

theorem stepped_faithful {known : Call → Prop} (stepped : Stepped host run p call next) (planned : known call)
    (valued : run.JsonValued) (faithful : Faithful host known p.world) : Faithful host known next.1.world := by
  have kept {trace : List (Call × Outcome)} (new : p.world.files (fixturePath host call.1 call.2) = none)
      (traced : trace = p.world.trace ∨ trace = p.world.trace ++ [(call, run.outcome call)]) :
      Faithful host known ⟨p.world.files, trace⟩ := by
    intro tool key text stored
    obtain ⟨ip, result, member, rfl, same, last, rest⟩ := faithful tool key text stored
    refine ⟨ip, result, member, rfl, same, ?_, rest⟩
    rcases traced with rfl | rfl
    · exact last
    · refine lastAnswer_other last fun eq => ?_
      obtain ⟨tool', ip'⟩ := call
      obtain ⟨rfl, rfl⟩ := Prod.mk.inj eq
      rw [fixturePath] at new
      rw [new] at stored
      cases stored
  cases stepped with
  | skipped existing => exact faithful
  | raised new traced => exact kept new traced
  | failed reason new traced => exact kept new traced
  | recorded new answered dumped clean =>
    rename_i result
    intro tool key text stored
    by_cases same : (tool, key) = fixturePath host call.1 call.2
    · obtain ⟨tool', ip⟩ := call
      obtain ⟨rfl, rfl⟩ := Prod.mk.inj same
      have written := (Function.update_self _ _ _).symm.trans stored
      refine ⟨ip, result, planned, rfl, (Option.some.inj written).symm,
        ⟨p.world.trace, [], by rw [answered], by simp⟩, valued.results _ _ answered, dumped, clean⟩
    · have old := (Function.update_of_ne same _ _).symm.trans stored
      exact kept new (Or.inr rfl) tool key text old

end

section
variable {host : Host} {run : Run}

theorem calls_keep (roomy : run.Roomy host) (calls : List Call) (p : Progress) {path : Path} {text : PyStr}
    (stored : p.world.files path = some text) : (recordCalls host run calls p).1.world.files path = some text := by
  induction calls generalizing p with
  | nil => exact stored
  | cons call calls ih =>
    have kept := stepped_keeps (recordCall_stepped roomy p call) stored
    unfold recordCalls
    rcases taken : recordCall host run p call with ⟨next, goes⟩
    rw [taken] at kept
    cases goes with
    | true => exact ih next kept
    | false => exact kept

theorem calls_faithful {known : Call → Prop} (roomy : run.Roomy host) (valued : run.JsonValued) (calls : List Call)
    (planned : ∀ call ∈ calls, known call) (p : Progress) (faithful : Faithful host known p.world) :
    Faithful host known (recordCalls host run calls p).1.world := by
  induction calls generalizing p with
  | nil => exact faithful
  | cons call calls ih =>
    have kept := stepped_faithful (recordCall_stepped roomy p call) (planned call (by simp)) valued faithful
    unfold recordCalls
    rcases taken : recordCall host run p call with ⟨next, goes⟩
    rw [taken] at kept
    cases goes with
    | true => exact ih (fun c member => planned c (by simp [member])) next kept
    | false => exact kept

theorem calls_done (roomy : run.Roomy host) (calls : List Call) (p : Progress)
    (ended : (recordCalls host run calls p).2 = true) :
    (∃ more, (recordCalls host run calls p).1.failed = p.failed ++ more) ∧
      ((recordCalls host run calls p).1.failed = p.failed → ∀ call ∈ calls,
        (recordCalls host run calls p).1.world.files (fixturePath host call.1 call.2) ≠ none) := by
  induction calls generalizing p with
  | nil => exact ⟨⟨[], by simp [recordCalls]⟩, fun _ call member => by cases member⟩
  | cons call calls ih =>
    obtain ⟨⟨first, grown⟩, done⟩ := stepped_done (recordCall_stepped roomy p call)
    unfold recordCalls at ended ⊢
    rcases taken : recordCall host run p call with ⟨next, goes⟩
    rw [taken] at ended grown done
    cases goes with
    | false => cases ended
    | true =>
      dsimp only at ended grown done ⊢
      obtain ⟨⟨rest, later⟩, all⟩ := ih next ended
      refine ⟨⟨first ++ rest, by rw [later, grown, List.append_assoc]⟩, fun none c member => ?_⟩
      have empty : first ++ rest = [] := by
        rw [later, grown, List.append_assoc] at none
        simpa using none
      obtain ⟨rfl, rfl⟩ := List.append_eq_nil_iff.mp empty
      rw [List.append_nil] at grown later
      rcases List.mem_cons.mp member with rfl | member
      · obtain ⟨text, stored⟩ := Option.ne_none_iff_exists'.mp (done rfl grown)
        rw [calls_keep roomy calls next stored]
        simp
      · exact all later c member

theorem calls_idle (calls : List Call) (p : Progress)
    (present : ∀ call ∈ calls, p.world.files (fixturePath host call.1 call.2) ≠ none) :
    recordCalls host run calls p =
      ({ p with skippedExisting := p.skippedExisting + calls.length }, true) := by
  induction calls generalizing p with
  | nil => rfl
  | cons call calls ih =>
    obtain ⟨text, stored⟩ := Option.ne_none_iff_exists'.mp (present call (by simp))
    have skipped : recordCall host run p call = ({ p with skippedExisting := p.skippedExisting + 1 }, true) := by
      unfold recordCall
      dsimp only
      rw [stored]
    unfold recordCalls
    rw [skipped]
    dsimp only
    rw [ih]
    · rw [List.length_cons, Nat.add_assoc, Nat.add_comm 1]
    · exact fun c member => present c (by simp [member])

theorem mem_plannedCalls {cases : List SessionAlert} {call : Call} : call ∈ plannedCalls cases ↔
    call.1 ∈ externalToolNames ∧ ∃ alert ∈ cases, alert.srcIp = call.2 := by
  obtain ⟨tool, ip⟩ := call
  simp only [plannedCalls, List.mem_flatMap, List.mem_map, List.mem_insertionSort, List.mem_dedup, Prod.mk.injEq]
  constructor
  · rintro ⟨tool, member, ip, found, rfl, rfl⟩
    exact ⟨member, found⟩
  · rintro ⟨member, found⟩
    exact ⟨tool, member, ip, found, rfl, rfl⟩

theorem filteredCalls_planned {cases : List SessionAlert} {only : Option PyStr} {call : Call}
    (member : call ∈ filteredCalls cases only) : call ∈ plannedCalls cases := by
  cases only with
  | none => exact member
  | some tool => exact (List.mem_filter.mp member).1

theorem record_world (w : World) : (record host run w).1 =
    if run.dryRun then w else (recordCalls host run (filteredCalls run.cases run.only) { world := w }).1.world := by
  unfold record
  dsimp only
  split
  · rfl
  · rcases recordCalls host run (filteredCalls run.cases run.only) { world := w } with ⟨p, _ | _⟩
    · rfl
    · rfl

theorem record_keeps (roomy : run.Roomy host) {w : World} {path : Path} {text : PyStr}
    (stored : w.files path = some text) : (record host run w).1.files path = some text := by
  rw [record_world]
  split
  · exact stored
  · exact calls_keep roomy _ _ stored

theorem record_faithful {known : Call → Prop} (roomy : run.Roomy host) (valued : run.JsonValued)
    (planned : ∀ call ∈ plannedCalls run.cases, known call) {w : World} (faithful : Faithful host known w) :
    Faithful host known (record host run w).1 := by
  rw [record_world]
  split
  · exact faithful
  · exact calls_faithful roomy valued _ (fun call member => planned call (filteredCalls_planned member)) _ faithful

theorem record_done (roomy : run.Roomy host) {w : World} {report : RecordReport} (full : run.only = none)
    (wet : run.dryRun = false) (reported : (record host run w).2 = some report) (none : report.failed = []) :
    ∀ call ∈ plannedCalls run.cases, (record host run w).1.files (fixturePath host call.1 call.2) ≠ Option.none := by
  intro call member
  have world := @record_world host run w
  unfold record at reported
  dsimp only at reported
  rw [wet, if_neg Bool.false_ne_true, full] at reported world
  rcases ended : recordCalls host run (filteredCalls run.cases Option.none) { world := w } with ⟨p, goes⟩
  rw [ended] at reported world
  cases goes with
  | false => cases reported
  | true =>
    obtain rfl := (Option.some.inj reported).symm
    have done := (calls_done roomy (filteredCalls run.cases Option.none) { world := w } (by rw [ended])).2
    rw [ended] at done
    rw [world]
    exact done none call member

theorem record_idle {w : World}
    (present : ∀ call ∈ plannedCalls run.cases, w.files (fixturePath host call.1 call.2) ≠ none) :
    (record host run w).1 = w := by
  rw [record_world]
  split
  · rfl
  · rw [calls_idle _ _ fun call member => present call (filteredCalls_planned member)]

end

def NoCollision (host : Host) (runs : List Run) : Prop :=
  ∀ first ∈ runs, ∀ a ∈ first.cases, ∀ second ∈ runs, ∀ b ∈ second.cases,
    fixtureKey host a.srcIp = fixtureKey host b.srcIp → a.srcIp = b.srcIp

def Planned (runs : List Run) (call : Call) : Prop := ∃ run ∈ runs, call ∈ plannedCalls run.cases

section
variable {host : Host} {runs : List Run}

theorem recordAll_append (before after : List Run) (w : World) :
    recordAll host (before ++ after) w = recordAll host after (recordAll host before w) := List.foldl_append

theorem recordAll_keeps (roomy : ∀ run ∈ runs, run.Roomy host) {w : World} {path : Path} {text : PyStr}
    (stored : w.files path = some text) : (recordAll host runs w).files path = some text := by
  induction runs generalizing w with
  | nil => exact stored
  | cons run runs ih =>
    exact ih (fun r member => roomy r (by simp [member])) (record_keeps (roomy run (by simp)) stored)

theorem recordAll_faithful {known : Call → Prop} (roomy : ∀ run ∈ runs, run.Roomy host)
    (valued : ∀ run ∈ runs, run.JsonValued) (planned : ∀ call, Planned runs call → known call) {w : World}
    (faithful : Faithful host known w) : Faithful host known (recordAll host runs w) := by
  induction runs generalizing w with
  | nil => exact faithful
  | cons run runs ih =>
    have first := record_faithful (roomy run (by simp)) (valued run (by simp))
      (fun call member => planned call ⟨run, by simp, member⟩) faithful
    refine ih (fun r member => roomy r (by simp [member])) (fun r member => valued r (by simp [member])) ?_ first
    rintro call ⟨r, member, found⟩
    exact planned call ⟨r, by simp [member], found⟩

end

theorem apart_tool {tool : PyStr} (member : tool ∈ externalToolNames) : Apart tool := by
  have names : ∀ tool ∈ externalToolNames, Encodes tool := by decide
  exact apart_of_encodes (names tool member)

theorem fixtures_replay (host : Host) (runs : List Run) (valued : ∀ run ∈ runs, run.JsonValued)
    (roomy : ∀ run ∈ runs, run.Roomy host) (apart : NoCollision host runs) :
    let w := recordAll host runs World.empty
    (∀ path text, w.files path = some text → ∃ data answer, loads host.loadNesting text = .ok data ∧
      data.get? (str "result") = some (.obj answer) ∧ ¬Poisoned host answer) ∧
    ∀ before full after report, runs = before ++ full :: after → full.only = none → full.dryRun = false →
      (record host full (recordAll host before World.empty)).2 = some report → report.failed = [] →
      (∀ tool ∈ strictToolNames, ∀ alert ∈ full.cases, ∃ result answer,
        LastAnswer w.trace (tool, alert.srcIp) result ∧
        (ReplayToolRecorder.mk true strictToolNames).execute host w.files tool true alert.srcIp = .answer answer ∧
        Json.obj answer = (Json.obj result).sorted ∧
        ∀ reason ∈ [str "fixture_missing", str "fixture_mismatch", str "fixture_unreadable"],
          unavailableReason host answer ≠ some reason) ∧
      ∀ further : Run, further.cases = full.cases → (record host further w).1 = w := by
  intro w
  have faithful : Faithful host (Planned runs) w :=
    recordAll_faithful roomy valued (fun _ planned => planned) fun _ _ _ stored => by cases stored
  have ips {ip tool : PyStr} (planned : Planned runs (tool, ip)) :
      tool ∈ externalToolNames ∧ ∃ run ∈ runs, ∃ alert ∈ run.cases, alert.srcIp = ip := by
    obtain ⟨run, member, call⟩ := planned
    obtain ⟨name, found⟩ := mem_plannedCalls.mp call
    exact ⟨name, run, member, found⟩
  have apart_ip {ip tool : PyStr} (planned : Planned runs (tool, ip)) : Apart ip := by
    obtain ⟨_, run, member, alert, found, rfl⟩ := ips planned
    exact (valued run member).ips alert found
  refine ⟨fun ⟨tool, key⟩ text stored => ?_, ?_⟩
  · obtain ⟨ip, result, planned, rfl, rfl, _, value, dumped, clean⟩ := faithful tool key text stored
    obtain ⟨data, answer, read, found, same, _⟩ :=
      readFixture_written (apart_tool (ips planned).1) (apart_ip planned) value dumped
    exact ⟨data, answer, read, found, (poisoned_sorted value same).not.mpr clean⟩
  · intro before full after report split all wet reported none
    have member : full ∈ runs := by simp [split]
    have present : ∀ call ∈ plannedCalls full.cases, w.files (fixturePath host call.1 call.2) ≠ Option.none := by
      intro call planned
      have first := record_done (roomy full member) all wet reported none call planned
      obtain ⟨text, stored⟩ := Option.ne_none_iff_exists'.mp first
      have kept := @recordAll_keeps host after (fun r later => roomy r (by simp [split, later])) _ _ _ stored
      have world : w = recordAll host after (record host full (recordAll host before World.empty)).1 := by
        rw [show w = recordAll host runs World.empty from rfl, split, recordAll_append]
        rfl
      rw [world, kept]
      simp
    refine ⟨fun tool strict alert found => ?_, fun further same => ?_⟩
    · have planned : (tool, alert.srcIp) ∈ plannedCalls full.cases :=
        mem_plannedCalls.mpr ⟨strict, alert, found, rfl⟩
      obtain ⟨text, stored⟩ := Option.ne_none_iff_exists'.mp (present _ planned)
      obtain ⟨ip, result, origin, key, rfl, last, value, dumped, clean⟩ := faithful _ _ text stored
      obtain ⟨name, run, known, other, inside, rfl⟩ := ips origin
      have one := apart full member alert found run known other inside key
      rw [← one] at last dumped stored
      obtain ⟨answer, served, same⟩ := replay_written (apart_tool name)
        ((valued full member).ips alert found) value dumped clean stored
      refine ⟨result, answer, last, served, same, fun reason listed given => ?_⟩
      have lost : ∀ reason ∈ [str "fixture_missing", str "fixture_mismatch", str "fixture_unreadable"],
          reason ∉ deterministicReasons := by decide
      exact (poisoned_sorted value same).not.mpr clean ⟨reason, given, lost reason listed⟩
    · exact record_idle fun call planned => present call (same ▸ planned)

def probeEvent : CowrieEvent :=
  { eventid := str "cowrie.session.connect", timestamp := ⟨1, some 0, by decide, by decide⟩,
    session := str "s1", srcIp := str "203.0.113.7", sensor := str "hp", message := [], username := none,
    password := none, input := none, url := none, outfile := none, shasum := none, durationMs := none,
    version := none, extra := [] }

def probeAlert : SessionAlert :=
  { sessionId := str "s1", srcIp := str "203.0.113.7", sensor := str "hp", first := probeEvent, rest := [],
    extra := [], connects := rfl }

def probeHost : Host where
  sha256 _ := str "070122fc86cdcc9984474e4b49c416036431243f4cdac5df214bd66313cbac7c"
  isprintable c := 0xA0 < c
  dumpNesting := 900
  loadNesting := 5000
  nesting_le := by decide

def probeRun (score : Outcome) : Run where
  cases := [probeAlert]
  registry := { names := externalToolNames, recordDir := true, maxResultChars := 4000 }
  only := none
  dryRun := false
  outcome call := if call.1 = str "get_ip_geo_asn" then .result [(str "country", .str (str "NL"))] else score

/-- The reputation of the address, recorded on the second try. -/
def probeRuns : List Run :=
  [probeRun (.result (unavailable (str "http_503"))), probeRun (.result [(str "abuse_score", .int 7)])]

theorem fixtures_replay_second :
    let w := recordAll probeHost probeRuns World.empty
    (∀ tool ∈ strictToolNames, ∀ alert ∈ [probeAlert], ∃ result answer,
      LastAnswer w.trace (tool, alert.srcIp) result ∧
      (ReplayToolRecorder.mk true strictToolNames).execute probeHost w.files tool true alert.srcIp =
        .answer answer ∧
      Json.obj answer = (Json.obj result).sorted ∧
      ∀ reason ∈ [str "fixture_missing", str "fixture_mismatch", str "fixture_unreadable"],
        unavailableReason probeHost answer ≠ some reason) ∧
    ∀ further : Run, further.cases = [probeAlert] → (record probeHost further w).1 = w := by
  have score (result : Fields) : (Json.obj result).Valued →
      (∀ reason, unavailableReason probeHost result = some reason → (Json.obj result).text.length ≤ 4000) →
      (probeRun (.result result)).JsonValued ∧ (probeRun (.result result)).Roomy probeHost := by
    intro valued roomy
    refine ⟨⟨fun alert member => ?_, fun call fs answered => ?_⟩, fun call fs reason answered given => ?_⟩
    · obtain rfl := List.mem_singleton.mp member
      exact apart_of_encodes (encodes_str _)
    · unfold probeRun at answered
      dsimp only at answered
      split at answered
      · cases answered
        exact ⟨by simp [OrderedDictionary.Distinct, OrderedDictionary.keys], apart_of_encodes (encodes_str _),
          apart_of_encodes (encodes_str _), trivial⟩
      · cases answered
        exact valued
    · unfold probeRun at answered
      dsimp only at answered
      split at answered
      · cases answered
        cases given
      · cases answered
        exact roomy reason given
  have first := score (unavailable (str "http_503"))
    ⟨by unfold OrderedDictionary.Distinct; decide, apart_of_encodes (encodes_str _), trivial,
      apart_of_encodes (encodes_str _), apart_of_encodes (encodes_str _), trivial⟩ (fun _ _ => by decide)
  have second := score [(str "abuse_score", .int 7)]
    ⟨by unfold OrderedDictionary.Distinct; decide, apart_of_encodes (encodes_str _), trivial, trivial⟩
    (fun _ _ => by decide)
  have parts := fixtures_replay probeHost probeRuns
    (by
      intro run member
      rcases List.mem_cons.mp member with rfl | member
      · exact first.1
      · obtain rfl := List.mem_singleton.mp member
        exact second.1)
    (by
      intro run member
      rcases List.mem_cons.mp member with rfl | member
      · exact first.2
      · obtain rfl := List.mem_singleton.mp member
        exact second.2)
    (by
      have only : ∀ run ∈ probeRuns, ∀ a ∈ run.cases, a = probeAlert := by
        intro run member a found
        rcases List.mem_cons.mp member with rfl | member
        · exact List.mem_singleton.mp found
        · obtain rfl := List.mem_singleton.mp member
          exact List.mem_singleton.mp found
      intro r member a found t later b other _
      rw [only r member a found, only t later b other])
  exact parts.2 [probeRun (.result (unavailable (str "http_503")))] (probeRun (.result [(str "abuse_score", .int 7)]))
    [] { planned := 2, recorded := 1, skippedExisting := 1, failed := [] } rfl rfl rfl rfl rfl

end EvalsRecord
