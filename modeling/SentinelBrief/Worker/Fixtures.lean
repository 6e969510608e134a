import Mathlib.Logic.Function.Basic
import SentinelBrief.Library.JsonSorted

/-!
Tool fixtures (`worker/tools/recorder.py`) and `ToolRegistry.execute` around a `LiveToolRecorder`.
A tool is called with `{"ip": ip}`, and the text of a fixture is kept under the tool's directory and
the key of these arguments.
-/
namespace WorkerFixtures
open Utf8Text JsonText DoubleText OrderedDictionary

/-- SHA-256 in hexadecimal, `str.isprintable`, and how deep a value may be nested for `json.dumps`
    with an indent, and for `json.loads` and the compact `json.dumps`. -/
structure Host where
  sha256 : Bytes → PyStr
  isprintable : Nat → Bool
  dumpNesting : Nat
  loadNesting : Nat
  nesting_le : dumpNesting ≤ loadNesting

abbrev Fields := List (PyStr × Json)

def unavailable (reason : PyStr) : Fields := [(str "unavailable", .bool true), (str "reason", .str reason)]

def fixtureKeyChars : Nat := 16

def deterministicReasons : List PyStr :=
  [str "invalid_arguments", str "unknown_session", str "unknown_asset"]

def strictToolNames : List PyStr := [str "get_ip_geo_asn", str "lookup_ip_reputation"]

def arguments (ip : PyStr) : Fields := [(str "ip", .str ip)]

/-- A tool's name and the key of its arguments; the file is `<tool>/<key>.json`. -/
abbrev Path := PyStr × PyStr

abbrev Files := Path → Option PyStr

/-- What `tool.run` does: it returns, or it raises an exception of this class. -/
inductive Outcome where
  | result : Fields → Outcome
  | raises : PyStr → Outcome
  | fixtureMissing : Outcome

inductive Raised where
  | fixtureMissing : Raised
  | other : PyStr → Raised

structure ToolRegistry where
  names : List PyStr
  /-- Whether its recorder was given the fixtures directory. -/
  recordDir : Bool
  maxResultChars : ℕ+

def truncate (maxChars : Nat) (result : Fields) : Fields :=
  let serialized := (Json.obj result).text
  if serialized.length ≤ maxChars then result
  else
    [(str "truncated", .bool true), (str "original_chars", .int serialized.length),
      (str "preview", .str (serialized.take maxChars))]

section
variable (host : Host)

def fixtureKey (ip : PyStr) : PyStr :=
  let canonical := (Json.obj (arguments ip)).sorted.dumps canonicalLayout 0
  (host.sha256 (canonical.flatMap encodePoint)).take fixtureKeyChars

def fixturePath (tool ip : PyStr) : Path := (tool, fixtureKey host ip)

def fixture (tool ip : PyStr) (result : Fields) : Json :=
  .obj [(str "tool", .str tool), (str "arguments", .obj (arguments ip)), (str "result", .obj result)]

def fixtureText (tool ip : PyStr) (result : Fields) : PyStr :=
  (fixture tool ip result).sorted.dumps indentLayout 0 ++ [0x0A]

def writeFixture (files : Files) (tool ip : PyStr) (result : Fields) : Except DumpError Files :=
  match (fixture tool ip result).sorted.dumpError host.dumpNesting with
  | some error => .error error
  | none => .ok (Function.update files (fixturePath host tool ip) (some (fixtureText tool ip result)))

def liveExecute (recordDir : Bool) (files : Files) (tool ip : PyStr) :
    Outcome → Except Raised Fields × Files
  | .fixtureMissing => (.error .fixtureMissing, files)
  | .raises name => (.error (.other name), files)
  | .result result =>
    if recordDir then match writeFixture host files tool ip result with
      | .error error => (.error (.other error.text), files)
      | .ok written => (.ok result, written)
    else (.ok result, files)

def truncateResult (maxChars : Nat) (result : Fields) : Except DumpError Fields :=
  match (Json.obj result).sorted.dumpError host.loadNesting with
  | some error => .error error
  | none => .ok (truncate maxChars result)

/-- The second guarded region of `execute`. -/
def truncated (maxChars : Nat) (result : Fields) : Fields :=
  match truncateResult host maxChars result with
  | .ok result => result
  | .error error => truncate maxChars (unavailable (error.text ++ str ": result not serializable"))

/-- `ToolRegistry.execute`; no result is `FixtureMissingError`, which is let through. -/
def ToolRegistry.execute (registry : ToolRegistry) (files : Files) (tool ip : PyStr) (outcome : Outcome) :
    Option Fields × Files :=
  if tool ∉ registry.names then (some (unavailable (str "unknown_tool")), files)
  else match liveExecute host registry.recordDir files tool ip outcome with
    | (.error .fixtureMissing, files) => (none, files)
    | (.error (.other name), files) =>
      (some (truncated host registry.maxResultChars (unavailable (name ++ str ": tool raised"))), files)
    | (.ok result, files) => (some (truncated host registry.maxResultChars result), files)

def unavailableReason (result : Fields) : Option PyStr :=
  if ((Json.obj result).get? (str "unavailable")).elim false Json.truthy then
    some (((Json.obj result).get? (str "reason")).elim [] (Json.pyStr host.isprintable))
  else none

/-- Unavailable for a reason outside `DETERMINISTIC_REASONS`. -/
def Poisoned (result : Fields) : Prop :=
  ∃ reason, unavailableReason host result = some reason ∧ reason ∉ deterministicReasons

instance (result : Fields) : Decidable (Poisoned host result) :=
  match found : unavailableReason host result with
  | none => isFalse fun ⟨_, given, _⟩ => by cases found.symm.trans given
  | some reason =>
    if known : reason ∈ deterministicReasons then
      isFalse fun ⟨_, same, other⟩ => other (Option.some.inj (found.symm.trans same) ▸ known)
    else isTrue ⟨reason, found, known⟩

def readFixture (data : Json) : Option (Json × Json × Fields) := do
  let tool ← data.get? (str "tool")
  let arguments ← data.get? (str "arguments")
  match data.get? (str "result") with
  | some (.obj result) => some (tool, arguments, result)
  | _ => none

def isText (s : PyStr) : Json → Bool
  | .str t => t = s
  | _ => false

def isArguments (ip : PyStr) : Json → Bool
  | .obj [(k, v)] => k = str "ip" && isText ip v
  | _ => false

structure ReplayToolRecorder where
  strict : Bool
  strictTools : List PyStr := strictToolNames

inductive Replayed where
  | answer : Fields → Replayed
  | fixtureMissing : PyStr → Replayed
  /-- An exception of `json.loads` that is not caught. -/
  | raises : LoadError → Replayed
  | live : Replayed

def ReplayToolRecorder.execute (recorder : ReplayToolRecorder) (files : Files) (tool : PyStr) (external : Bool)
    (ip : PyStr) : Replayed :=
  if ¬external then .live
  else
    let strictHere := recorder.strict && tool ∈ recorder.strictTools
    let message := tool ++ str ":" ++ fixtureKey host ip
    match files (fixturePath host tool ip) with
    | none => if strictHere then .fixtureMissing message else .answer (unavailable (str "fixture_missing"))
    | some text => match loads host.loadNesting text with
      | .error .decode => .answer (unavailable (str "fixture_unreadable"))
      | .error error => .raises error
      | .ok data => match readFixture data with
        | none => .answer (unavailable (str "fixture_unreadable"))
        | some (name, arguments, result) =>
          if ¬isText tool name ∨ ¬isArguments ip arguments then
            .answer (unavailable (str "fixture_mismatch"))
          else if strictHere ∧ Poisoned host result then .fixtureMissing (message ++ str ":poisoned")
          else .answer result

end

theorem distinct_fixture (tool ip : PyStr) (result : Fields) :
    Distinct [(str "tool", Json.str tool), (str "arguments", .obj (arguments ip)), (str "result", .obj result)] := by
  unfold Distinct OrderedDictionary.keys
  simp only [List.map_cons, List.map_nil]
  decide

theorem valued_fixture {tool ip : PyStr} {result : Fields} (tool_apart : Apart tool) (ip_apart : Apart ip)
    (valued : (Json.obj result).Valued) : (fixture tool ip result).Valued := by
  have names : Apart (str "tool") ∧ Apart (str "arguments") ∧ Apart (str "result") ∧ Apart (str "ip") :=
    ⟨apart_of_encodes (encodes_str _), apart_of_encodes (encodes_str _), apart_of_encodes (encodes_str _),
      apart_of_encodes (encodes_str _)⟩
  have given : (Json.obj (arguments ip)).Valued := by
    rw [arguments, Json.Valued]
    exact ⟨List.nodup_singleton _, names.2.2.2, ip_apart, trivial⟩
  rw [fixture, Json.Valued]
  exact ⟨distinct_fixture tool ip result, names.1, tool_apart, names.2.1, given, names.2.2.1, valued, trivial⟩

theorem indent_floats : indentLayout.Floats := fun _ canonical => repr_reads canonical

theorem readFixture_written {host : Host} {tool ip : PyStr} {result : Fields} (tool_apart : Apart tool)
    (ip_apart : Apart ip) (valued : (Json.obj result).Valued)
    (dumped : (fixture tool ip result).sorted.dumpError host.dumpNesting = none) :
    ∃ data answer, loads host.loadNesting (fixtureText tool ip result) = .ok data ∧
      data.get? (str "result") = some (.obj answer) ∧ Json.obj answer = (Json.obj result).sorted ∧
      readFixture data = some (.str tool, .obj (arguments ip), answer) := by
  have read := loads_sorted indent_floats (valued_fixture tool_apart ip_apart valued) dumped host.nesting_le
    (b := [0x0A]) (by decide)
  have member (key : PyStr) := get_sorted (distinct_fixture tool ip result) key
  have name : (fixture tool ip result).sorted.get? (str "tool") = some (.str tool) := member _
  have given : (fixture tool ip result).sorted.get? (str "arguments") = some (.obj (arguments ip)) := member _
  have answer : (fixture tool ip result).sorted.get? (str "result") =
      some (.obj (sortMembers (membersSorted result))) := member _
  refine ⟨_, _, read, answer, rfl, ?_⟩
  rw [readFixture, name, given, answer]
  rfl

theorem pyStr_deterministic {isprintable : Nat → Bool} {j : Json} (valued : j.Valued)
    (known : j.pyStr isprintable ∈ deterministicReasons) : ∃ s, j = .str s := by
  have letters : ∀ r ∈ deterministicReasons, r.head? = some 0x69 ∨ r.head? = some 0x75 := by decide
  have head := letters _ known
  cases j with
  | str s => exact ⟨s, rfl⟩
  | null => exact absurd head (by simp only [Json.pyStr, Json.pyRepr]; decide)
  | bool b => exact absurd head (by cases b <;> simp only [Json.pyStr, Json.pyRepr] <;> decide)
  | int i =>
    simp only [Json.pyStr, Json.pyRepr] at head
    by_cases negative : i < 0
    · rw [intText_negative negative] at head
      simp at head
    · obtain ⟨c, cs, eq, digit⟩ := digitsText_cons i.natAbs
      rw [intText_nonneg (Int.not_lt.mp negative), eq] at head
      simp only [isDigit, Bool.and_eq_true, decide_eq_true_eq] at digit
      simp only [List.head?_cons, Option.some.injEq] at head
      omega
  | float f =>
    simp only [Json.pyStr, Json.pyRepr] at known
    cases f with
    | nan => exact absurd known (by decide)
    | inf neg => exact absurd known (by cases neg <;> decide)
    | fin neg m e =>
      rw [Json.Valued] at valued
      have read := (repr_reads valued).2 0 0 [] (by simp [Stops])
      rw [List.append_nil] at read
      have words : ∀ r ∈ deterministicReasons, (scanValue 1 0 r).toOption.isSome = false := by decide
      have none := words _ known
      rw [reprFloat, read] at none
      cases none
      all_goals simp
  | arr xs =>
    cases xs with
    | nil => exact absurd head (by simp only [Json.pyStr, Json.pyRepr]; decide)
    | cons x xs => simp [Json.pyStr, Json.pyRepr] at head
  | obj fs =>
    cases fs with
    | nil => exact absurd head (by simp only [Json.pyStr, Json.pyRepr]; decide)
    | cons f fs => simp [Json.pyStr, Json.pyRepr] at head

theorem valued_get {fs : Fields} {key : PyStr} {v : Json} (valued : (Json.obj fs).Valued)
    (found : (Json.obj fs).get? key = some v) : v.Valued := by
  rw [Json.Valued, membersValued_iff] at valued
  rw [get_obj] at found
  exact (valued.2 _ ((lookup_eq_some valued.1).mp found)).2

theorem poisoned_iff {host : Host} {result : Fields} : Poisoned host result ↔
    ((Json.obj result).get? (str "unavailable")).elim false Json.truthy = true ∧
      ((Json.obj result).get? (str "reason")).elim [] (Json.pyStr host.isprintable) ∉ deterministicReasons := by
  unfold Poisoned unavailableReason
  split
  · rename_i flagged
    simp [flagged]
  · rename_i clear
    simp [clear]

theorem poisoned_sorted {host : Host} {result answer : Fields} (valued : (Json.obj result).Valued)
    (same : Json.obj answer = (Json.obj result).sorted) : Poisoned host answer ↔ Poisoned host result := by
  have distinct : Distinct result := by
    rw [Json.Valued] at valued
    exact valued.1
  have reasons : ((Json.obj answer).get? (str "reason")).elim [] (Json.pyStr host.isprintable) ∉
      deterministicReasons ↔ ((Json.obj result).get? (str "reason")).elim [] (Json.pyStr host.isprintable) ∉
      deterministicReasons := by
    rw [same, get_sorted distinct]
    cases found : (Json.obj result).get? (str "reason") with
    | none => exact Iff.rfl
    | some v =>
      have given := valued_get valued found
      refine not_congr ⟨fun known => ?_, fun known => ?_⟩
      · obtain ⟨s, text⟩ := pyStr_deterministic (valued_sorted v given) known
        cases v <;> simp_all [Json.sorted]
      · obtain ⟨s, rfl⟩ := pyStr_deterministic given known
        exact known
  have flags : ((Json.obj answer).get? (str "unavailable")).elim false Json.truthy =
      ((Json.obj result).get? (str "unavailable")).elim false Json.truthy := by
    rw [same, get_sorted distinct]
    cases (Json.obj result).get? (str "unavailable") with
    | none => rfl
    | some v => exact truthy_sorted v
  rw [poisoned_iff, poisoned_iff, reasons, flags]

theorem truncated_written {host : Host} {tool ip : PyStr} {result : Fields} (maxChars : Nat)
    (dumped : (fixture tool ip result).sorted.dumpError host.dumpNesting = none) :
    truncated host maxChars result = truncate maxChars result := by
  have serialized : (Json.obj result).sorted.dumpError host.loadNesting = none := by
    have le := host.nesting_le
    cases limit : host.dumpNesting with
    | zero =>
      rw [limit] at dumped
      cases dumped
    | succ n =>
      rw [limit] at dumped le
      rw [fixture, Json.sorted, Json.dumpError, membersDumpError_none] at dumped
      refine dumpError_mono _ n _ (by omega) (dumped (str "result", (Json.obj result).sorted) ?_)
      rw [(sortMembers_perm _).mem_iff]
      simp [membersSorted]
  rw [truncated, truncateResult, serialized]

theorem unavailableReason_truncate {host : Host} {maxChars : Nat} {result : Fields}
    (roomy : ∀ reason, unavailableReason host result = some reason → (Json.obj result).text.length ≤ maxChars) :
    unavailableReason host (truncate maxChars result) = unavailableReason host result := by
  unfold truncate
  dsimp only
  split
  · rfl
  · rename_i long
    cases found : unavailableReason host result with
    | none => rfl
    | some reason => exact absurd (roomy reason found) long

theorem execute_cases (host : Host) (registry : ToolRegistry) (files : Files) (tool ip : PyStr) (outcome : Outcome) :
    (registry.execute host files tool ip outcome).2 = files ∨
      tool ∈ registry.names ∧ ∃ result, outcome = .result result ∧
        (fixture tool ip result).sorted.dumpError host.dumpNesting = none ∧
        registry.execute host files tool ip outcome =
          (some (truncate registry.maxResultChars result),
            Function.update files (fixturePath host tool ip) (some (fixtureText tool ip result))) := by
  unfold ToolRegistry.execute
  split
  · exact Or.inl rfl
  · rename_i registered
    cases outcome with
    | fixtureMissing => exact Or.inl rfl
    | raises name => exact Or.inl rfl
    | result result =>
      cases writes : registry.recordDir with
      | false => exact Or.inl rfl
      | true =>
        cases dumped : (fixture tool ip result).sorted.dumpError host.dumpNesting with
        | some error =>
          refine Or.inl ?_
          simp [liveExecute, writeFixture, dumped]
        | none =>
          refine Or.inr ⟨Decidable.not_not.mp registered, result, rfl, dumped, ?_⟩
          simp [liveExecute, writeFixture, dumped, truncated_written _ dumped]

theorem replay_written {host : Host} {files : Files} {tool ip : PyStr} {result : Fields} (tool_apart : Apart tool)
    (ip_apart : Apart ip) (valued : (Json.obj result).Valued)
    (dumped : (fixture tool ip result).sorted.dumpError host.dumpNesting = none)
    (clean : ¬Poisoned host result)
    (stored : files (fixturePath host tool ip) = some (fixtureText tool ip result)) :
    ∃ answer, (ReplayToolRecorder.mk true strictToolNames).execute host files tool true ip = .answer answer ∧
      Json.obj answer = (Json.obj result).sorted := by
  obtain ⟨data, answer, read, _, same, members⟩ := readFixture_written tool_apart ip_apart valued dumped
  have served : ¬Poisoned host answer := (poisoned_sorted valued same).not.mpr clean
  have name : isText tool (.str tool) = true := decide_eq_true rfl
  have given : isArguments ip (.obj (arguments ip)) = true := by simp [isArguments, arguments, isText]
  refine ⟨answer, ?_, same⟩
  simp [ReplayToolRecorder.execute, stored, read, members, name, given, served]

end WorkerFixtures
