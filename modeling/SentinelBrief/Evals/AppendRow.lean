import Mathlib.Data.List.TakeWhile
import SentinelBrief.Evals.Publish
import SentinelBrief.Library.Lines

/-!
`append_result_row` (`evals/publish.py`) on the bytes of the results file. The file
is read and written as UTF-8 text; it is emptied when it is opened for writing.
-/
namespace EvalsAppendRow
open Utf8Text PyIntText PyText SeparatedLines EvalsPublish

def renderHeader : PyStr :=
  tableLine ([str "date", str "git_sha", str "prompt_version", str "models"] ++ columns.drop 2)

def runsHeading : PyStr := str "## Runs"

/-- `ln.strip().startswith("|")`. -/
def isRow (ln : PyStr) : Bool := (strip ln).head? = some 0x7C

/-- The `while` loop, over the lines from `insertIdx` on. -/
def skipRows : List PyStr → Nat → Nat
  | ln :: lines, insertIdx => if isRow ln then skipRows lines (insertIdx + 1) else insertIdx
  | [], insertIdx => insertIdx

/-- None is the `ValueError` of a file without the section or with another header. -/
def newLines (lines : List PyStr) (line : PyStr) : Option (List PyStr) :=
  match lines.findIdx? fun ln => strip ln = runsHeading with
  | none => none
  | some runsIdx =>
    let runs := lines.drop runsIdx
    if runs.find? isRow ≠ some renderHeader then none
    else
      let headerIdx := runsIdx + runs.idxOf renderHeader
      let insertIdx := skipRows (lines.drop (headerIdx + 2)) (headerIdx + 2)
      some (lines.take insertIdx ++ [line] ++ lines.drop insertIdx)

structure Outcome where
  raised : Bool
  file : Bytes
  deriving DecidableEq, Repr

def appendResultRow (line : PyStr) (file : Bytes) : Outcome :=
  match decode file with
  | none => ⟨true, file⟩
  | some text =>
    match newLines (splitlines (universalNewlines text)) line with
    | none => ⟨true, file⟩
    | some lines =>
      match encode (join (str "\n") lines ++ str "\n") with
      | some bytes => ⟨false, bytes⟩
      -- `UnicodeEncodeError` out of `write`, after the file was opened
      | none => ⟨true, []⟩

def Clean (s : PyStr) : Prop := ∀ c ∈ s, lineBreak c = false

instance (s : PyStr) : Decidable (Clean s) :=
  inferInstanceAs (Decidable (∀ c ∈ s, lineBreak c = false))

/-- A text with no line break but the newline, and with one at its end. -/
structure Lined (text : PyStr) : Prop where
  breaks : ∀ c ∈ text, lineBreak c = true → c = 0x0A
  ended : text.getLast? = some 0x0A

structure SingleRow (line : PyStr) : Prop where
  clean : Clean line
  started : line.head? = some 0x7C

structure AtHeader (before : List PyStr) (heading : PyStr) (between : List PyStr) : Prop where
  first : ∀ l ∈ before, strip l ≠ runsHeading
  named : strip heading = runsHeading
  prose : ∀ l ∈ between, isRow l = false

structure RunsTable where
  before : List PyStr
  heading : PyStr
  between : List PyStr
  separator : PyStr
  rows : List PyStr
  after : List PyStr
  atHeader : AtHeader before heading between
  listed : ∀ l ∈ rows, isRow l = true
  ended : ∀ l ∈ after.head?, isRow l = false

def RunsTable.front (t : RunsTable) : List PyStr :=
  t.before ++ t.heading :: (t.between ++ renderHeader :: t.separator :: t.rows)

def RunsTable.lines (t : RunsTable) : List PyStr := t.front ++ t.after

def RunsTable.add (t : RunsTable) (line : PyStr) (row : isRow line = true) : RunsTable :=
  { t with rows := t.rows ++ [line]
           listed := by
             intro l member
             rcases List.mem_append.mp member with earlier | last
             · exact t.listed l earlier
             · exact List.mem_singleton.mp last ▸ row }

def Separated (lines : List PyStr) : Prop :=
  ∀ before heading between later, AtHeader before heading between →
    lines = before ++ heading :: (between ++ renderHeader :: later) → later ≠ []

theorem header_isRow : isRow renderHeader = true := by decide

theorem heading_not_row {heading : PyStr} (named : strip heading = runsHeading) :
    isRow heading = false := by
  rw [isRow, named]
  rfl

theorem skipRows_eq (lines : List PyStr) (i : Nat) :
    skipRows lines i = i + (lines.takeWhile isRow).length := by
  induction lines generalizing i with
  | nil => rfl
  | cons ln lines ih =>
    rw [skipRows, List.takeWhile_cons]
    split
    · rw [ih, List.length_cons]
      omega
    · rfl

theorem findIdx_first {p : PyStr → Bool} {before later : List PyStr} {ln : PyStr}
    (earlier : ∀ l ∈ before, p l = false) (hit : p ln = true) :
    (before ++ ln :: later).findIdx? p = some before.length := by
  have missed : before.findIdx? p = none := List.findIdx?_eq_none_iff.mpr earlier
  rw [List.findIdx?_append, missed, List.findIdx?_cons, if_pos hit]
  simp

theorem takeWhile_rows {rows after : List PyStr} (listed : ∀ l ∈ rows, isRow l = true)
    (ended : ∀ l ∈ after.head?, isRow l = false) : (rows ++ after).takeWhile isRow = rows := by
  rw [List.takeWhile_append_of_pos listed]
  cases after with
  | nil => simp
  | cons l after => simp [ended l rfl]

section Header
variable {before between : List PyStr} {heading : PyStr} (at_header : AtHeader before heading between)
include at_header

theorem runs_found (later : List PyStr) :
    (heading :: (between ++ renderHeader :: later)).find? isRow = some renderHeader := by
  rw [List.find?_cons_of_neg (by simp [heading_not_row at_header.named]), List.find?_append]
  have missed : between.find? isRow = none := by
    rw [List.find?_eq_none]
    intro l member
    simp [at_header.prose l member]
  rw [missed, List.find?_cons_of_pos header_isRow]
  rfl

theorem header_index (later : List PyStr) :
    (heading :: (between ++ renderHeader :: later)).idxOf renderHeader = between.length + 1 := by
  have apart : heading ≠ renderHeader := by
    rintro rfl
    have row := heading_not_row at_header.named
    rw [header_isRow] at row
    cases row
  have absent : renderHeader ∉ between := by
    intro member
    have row := at_header.prose _ member
    rw [header_isRow] at row
    cases row
  rw [List.idxOf_cons_ne _ apart, List.idxOf_append_of_notMem absent, List.idxOf_cons_self]

end Header

theorem newLines_table (t : RunsTable) (line : PyStr) :
    newLines t.lines line = some (t.front ++ line :: t.after) := by
  have whole : t.lines = t.before ++ t.heading ::
      (t.between ++ renderHeader :: (t.separator :: (t.rows ++ t.after))) := by
    simp [RunsTable.lines, RunsTable.front]
  have found : t.lines.findIdx? (fun ln => decide (strip ln = runsHeading)) =
      some t.before.length := by
    rw [whole]
    apply findIdx_first
    · exact fun l member => by simpa using t.atHeader.first l member
    · simpa using t.atHeader.named
  have runs : t.lines.drop t.before.length = t.heading ::
      (t.between ++ renderHeader :: (t.separator :: (t.rows ++ t.after))) := by
    rw [whole, List.drop_left]
  have place : t.before.length + (t.between.length + 1) + 2 =
      (t.before ++ t.heading :: (t.between ++ [renderHeader, t.separator])).length := by
    simp
    omega
  have below : t.lines.drop (t.before.length + (t.between.length + 1) + 2) = t.rows ++ t.after := by
    have grouped : t.lines = (t.before ++ t.heading :: (t.between ++ [renderHeader, t.separator])) ++
        (t.rows ++ t.after) := by simp [whole]
    rw [place, grouped, List.drop_left]
  have insertIdx : skipRows (t.rows ++ t.after) (t.before.length + (t.between.length + 1) + 2) =
      t.front.length := by
    rw [skipRows_eq, takeWhile_rows t.listed t.ended, place]
    simp [RunsTable.front]
    omega
  simp only [newLines, found, runs, runs_found t.atHeader, header_index t.atHeader, below, insertIdx,
    ne_eq, not_true_eq_false, if_false]
  rw [RunsTable.lines, List.take_left, List.drop_left]
  simp

theorem newLines_accepted {lines new : List PyStr} {line : PyStr}
    (accepted : newLines lines line = some new) :
    ∃ before heading between later, AtHeader before heading between ∧
      lines = before ++ heading :: (between ++ renderHeader :: later) := by
  unfold newLines at accepted
  split at accepted
  · cases accepted
  · rename_i runsIdx found
    obtain ⟨inside, hit, earlier⟩ := List.findIdx?_eq_some_iff_getElem.mp found
    dsimp only at accepted
    split at accepted
    · cases accepted
    · rename_i header
      obtain ⟨_, prose, later, runs, unmatched⟩ :=
        List.find?_eq_some_iff_append.mp (not_not.mp header)
      have whole : lines = lines.take runsIdx ++ (prose ++ renderHeader :: later) := by
        rw [← runs, List.take_append_drop]
      have named : strip lines[runsIdx] = runsHeading := of_decide_eq_true hit
      rw [List.drop_eq_getElem_cons inside] at runs
      cases prose with
      | nil =>
        have row := heading_not_row named
        rw [(List.cons.inj runs).1, header_isRow] at row
        cases row
      | cons heading between =>
        obtain ⟨rfl, _⟩ := List.cons.inj runs
        refine ⟨lines.take runsIdx, lines[runsIdx], between, later, ⟨?_, named, ?_⟩, whole⟩
        · intro l member
          obtain ⟨j, before, rfl⟩ := List.mem_take_iff_getElem.mp member
          simpa using earlier j (by omega)
        · intro l member
          simpa using unmatched l (List.mem_cons_of_mem _ member)

theorem splitlines_unlines {ls : List PyStr} (clean : ∀ l ∈ ls, Clean l) :
    splitlines (unlines 0x0A ls) = ls := by
  induction ls with
  | nil => rfl
  | cons l ls ih =>
    have rest : ∀ m ∈ ls, Clean m := fun m member => clean m (List.mem_cons_of_mem _ member)
    rw [unlines, List.flatMap_cons, List.append_assoc, List.singleton_append, splitlines,
      splitlinesFrom_clean (clean l List.mem_cons_self), List.nil_append]
    exact congrArg (l :: ·) (ih rest)

theorem lined_lines {text : PyStr} (lined : Lined text) :
    ∃ ls : List PyStr, ls ≠ [] ∧ (∀ l ∈ ls, Clean l) ∧ text = unlines 0x0A ls := by
  obtain ⟨body, rfl⟩ := List.getLast?_eq_some_iff.mp lined.ended
  have whole := unlines_rest (c := 0x0A) (body ++ [0x0A])
  have finished : rest 0x0A (body ++ [0x0A]) = [] := by
    rw [rest_append, rest_free_sep _ [] (sep_not_mem_rest body), rest_nil]
  rw [finished, List.append_nil] at whole
  refine ⟨complete 0x0A (body ++ [0x0A]), ?_, ?_, whole.symm⟩
  · intro none
    rw [none] at whole
    simp at whole
  · intro l member c inside
    have free := sep_not_mem_complete (c := 0x0A) (body ++ [0x0A]) l member
    have listed : c ∈ body ++ [0x0A] := by
      rw [← whole]
      exact List.mem_flatMap.mpr ⟨l, member, List.mem_append_left _ inside⟩
    cases breaks : lineBreak c with
    | false => rfl
    | true => exact absurd (lined.breaks c listed breaks ▸ inside) free

theorem lined_unlines {ls : List PyStr} (filled : ls ≠ []) (clean : ∀ l ∈ ls, Clean l) :
    Lined (unlines 0x0A ls) := by
  constructor
  · intro c member breaks
    obtain ⟨l, listed, inside⟩ := List.mem_flatMap.mp member
    rcases List.mem_append.mp inside with body | last
    · rw [clean l listed c body] at breaks
      cases breaks
    · exact List.mem_singleton.mp last
  · obtain ⟨l, ls, rfl⟩ := List.eq_nil_or_concat ls |>.resolve_left filled
    rw [List.concat_eq_append, unlines_append, List.getLast?_append]
    simp

theorem join_unlines {ls : List PyStr} (filled : ls ≠ []) :
    join (str "\n") ls ++ str "\n" = unlines 0x0A ls := by
  induction ls with
  | nil => exact absurd rfl filled
  | cons l ls ih =>
    cases ls with
    | nil => simp [join, str]
    | cons m ls =>
      have later := ih (by simp)
      rw [unlines_cons, ← later]
      simp [join, str]

structure Holds (file : Bytes) (t : RunsTable) : Prop where
  text : decode file = some (unlines 0x0A t.lines)
  clean : ∀ l ∈ t.lines, Clean l

/-- The row stands below the last row of the table, and every other byte where it was. -/
def Inserted (line : PyStr) (file file' : Bytes) : Prop :=
  ∃ (t : RunsTable) (front back : Bytes), Holds file t ∧ file = front ++ back ∧
    decode front = some (unlines 0x0A t.front) ∧ decode back = some (unlines 0x0A t.after) ∧
    file' = front ++ line.flatMap encodePoint ++ 0x0A :: back

def runCalls : List PyStr → Bytes → Bytes
  | [], file => file
  | line :: calls, file => runCalls calls (appendResultRow line file).file

def AllSucceed : List PyStr → Bytes → Prop
  | [], _ => True
  | line :: calls, file =>
    (appendResultRow line file).raised = false ∧ AllSucceed calls (appendResultRow line file).file

/-- Each call inserts its row or, when it raises, leaves the file as it is. -/
def AppendOnly : List PyStr → Bytes → Prop
  | [], _ => True
  | line :: calls, file =>
    let o := appendResultRow line file
    (o.raised = true → o.file = file) ∧ (o.raised = false → Inserted line file o.file) ∧
      AppendOnly calls o.file

structure Published (calls : List PyStr) (file : Bytes) : Prop where
  each : AppendOnly calls file
  whole : ∀ t, Holds file t → AllSucceed calls file →
    decode (runCalls calls file) = some (unlines 0x0A (t.front ++ calls ++ t.after))

def Refused (lines : List PyStr) : Prop :=
  ∀ before heading between later, AtHeader before heading between →
    lines ≠ before ++ heading :: (between ++ renderHeader :: later)

theorem table_exists {lines : List PyStr} (separated : Separated lines) (found : ¬ Refused lines) :
    ∃ t : RunsTable, t.lines = lines := by
  simp only [Refused, not_forall, not_not] at found
  obtain ⟨before, heading, between, later, atHeader, whole⟩ := found
  cases later with
  | nil => exact absurd rfl (separated before heading between [] atHeader whole)
  | cons separator later =>
    refine ⟨{ before, heading, between, separator, atHeader, rows := later.takeWhile isRow,
              after := later.dropWhile isRow, listed := ?_, ended := ?_ }, ?_⟩
    · exact fun l member => List.mem_takeWhile_imp member
    · intro l head
      have stopped := List.head?_dropWhile_not isRow later
      rw [head] at stopped
      exact stopped
    · simp [RunsTable.lines, RunsTable.front, whole, List.takeWhile_append_dropWhile]

theorem table_not_refused (t : RunsTable) : ¬ Refused t.lines := by
  intro refused
  apply refused t.before t.heading t.between (t.separator :: (t.rows ++ t.after)) t.atHeader
  simp [RunsTable.lines, RunsTable.front]

theorem clean_newline {ls : List PyStr} (clean : ∀ l ∈ ls, Clean l) :
    universalNewlines (unlines 0x0A ls) = unlines 0x0A ls := by
  apply universalNewlines_eq
  intro member
  obtain ⟨l, listed, inside⟩ := List.mem_flatMap.mp member
  rcases List.mem_append.mp inside with body | last
  · cases clean l listed _ body
  · cases List.mem_singleton.mp last

theorem lines_filled (t : RunsTable) : t.lines ≠ [] := by
  simp [RunsTable.lines, RunsTable.front]

theorem singleRow_isRow {line : PyStr} (single : SingleRow line) : isRow line = true := by
  obtain ⟨s, rfl⟩ := List.head?_eq_some_iff.mp single.started
  have kept : unicodeSpace 0x7C = false := by decide
  rw [isRow, strip, stripBy_head kept]
  rfl

theorem encodes_unlines (ls : List PyStr) :
    Encodes (unlines 0x0A ls) ↔ ∀ l ∈ ls, Encodes l := by
  induction ls with
  | nil => simp [Encodes]
  | cons l ls ih =>
    have newline : Scalar 0x0A := by decide
    rw [unlines_cons, encodes_append, encodes_cons, ih]
    simp [newline]

section Calls
variable {file : Bytes} {t : RunsTable} {line : PyStr}

theorem append_outcome (holds : Holds file t) (line : PyStr) :
    appendResultRow line file = match encode (unlines 0x0A (t.front ++ line :: t.after)) with
      | some bytes => ⟨false, bytes⟩
      | none => ⟨true, []⟩ := by
  have joined : join (str "\n") (t.front ++ line :: t.after) ++ str "\n" =
      unlines 0x0A (t.front ++ line :: t.after) := join_unlines (by simp)
  simp only [appendResultRow, holds.text, clean_newline holds.clean,
    splitlines_unlines holds.clean, newLines_table, joined]

theorem encodes_added (holds : Holds file t) :
    Encodes (unlines 0x0A (t.front ++ line :: t.after)) ↔ Encodes line := by
  have old := (encodes_unlines _).mp (decode_encodes holds.text)
  rw [encodes_unlines]
  constructor
  · intro all
    exact all line (by simp)
  · intro encodable l member
    rcases List.mem_append.mp member with front | added
    · exact old l (List.mem_append_left _ front)
    · rcases List.mem_cons.mp added with rfl | after
      · exact encodable
      · exact old l (List.mem_append_right _ after)

theorem append_table (holds : Holds file t) (encodable : Encodes line) :
    appendResultRow line file =
      ⟨false, (unlines 0x0A (t.front ++ line :: t.after)).flatMap encodePoint⟩ := by
  rw [append_outcome holds, encode, if_pos ((encodes_added holds).mpr encodable)]

/-- A lone surrogate is found when the file has been emptied. -/
theorem append_surrogate (holds : Holds file t) (lone : ¬ Encodes line) :
    appendResultRow line file = ⟨true, []⟩ := by
  rw [append_outcome holds, encode, if_neg fun all => lone ((encodes_added holds).mp all)]

theorem append_refused {text : PyStr} (decoded : decode file = some text) (lined : Lined text)
    (refused : Refused (splitlines text)) : appendResultRow line file = ⟨true, file⟩ := by
  obtain ⟨ls, _, clean, rfl⟩ := lined_lines lined
  rw [splitlines_unlines clean] at refused
  have rejected : newLines ls line = none := by
    cases accepted : newLines ls line with
    | none => rfl
    | some new =>
      obtain ⟨before, heading, between, later, atHeader, whole⟩ := newLines_accepted accepted
      exact absurd whole (refused before heading between later atHeader)
  simp only [appendResultRow, decoded, clean_newline clean, splitlines_unlines clean, rejected]

theorem inserted (holds : Holds file t) (encodable : Encodes line) :
    Inserted line file (appendResultRow line file).file := by
  have old := (encodes_unlines _).mp (decode_encodes holds.text)
  have front : Encodes (unlines 0x0A t.front) :=
    (encodes_unlines _).mpr fun l member => old l (List.mem_append_left _ member)
  have back : Encodes (unlines 0x0A t.after) :=
    (encodes_unlines _).mpr fun l member => old l (List.mem_append_right _ member)
  refine ⟨t, (unlines 0x0A t.front).flatMap encodePoint, (unlines 0x0A t.after).flatMap encodePoint,
    holds, ?_, decode_encoded front, decode_encoded back, ?_⟩
  · rw [decode_eq holds.text, RunsTable.lines, unlines_append, List.flatMap_append]
  · rw [append_table holds encodable, unlines_append, unlines_cons]
    simp [encodePoint]

theorem holds_added (holds : Holds file t) (single : SingleRow line) (encodable : Encodes line) :
    Holds (appendResultRow line file).file (t.add line (singleRow_isRow single)) := by
  have parts : (t.add line (singleRow_isRow single)).lines = t.front ++ line :: t.after := by
    simp [RunsTable.add, RunsTable.lines, RunsTable.front]
  constructor
  · rw [append_table holds encodable, parts]
    exact decode_encoded ((encodes_added holds).mpr encodable)
  · rw [parts]
    intro l member
    rcases List.mem_append.mp member with front | added
    · exact holds.clean l (List.mem_append_left _ front)
    · rcases List.mem_cons.mp added with rfl | after
      · exact single.clean
      · exact holds.clean l (List.mem_append_right _ after)

end Calls

theorem published_table {calls : List PyStr} {file : Bytes} {t : RunsTable} (holds : Holds file t)
    (single : ∀ l ∈ calls, SingleRow l) (encodable : ∀ l ∈ calls, Encodes l) :
    AppendOnly calls file ∧
      decode (runCalls calls file) = some (unlines 0x0A (t.front ++ calls ++ t.after)) := by
  induction calls generalizing file t with
  | nil =>
    refine ⟨trivial, ?_⟩
    rw [runCalls]
    simpa [RunsTable.lines] using holds.text
  | cons line calls ih =>
    have first := single line List.mem_cons_self
    have firstEncodes := encodable line List.mem_cons_self
    obtain ⟨each, whole⟩ := ih (holds_added holds first firstEncodes)
      (fun l member => single l (List.mem_cons_of_mem _ member))
      (fun l member => encodable l (List.mem_cons_of_mem _ member))
    have outcome := append_table holds firstEncodes
    refine ⟨⟨?_, fun _ => inserted holds firstEncodes, each⟩, ?_⟩
    · rw [outcome]
      simp
    · rw [runCalls, whole]
      simp [RunsTable.add, RunsTable.front]

theorem encodes_of_append {calls : List PyStr} {file : Bytes} {t : RunsTable} (holds : Holds file t)
    (single : ∀ l ∈ calls, SingleRow l) (each : AppendOnly calls file) : ∀ l ∈ calls, Encodes l := by
  induction calls generalizing file t with
  | nil => simp
  | cons line calls ih =>
    obtain ⟨unchanged, _, later⟩ := each
    have encodable : Encodes line := by
      by_contra lone
      rw [append_surrogate holds lone] at unchanged
      have empty := holds.text
      rw [← unchanged rfl] at empty
      have nothing : unlines 0x0A t.lines = [] := (Option.some.inj empty).symm
      cases filled : t.lines with
      | nil => exact lines_filled t filled
      | cons l ls =>
        rw [filled, unlines_cons] at nothing
        simp at nothing
    intro l member
    rcases List.mem_cons.mp member with rfl | rest
    · exact encodable
    · exact ih (holds_added holds (single line List.mem_cons_self) encodable)
        (fun l member => single l (List.mem_cons_of_mem _ member)) later l rest

theorem append_only_refused {text : PyStr} {file : Bytes} (decoded : decode file = some text)
    (lined : Lined text) (refused : Refused (splitlines text)) (calls : List PyStr) :
    AppendOnly calls file := by
  induction calls with
  | nil => exact trivial
  | cons line calls ih =>
    have outcome : appendResultRow line file = ⟨true, file⟩ := append_refused decoded lined refused
    refine ⟨fun _ => by rw [outcome], fun succeeded => ?_, by rw [outcome]; exact ih⟩
    rw [outcome] at succeeded
    cases succeeded

theorem holds_lines {text : PyStr} {file : Bytes} {t : RunsTable} (lined : Lined text)
    (decoded : decode file = some text) (lines : t.lines = splitlines text) : Holds file t := by
  obtain ⟨ls, _, clean, rfl⟩ := lined_lines lined
  rw [splitlines_unlines clean] at lines
  exact ⟨lines ▸ decoded, lines ▸ clean⟩

theorem lines_of_holds {text : PyStr} {file : Bytes} {t : RunsTable} (holds : Holds file t)
    (decoded : decode file = some text) : splitlines text = t.lines := by
  cases Option.some.inj (holds.text.symm.trans decoded)
  exact splitlines_unlines holds.clean

/-- Publishing appends, over any calls, exactly when no row with a lone surrogate comes to
a file that is not refused. -/
theorem published_iff {file : Bytes} {text : PyStr} (decoded : decode file = some text)
    (lined : Lined text) (separated : Separated (splitlines text)) {calls : List PyStr}
    (single : ∀ l ∈ calls, SingleRow l) :
    Published calls file ↔ Refused (splitlines text) ∨ ∀ l ∈ calls, Encodes l := by
  constructor
  · rintro ⟨each, _⟩
    by_cases refused : Refused (splitlines text)
    · exact Or.inl refused
    · obtain ⟨t, lines⟩ := table_exists separated refused
      exact Or.inr (encodes_of_append (holds_lines lined decoded lines) single each)
  · intro condition
    by_cases refused : Refused (splitlines text)
    · refine ⟨append_only_refused decoded lined refused calls, fun t holds _ => ?_⟩
      rw [lines_of_holds holds decoded] at refused
      exact absurd refused (table_not_refused t)
    · have encodable := condition.resolve_left refused
      obtain ⟨t, lines⟩ := table_exists separated refused
      exact ⟨(published_table (holds_lines lined decoded lines) single encodable).1,
        fun u holds _ => (published_table holds single encodable).2⟩

theorem separated_last (lines : List PyStr) {last : PyStr} (other : last ≠ renderHeader) :
    Separated (lines ++ [last]) := by
  rintro before heading between later _ whole rfl
  have grouped : before ++ heading :: (between ++ [renderHeader]) =
      (before ++ heading :: between) ++ [renderHeader] := by simp
  exact other (List.singleton_inj.mp (List.append_inj' (whole.trans grouped) rfl).2)

/-- Two rows go below the one that is there, before the text after the table. -/
theorem published_iff_new_table :
    let front := [str "# Results", str "", str "## Runs", str "", renderHeader, str "|---|",
      str "| 2026-09-18 | 0000000 |"]
    let after := [str "", str "## Notes", str "", str "| a table | of its own |"]
    let file := (unlines 0x0A (front ++ after)).flatMap encodePoint
    let rows := [str "| 2026-09-19 | a175598 |", str "| 2026-09-20 | a175598 |"]
    Published rows file ∧ decode (runCalls rows file) = some (unlines 0x0A (front ++ rows ++ after)) := by
  intro front after file rows
  have clean : ∀ l ∈ front ++ after, Clean l := by decide +kernel
  have text : decode file = some (unlines 0x0A (front ++ after)) := decode_encoded (by decide +kernel)
  have lined := lined_unlines (by simp [front]) clean
  have separated : Separated (splitlines (unlines 0x0A (front ++ after))) := by
    rw [splitlines_unlines clean]
    exact separated_last (front ++ [str "", str "## Notes", str ""]) (by decide +kernel)
  have single : ∀ l ∈ rows, SingleRow l := by
    simp only [rows, List.forall_mem_cons]
    exact ⟨⟨by decide +kernel, by decide +kernel⟩, ⟨by decide +kernel, by decide +kernel⟩, by simp⟩
  exact ⟨(published_iff text lined separated single).mpr (Or.inr (by decide +kernel)),
    by decide +kernel⟩

/-- A row from an artifact whose model name holds an escaped lone surrogate. -/
theorem surrogate_row_empties :
    let lines := [str "## Runs", str "", renderHeader, str "|---|", str "| 2026-09-19 | a175598 |"]
    let file := (unlines 0x0A lines).flatMap encodePoint
    let row := str "| " ++ [0xD800] ++ str " |"
    SingleRow row ∧ appendResultRow row file = ⟨true, []⟩ ∧ file ≠ [] ∧ ¬ Published [row] file := by
  intro lines file row
  have outcome : appendResultRow row file = ⟨true, []⟩ := by decide +kernel
  have filled : file ≠ [] := by decide +kernel
  refine ⟨⟨by decide +kernel, by decide +kernel⟩, outcome, filled, ?_⟩
  rintro ⟨⟨unchanged, _⟩, _⟩
  rw [outcome] at unchanged
  exact filled (unchanged rfl).symm

end EvalsAppendRow
