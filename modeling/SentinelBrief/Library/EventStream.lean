import Mathlib.Data.List.Infix
import SentinelBrief.Library.Utf8

/-!
The `text/event-stream` grammar of Server-Sent Events. A line ends with CRLF, a
lone LF or a lone CR; an unterminated last line, and an event that no blank line
follows, are dropped. `id` and `retry` change neither the type nor the data of
an event.
-/
namespace EventStream
open Utf8Text

structure Event where
  type : PyStr
  data : PyStr
  deriving DecidableEq

/-- The lines that are terminated; `line` is what has been read of the first one. -/
def linesFrom : PyStr → PyStr → List PyStr
  | _, [] => []
  | line, 0x0D :: 0x0A :: s => line :: linesFrom [] s
  | line, 0x0D :: s => line :: linesFrom [] s
  | line, 0x0A :: s => line :: linesFrom [] s
  | line, c :: s => linesFrom (line ++ [c]) s

structure Pending where
  type : PyStr := []
  data : PyStr := []

def fieldValue (s : PyStr) : PyStr :=
  match s with
  | 0x20 :: t => t
  | _ => s

def Pending.set (p : Pending) (name value : PyStr) : Pending :=
  if name = str "event" then { p with type := value }
  else if name = str "data" then { p with data := p.data ++ value ++ [0x0A] }
  else p

def Pending.line (p : Pending) (line : PyStr) : Pending :=
  if line.head? = some 0x3A then p
  else p.set (line.takeWhile (· ≠ 0x3A)) (fieldValue ((line.dropWhile (· ≠ 0x3A)).drop 1))

def Pending.dispatch (p : Pending) : Option Event :=
  if p.data = [] then none
  else some { type := if p.type = [] then str "message" else p.type, data := p.data.dropLast }

def eventsFrom : Pending → List PyStr → List Event
  | _, [] => []
  | p, [] :: ls => p.dispatch.toList ++ eventsFrom {} ls
  | p, l :: ls => eventsFrom (p.line l) ls

def resume (s : PyStr) : List Event := eventsFrom {} (linesFrom [] s)

/-- A leading byte order mark is skipped. -/
def parse (s : PyStr) : List Event :=
  match s with
  | 0xFEFF :: t => resume t
  | _ => resume s

def OneLine (s : PyStr) : Prop := ∀ c ∈ s, c ≠ 0x0A ∧ c ≠ 0x0D

theorem oneLine_append {s t : PyStr} (left : OneLine s) (right : OneLine t) : OneLine (s ++ t) := by
  intro c member
  rcases List.mem_append.mp member with inside | inside
  · exact left c inside
  · exact right c inside

theorem linesFrom_line {t : PyStr} (one : OneLine t) (line s : PyStr) :
    linesFrom line (t ++ 0x0A :: s) = (line ++ t) :: linesFrom [] s := by
  induction t generalizing line with
  | nil => simp [linesFrom]
  | cons c t ih =>
    have plain := one c (by simp)
    have rest := ih (fun d member => one d (by simp [member])) (line ++ [c])
    rw [List.cons_append, linesFrom, rest, List.append_assoc]
    · rfl
    all_goals simp [plain.1, plain.2]

theorem eventsFrom_line {p : Pending} {l : PyStr} (some : l ≠ []) (ls : List PyStr) :
    eventsFrom p (l :: ls) = eventsFrom (p.line l) ls := by
  cases l with
  | nil => exact absurd rfl some
  | cons c l => rfl

theorem line_field (p : Pending) {name : PyStr} (plain : ∀ c ∈ name, c ≠ 0x3A) (some : name ≠ [])
    (value : PyStr) : p.line (name ++ str ": " ++ value) = p.set name value := by
  have head : (name ++ str ": " ++ value).head? ≠ Option.some 0x3A := by
    cases name with
    | nil => exact absurd rfl some
    | cons c name => simpa using plain c (by simp)
  have before : ∀ c ∈ name, decide (c ≠ 0x3A) = true := by
    intro c member
    simpa using plain c member
  have mark : str ": " = [0x3A, 0x20] := rfl
  rw [Pending.line, if_neg head, mark, List.append_assoc,
    List.takeWhile_append_of_pos before, List.dropWhile_append_of_pos before]
  simp [fieldValue]

theorem resume_event {name data : PyStr} (named : name ≠ []) (one_name : OneLine name)
    (one_data : OneLine data) (s : PyStr) :
    resume (str "event: " ++ name ++ str "\ndata: " ++ data ++ str "\n\n" ++ s) =
      { type := name, data := data } :: resume s := by
  have text : str "event: " ++ name ++ str "\ndata: " ++ data ++ str "\n\n" ++ s =
      (str "event" ++ str ": " ++ name) ++ 0x0A :: ((str "data" ++ str ": " ++ data) ++
        0x0A :: ([] ++ 0x0A :: s)) := by
    simp [str]
  have event_line : OneLine (str "event" ++ str ": " ++ name) :=
    oneLine_append (by unfold OneLine; decide) one_name
  have data_line : OneLine (str "data" ++ str ": " ++ data) :=
    oneLine_append (by unfold OneLine; decide) one_data
  have blank : OneLine ([] : PyStr) := by simp [OneLine]
  rw [resume, text, linesFrom_line event_line, linesFrom_line data_line, linesFrom_line blank,
    List.nil_append, List.nil_append, List.nil_append, eventsFrom_line (by simp [str]),
    eventsFrom_line (by simp [str]), line_field _ (by decide) (by decide),
    line_field _ (by decide) (by decide)]
  have differ : ¬ str "data" = str "event" := by decide
  simp [Pending.set, differ, eventsFrom, Pending.dispatch, named, resume]

theorem resume_comment {text : PyStr} (one : OneLine text) (s : PyStr) :
    resume (str ": " ++ text ++ str "\n\n" ++ s) = resume s := by
  have lines : str ": " ++ text ++ str "\n\n" ++ s =
      (str ": " ++ text) ++ 0x0A :: ([] ++ 0x0A :: s) := by
    simp [str]
  have comment_line : OneLine (str ": " ++ text) :=
    oneLine_append (by unfold OneLine; decide) one
  have blank : OneLine ([] : PyStr) := by simp [OneLine]
  rw [resume, lines, linesFrom_line comment_line, linesFrom_line blank, List.nil_append,
    List.nil_append, eventsFrom_line (by simp [str])]
  simp [Pending.line, str, eventsFrom, Pending.dispatch, resume]

/-- The three line ends may be mixed; the last event lacks its blank line. -/
example : parse (str "event: a\r\ndata: 1\rdata:2\n\ndata: 3\r\r: c\n\ndata: 4\n") =
    [⟨str "a", str "1\n2"⟩, ⟨str "message", str "3"⟩] := by decide

end EventStream
