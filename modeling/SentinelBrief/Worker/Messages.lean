import Mathlib.Data.List.Chain
import Mathlib.Data.List.Forall2
import SentinelBrief.Worker.Accounting

/-!
The conversations that a run sends. What holds of the prompt and is kept by a
tool turn, by the forced final instruction and by a retry holds of every list
sent. The strong pass starts from the conversation of the cheap pass up to its
content reply, which is a function of the tool turns alone.
-/
namespace WorkerMessages
open Utf8Text JsonText WorkerPipeline WorkerConversation WorkerAccounting

def isTurn (x : Exchange) : Bool := match x.reply with
  | .turn _ _ => true
  | _ => false

def turnsOf (xs : List Exchange) : List Exchange := xs.takeWhile isTurn

/-- The first call that a content reply answered, or that failed. -/
def contentCall (xs : List Exchange) : Option Exchange := xs.find? fun x => !isTurn x

section
variable (world : World)

def transcript : List ChatMessage → Nat → List Exchange → List ChatMessage
  | msgs, _, [] => msgs
  | msgs, seq, x :: xs =>
    transcript (msgs ++ [.toolCalls (requested x)] ++ turnResults world seq (requested x))
      (seq + (requested x).length) xs

end

def opening (world : World) (cap : Nat) (msgs : List ChatMessage) (seq : Nat)
    (turns : List Exchange) : List ChatMessage :=
  transcript world msgs seq turns ++
    if turns.length = cap then [.user finalVerdictInstruction] else []

def Answers (call : ToolCallRequest) (m : ChatMessage) : Prop := ∃ content, m = .tool call.id content

def plain : ChatMessage → Bool
  | .system _ | .user _ | .assistant _ => true
  | _ => false

/-- Tool messages stand behind the message that asked for them, one a call and in its order. -/
inductive WellFormed : List ChatMessage → Prop where
  | nil : WellFormed []
  | plain {m : ChatMessage} {ms : List ChatMessage} (alone : plain m = true)
      (rest : WellFormed ms) : WellFormed (m :: ms)
  | turn {calls : List ToolCallRequest} {results ms : List ChatMessage}
      (answers : List.Forall₂ Answers calls results) (rest : WellFormed ms) :
      WellFormed (.toolCalls calls :: (results ++ ms))

variable {cfg : PipelineConfig} {world : World} {specs : List PyStr} {turns : Nat}
  {prompt msgs msgs' : List ChatMessage} {recs recs' : List ToolCallRecord}
  {xs ys : List Exchange} {ending : Ending} {model : PyStr} {err : StructuredOutputError}

theorem wellFormed_append {ms ms' : List ChatMessage} (first : WellFormed ms)
    (second : WellFormed ms') : WellFormed (ms ++ ms') := by
  induction first with
  | nil => exact second
  | plain alone rest ih => exact .plain alone ih
  | turn answers rest ih =>
    rw [List.cons_append, List.append_assoc]
    exact .turn answers ih

theorem turnResults_answers (seq : Nat) (calls : List ToolCallRequest) :
    List.Forall₂ Answers calls (turnResults world seq calls) := by
  induction calls generalizing seq with
  | nil => exact .nil
  | cons call calls ih => exact .cons ⟨_, rfl⟩ (ih (seq + 1))

theorem wellFormed_turn (seq : Nat) (calls : List ToolCallRequest) :
    WellFormed ([.toolCalls calls] ++ turnResults world seq calls) := by
  have answers : List.Forall₂ Answers calls (turnResults world seq calls) :=
    turnResults_answers seq calls
  have turn := WellFormed.turn answers .nil
  rwa [List.append_nil] at turn

def retriedErrors : List Exchange → List StructuredOutputError
  | x :: y :: xs => (match x.reply with
    | .content (.invalid err) => [err]
    | _ => []) ++ retriedErrors (y :: xs)
  | _ => []

/-- A property of conversations that every way of going on keeps; a retry may ask for a property
of the error it quotes. -/
structure Keeps (world : World) (quoted : StructuredOutputError → Prop)
    (P : List ChatMessage → Prop) : Prop where
  turn : ∀ msgs seq calls, P msgs → P (msgs ++ [.toolCalls calls] ++ turnResults world seq calls)
  final : ∀ msgs, P msgs → P (msgs ++ [.user finalVerdictInstruction])
  retry : ∀ msgs err, quoted err → P msgs → P (retryMessages msgs err)

variable {P : List ChatMessage → Prop} {quoted : StructuredOutputError → Prop}

theorem retrying_keeps (keeps : Keeps world quoted P) (retry : Retrying msgs err model xs ending)
    (clean : xs ≠ [] → quoted err) (start : P msgs) : ∀ x ∈ xs, P x.request.messages := by
  cases retry with
  | blocked => simp
  | answered | invalid | failed =>
    rw [List.forall_mem_singleton]
    exact keeps.retry _ _ (clean (by simp)) start

theorem retried_mem {x : Exchange} (failed : x.reply = .content (.invalid err)) (some : xs ≠ []) :
    err ∈ retriedErrors (x :: xs) := by
  cases xs with
  | nil => exact absurd rfl some
  | cons y ys => simp [retriedErrors, failed]

theorem retriedErrors_cons {x : Exchange} {e : StructuredOutputError}
    (mem : e ∈ retriedErrors xs) : e ∈ retriedErrors (x :: xs) := by
  cases xs with
  | nil => cases mem
  | cons y ys => exact List.mem_append_right _ mem

theorem closing_keeps (keeps : Keeps world quoted P) (closing : Closing msgs model xs ending)
    (clean : ∀ e ∈ retriedErrors xs, quoted e) (start : P msgs) :
    ∀ x ∈ xs, P x.request.messages := by
  cases closing with
  | blocked => simp
  | answered | failed => simpa using start
  | retried retry =>
    rw [List.forall_mem_cons]
    exact ⟨start, retrying_keeps keeps retry (fun some => clean _ (retried_mem rfl some)) start⟩

/-- The turn of a missing fixture is left half answered, so only an accepted pass keeps `P`. -/
theorem looping_keeps (keeps : Keeps world quoted P)
    (looping : Looping cfg world specs turns msgs recs xs ending msgs' recs')
    (clean : ∀ e ∈ retriedErrors xs, quoted e) (start : P msgs) :
    (∀ x ∈ xs, P x.request.messages) ∧ ∀ a, ending = .ok a → P msgs' := by
  induction looping with
  | cap closing =>
    have forced := keeps.final _ start
    exact ⟨closing_keeps keeps closing clean forced, fun _ _ => forced⟩
  | blocked => exact ⟨by simp, fun _ _ => start⟩
  | answered | failed => exact ⟨by simpa using start, fun _ _ => start⟩
  | retried retry =>
    rw [List.forall_mem_cons]
    exact ⟨⟨start, retrying_keeps keeps retry (fun some => clean _ (retried_mem rfl some)) start⟩,
      fun _ _ => start⟩
  | turn later ih =>
    rw [List.forall_mem_cons]
    obtain ⟨sent, left⟩ := ih (fun e mem => clean e (retriedErrors_cons mem))
      (keeps.turn _ _ _ start)
    exact ⟨⟨start, sent⟩, left⟩
  | missing => exact ⟨by simpa using start, nofun⟩

theorem passing_keeps (keeps : Keeps world quoted P)
    (passing : Passing cfg world prompt xs ending msgs recs)
    (clean : ∀ e ∈ retriedErrors xs, quoted e) (start : P prompt) :
    (∀ x ∈ xs, P x.request.messages) ∧ ∀ a, ending = .ok a → P msgs := by
  cases passing with
  | loop offered looping => exact looping_keeps keeps looping clean start
  | plain unoffered closing => exact ⟨closing_keeps keeps closing clean start, fun _ _ => start⟩

theorem retriedErrors_left {e : StructuredOutputError} (mem : e ∈ retriedErrors xs) :
    e ∈ retriedErrors (xs ++ ys) := by
  induction xs with
  | nil => cases mem
  | cons x xs ih =>
    cases xs with
    | nil => cases mem
    | cons y xs =>
      rcases List.mem_append.mp mem with here | later
      · exact List.mem_append_left _ here
      · exact List.mem_append_right _ (ih later)

theorem retriedErrors_right {e : StructuredOutputError} (mem : e ∈ retriedErrors ys) :
    e ∈ retriedErrors (xs ++ ys) := by
  induction xs with
  | nil => exact mem
  | cons x xs ih => exact retriedErrors_cons ih

theorem conversed_keeps {ending : Except RunError TriageOutcome} (keeps : Keeps world quoted P)
    (conversed : Conversed cfg world prompt xs ending)
    (clean : ∀ e ∈ retriedErrors xs, quoted e) (start : P prompt) :
    ∀ x ∈ xs, P x.request.messages := by
  have escalated {xs ys : List Exchange} {accepted : LlmResult × Bool} {msgs : List ChatMessage}
      {recs : List ToolCallRecord} {ending : Ending} {model : PyStr}
      (passed : Passed cfg world prompt xs accepted msgs recs)
      (closing : Closing msgs model ys ending)
      (clean : ∀ e ∈ retriedErrors (xs ++ ys), quoted e) :
      ∀ x ∈ xs ++ ys, P x.request.messages := by
    obtain ⟨sent, left⟩ := passing_keeps keeps passed.passing
      (fun e mem => clean e (retriedErrors_left mem)) start
    have strong := closing_keeps keeps closing (fun e mem => clean e (retriedErrors_right mem))
      (left _ rfl)
    intro x mem
    exact (List.mem_append.mp mem).elim (sent x) (strong x)
  cases conversed with
  | raised passing => exact (passing_keeps keeps passing clean start).1
  | cheap passed => exact (passing_keeps keeps passed.passing clean start).1
  | strongRaised passed configured escalates closing => exact escalated passed closing clean
  | strong passed configured escalates closing => exact escalated passed closing clean

def RetriedBy (x y : Exchange) : Prop := ∀ err, x.reply = .content (.invalid err) →
  y.request = ⟨retryMessages x.request.messages err, [], x.request.model⟩

theorem retrying_chain (retry : Retrying msgs err model xs ending) :
    (∀ y ∈ xs.head?, y.request = ⟨retryMessages msgs err, [], model⟩) ∧ xs.IsChain RetriedBy := by
  cases retry with
  | blocked => exact ⟨by simp, .nil⟩
  | answered | invalid | failed => exact ⟨by simp, .singleton _⟩

theorem chain_of_retrying {x : Exchange} (failed : x.reply = .content (.invalid err))
    (retry : Retrying x.request.messages err x.request.model xs ending) :
    (x :: xs).IsChain RetriedBy := by
  obtain ⟨first, chain⟩ := retrying_chain retry
  refine List.isChain_cons.mpr ⟨fun y mem other eq => ?_, chain⟩
  rw [failed, Reply.content.injEq, StructuredReply.invalid.injEq] at eq
  rw [← eq]
  exact first y mem

theorem closing_chain (closing : Closing msgs model xs ending) : xs.IsChain RetriedBy := by
  cases closing with
  | blocked => exact .nil
  | answered | failed => exact .singleton _
  | retried retry => exact chain_of_retrying rfl retry

theorem looping_chain (looping : Looping cfg world specs turns msgs recs xs ending msgs' recs') :
    xs.IsChain RetriedBy := by
  induction looping with
  | cap closing => exact closing_chain closing
  | blocked => exact .nil
  | answered | failed | missing => exact .singleton _
  | retried retry => exact chain_of_retrying rfl retry
  | turn later ih => exact List.isChain_cons.mpr ⟨fun y _ err eq => (by cases eq), ih⟩

theorem passing_chain (passing : Passing cfg world prompt xs ending msgs recs) :
    xs.IsChain RetriedBy := by
  cases passing with
  | loop offered looping => exact looping_chain looping
  | plain unoffered closing => exact closing_chain closing

theorem conversed_chain {ending : Except RunError TriageOutcome}
    (conversed : Conversed cfg world prompt xs ending) : xs.IsChain RetriedBy := by
  -- the strong pass follows an accepted reply, which is not retried
  have escalated {xs ys : List Exchange} {accepted : LlmResult × Bool} {msgs : List ChatMessage}
      {recs : List ToolCallRecord} {ending : Ending} {model : PyStr}
      (passed : Passed cfg world prompt xs accepted msgs recs)
      (closing : Closing msgs model ys ending) : (xs ++ ys).IsChain RetriedBy := by
    refine List.isChain_append.mpr ⟨passing_chain passed.passing, closing_chain closing, ?_⟩
    intro x last y _ err eq
    obtain ⟨before, request, rfl⟩ := passing_ends passed.passing
    rw [List.getLast?_concat, Option.mem_some_iff] at last
    rw [← last] at eq
    cases eq
  cases conversed with
  | raised passing => exact passing_chain passing
  | cheap passed => exact passing_chain passed.passing
  | strongRaised passed configured escalates closing => exact escalated passed closing
  | strong passed configured escalates closing => exact escalated passed closing

@[simp] theorem turnsOf_turn (request : Request) (calls : List ToolCallRequest) (usage : Usage) :
    turnsOf (⟨request, .turn calls usage⟩ :: xs) = ⟨request, .turn calls usage⟩ :: turnsOf xs := rfl

@[simp] theorem turnsOf_content (request : Request) (reply : StructuredReply) :
    turnsOf (⟨request, .content reply⟩ :: xs) = [] := rfl

theorem closing_content {x : Exchange} (closing : Closing msgs model xs ending)
    (found : contentCall xs = some x) : x.request = ⟨msgs, [], model⟩ ∧ turnsOf xs = [] := by
  cases closing with
  | blocked => cases found
  | answered | failed | retried =>
    cases found
    exact ⟨rfl, rfl⟩

theorem looping_content {x : Exchange}
    (looping : Looping cfg world specs turns msgs recs xs ending msgs' recs')
    (found : contentCall xs = some x) :
    x.request = ⟨opening world turns msgs recs.length (turnsOf xs),
      if (turnsOf xs).length = turns then [] else specs, cfg.model⟩ ∧
    msgs' = x.request.messages := by
  induction looping with
  | cap closing =>
    obtain ⟨sent, none⟩ := closing_content closing found
    rw [sent, none]
    exact ⟨rfl, rfl⟩
  | blocked | missing => cases found
  | answered | failed | retried =>
    cases found
    simp [opening, transcript]
  | turn later ih =>
    obtain ⟨sent, left⟩ := ih found
    refine ⟨?_, left⟩
    simpa [opening, transcript, requested, turnRecords_length] using sent

theorem passing_content {x : Exchange} (passing : Passing cfg world prompt xs ending msgs recs)
    (found : contentCall xs = some x) :
    x.request.messages = opening world cfg.toolLoopMaxIter prompt 0 (turnsOf xs) ∧
    ((turnsOf xs).length = cfg.toolLoopMaxIter → x.request.tools = []) ∧
    msgs = x.request.messages := by
  cases passing with
  | loop offered looping =>
    obtain ⟨sent, left⟩ := looping_content looping found
    rw [sent] at left ⊢
    exact ⟨rfl, fun full => if_pos full, left⟩
  | plain unoffered closing =>
    obtain ⟨sent, none⟩ := closing_content closing found
    rw [sent, none]
    exact ⟨by simp [opening, transcript, cfg.loop_pos.ne], fun _ => rfl, rfl⟩

theorem contentCall_append {x : Exchange} (found : contentCall xs = some x) :
    contentCall (xs ++ ys) = some x ∧ turnsOf (xs ++ ys) = turnsOf xs := by
  induction xs with
  | nil => cases found
  | cons y xs ih =>
    cases turn : isTurn y with
    | true =>
      have later : contentCall xs = some x := by simpa [contentCall, turn] using found
      simpa [contentCall, turnsOf, turn] using ih later
    | false =>
      have here : y = x := by simpa [contentCall, turn] using found
      subst here
      simp [contentCall, turnsOf, turn]

theorem contentCall_of_ends {r : LlmResult} (ends : EndsWith xs r) :
    ∃ x, contentCall xs = some x := by
  obtain ⟨before, request, rfl⟩ := ends
  rw [← Option.isSome_iff_exists, contentCall, List.find?_isSome]
  exact ⟨⟨request, .content (.result r)⟩, by simp, rfl⟩

theorem conversed_forced {ending : Except RunError TriageOutcome} {x : Exchange}
    (conversed : Conversed cfg world prompt xs ending) (found : contentCall xs = some x)
    (full : (turnsOf xs).length = cfg.toolLoopMaxIter) : x.request.tools = [] := by
  have escalated {xs ys : List Exchange} {accepted : LlmResult × Bool} {msgs : List ChatMessage}
      {recs : List ToolCallRecord} (passed : Passed cfg world prompt xs accepted msgs recs)
      (found : contentCall (xs ++ ys) = some x)
      (full : (turnsOf (xs ++ ys)).length = cfg.toolLoopMaxIter) : x.request.tools = [] := by
    obtain ⟨y, first⟩ := contentCall_of_ends (passing_ends passed.passing)
    obtain ⟨whole, turns⟩ := @contentCall_append xs ys y first
    rw [whole, Option.some.injEq] at found
    rw [turns] at full
    rw [← found]
    exact (passing_content passed.passing first).2.1 full
  cases conversed with
  | raised passing => exact (passing_content passing found).2.1 full
  | cheap passed => exact (passing_content passed.passing found).2.1 full
  | strongRaised passed | strong passed => exact escalated passed found full

theorem retrying_tools (retry : Retrying msgs err model xs ending) :
    ∀ x ∈ xs, x.request.tools = [] := by
  cases retry <;> simp

theorem closing_tools (closing : Closing msgs model xs ending) :
    ∀ x ∈ xs, x.request.tools = [] := by
  cases closing with
  | blocked | answered | failed => simp
  | retried retry =>
    rw [List.forall_mem_cons]
    exact ⟨rfl, retrying_tools retry⟩

theorem closing_first {y : Exchange} {rest : List Exchange}
    (closing : Closing msgs model (y :: rest) ending) : y.request = ⟨msgs, [], model⟩ := by
  cases closing <;> rfl

theorem turnResults_eq_zipWith (seq : Nat) (calls : List ToolCallRequest) :
    turnResults world seq calls = List.zipWith
      (fun call rec => buildToolResultMessage world call.id rec.result) calls
      (turnRecords world seq calls) := by
  induction calls generalizing seq with
  | nil => rfl
  | cons call calls ih => simp [turnResults, turnRecords, ih]

theorem transcript_congr {world' : World} {seq : Nat} (dumps : world.dumps = world'.dumps)
    (same : turnRecords world seq (xs.flatMap requested) =
      turnRecords world' seq (xs.flatMap requested)) :
    transcript world msgs seq xs = transcript world' msgs seq xs := by
  induction xs generalizing msgs seq with
  | nil => rfl
  | cons x xs ih =>
    rw [List.flatMap_cons, turnRecords_append, turnRecords_append] at same
    obtain ⟨first, later⟩ := List.append_inj same (by simp [turnRecords_length])
    have results : turnResults world seq (requested x) = turnResults world' seq (requested x) := by
      rw [turnResults_eq_zipWith, turnResults_eq_zipWith, first]
      simp [buildToolResultMessage, dumps]
    rw [transcript, transcript, results]
    exact ih later

theorem looping_requests (looping : Looping cfg world specs turns msgs recs xs ending msgs' recs') :
    xs.flatMap requested = (turnsOf xs).flatMap requested := by
  induction looping with
  | cap closing =>
    rw [closing_requests closing]
    cases closing <;> rfl
  | blocked | answered | failed | missing => rfl
  | retried retry =>
    rw [List.flatMap_cons, retrying_requests retry]
    rfl
  | turn later ih =>
    rw [turnsOf_turn, List.flatMap_cons, List.flatMap_cons, ih]

theorem passing_requests (passing : Passing cfg world prompt xs ending msgs recs) :
    xs.flatMap requested = (turnsOf xs).flatMap requested := by
  cases passing with
  | loop offered looping => exact looping_requests looping
  | plain unoffered closing =>
    rw [closing_requests closing]
    cases closing <;> rfl

/-- A run whose cheap pass returned `cheap` after the exchanges `xs`; the strong pass then made
the calls `y :: rest`. -/
structure Escalated (cfg : PipelineConfig) (world : World) (prompt : List ChatMessage)
    (cheap : TriageOutcome) (xs : List Exchange) (y : Exchange) (rest : List Exchange) : Prop where
  passed : ∃ s, (cheapPass cfg world).run.run { messages := prompt } = (.ok cheap, s) ∧
    s.exchanges = xs
  called : (runFrom cfg world prompt).2.exchanges = xs ++ y :: rest

theorem escalated_closing {cheap : TriageOutcome} {y : Exchange} {rest : List Exchange}
    (escalated : Escalated cfg world prompt cheap xs y rest) :
    ∃ accepted msgs recs model ending, Passed cfg world prompt xs accepted msgs recs ∧
      Closing msgs model (y :: rest) ending ∧ cheap.toolCalls = recs := by
  obtain ⟨s, ran, exchanges⟩ := escalated.passed
  have conversed := (runFrom_conversed (Prod.mk.eta (p := runFrom cfg world prompt)).symm).1
  rw [escalated.called] at conversed
  -- the cheap pass is a function, so what a run says of it is what `escalated` says
  have known {xs' : List Exchange} {accepted : LlmResult × Bool} {msgs : List ChatMessage}
      {recs : List ToolCallRecord} (passed : Passed cfg world prompt xs' accepted msgs recs) :
      xs' = xs ∧ cheap.toolCalls = recs := by
    obtain ⟨s', ran', exchanges'⟩ := passed.ran
    rw [ran, Prod.mk.injEq, Except.ok.injEq] at ran'
    obtain ⟨rfl, rfl⟩ := ran'
    exact ⟨exchanges'.symm.trans exchanges, rfl⟩
  generalize told : xs ++ y :: rest = all at conversed
  generalize (runFrom cfg world prompt).1 = ended at conversed
  cases conversed with
  | raised passing raised =>
    rw [ran] at raised
    cases raised
  | cheap passed stays =>
    obtain ⟨rfl, -⟩ := known passed
    simp at told
  | strongRaised passed configured escalates closing
  | strong passed configured escalates closing =>
    obtain ⟨rfl, records⟩ := known passed
    rw [List.append_cancel_left_eq] at told
    exact ⟨_, _, _, _, _, passed, told ▸ closing, records⟩

theorem escalated_first {cheap : TriageOutcome} {y : Exchange} {rest : List Exchange}
    (escalated : Escalated cfg world prompt cheap xs y rest) :
    (∀ z ∈ y :: rest, z.request.tools = []) ∧
    (∃ x, contentCall xs = some x ∧ y.request.messages = x.request.messages) ∧
    y.request.messages = opening world cfg.toolLoopMaxIter prompt 0 (turnsOf xs) ∧
    cheap.toolCalls = turnRecords world 0 ((turnsOf xs).flatMap requested) := by
  obtain ⟨accepted, msgs, recs, model, ending, passed, closing, records⟩ :=
    escalated_closing escalated
  obtain ⟨x, found⟩ := contentCall_of_ends (passing_ends passed.passing)
  obtain ⟨sent, -, left⟩ := passing_content passed.passing found
  have first : y.request.messages = msgs := congrArg Request.messages (closing_first closing)
  refine ⟨closing_tools closing, ⟨x, found, first.trans left⟩, ?_, ?_⟩
  · rw [first, left, sent]
  · rw [records, passing_records passed.passing, passing_requests passed.passing]

theorem transcript_unanswered {seq : Nat} {content : PyStr}
    (start : .assistant content ∉ msgs) : .assistant content ∉ transcript world msgs seq xs := by
  induction xs generalizing msgs seq with
  | nil => exact start
  | cons x xs ih =>
    have results (seq : Nat) (calls : List ToolCallRequest) :
        .assistant content ∉ turnResults world seq calls := by
      induction calls generalizing seq with
      | nil => exact List.not_mem_nil
      | cons call calls ih => simp [turnResults, buildToolResultMessage, ih]
    apply ih
    simp [start, results]

theorem opening_unanswered {cap seq : Nat} {content : PyStr}
    (start : .assistant content ∉ msgs) : .assistant content ∉ opening world cap msgs seq xs := by
  rw [opening, List.mem_append, not_or]
  constructor
  · exact transcript_unanswered start
  · split <;> simp

theorem keeps_start (start : List ChatMessage) :
    Keeps world (fun _ => True) (fun msgs => start <+: msgs) where
  turn msgs seq calls kept := by
    rw [List.append_assoc]
    exact kept.trans (List.prefix_append _ _)
  final msgs kept := kept.trans (List.prefix_append _ _)
  retry msgs err _ kept := kept.trans (List.prefix_append _ _)

theorem keeps_wellFormed : Keeps world (fun _ => True) WellFormed where
  turn msgs seq calls kept := by
    rw [List.append_assoc]
    exact wellFormed_append kept (wellFormed_turn seq calls)
  final msgs kept := wellFormed_append kept (.plain rfl .nil)
  retry msgs err _ kept := wellFormed_append kept (.plain rfl (.plain rfl .nil))

/-- Every list a run sends starts with the prompt and is well formed; a retry adds the failed
reply and the instruction; the strong pass starts from the prompt and the tool turns; tools are
offered in the turns of the loop only. -/
theorem conversation_sound {system summary : PyStr} {ending : Except RunError TriageOutcome}
    {s : RunState} (ran : runFrom cfg world (buildMessages system summary) = (ending, s)) :
    (∀ x ∈ s.exchanges, buildMessages system summary <+: x.request.messages ∧
      WellFormed x.request.messages) ∧
    (∀ before x y after err, s.exchanges = before ++ x :: y :: after →
      x.reply = .content (.invalid err) →
      y.request.messages = x.request.messages ++
        [.assistant err.rawText, .user (retryInstruction err.validationError)] ∧
      y.request.tools = []) ∧
    (∀ x, contentCall s.exchanges = some x →
      (turnsOf s.exchanges).length = cfg.toolLoopMaxIter → x.request.tools = []) ∧
    ∀ cheap xs y rest, Escalated cfg world (buildMessages system summary) cheap xs y rest →
      (∀ z ∈ y :: rest, z.request.tools = []) ∧
      (∃ x, contentCall xs = some x ∧ y.request.messages = x.request.messages) ∧
      y.request.messages =
        opening world cfg.toolLoopMaxIter (buildMessages system summary) 0 (turnsOf xs) ∧
      (∀ content, .assistant content ∉ y.request.messages) ∧
      ∀ world' cheap' xs' y' rest',
        Escalated cfg world' (buildMessages system summary) cheap' xs' y' rest' →
        world.dumps = world'.dumps → turnsOf xs = turnsOf xs' →
        cheap.toolCalls = cheap'.toolCalls → y'.request.messages = y.request.messages := by
  have conversed := (runFrom_conversed ran).1
  refine ⟨fun x mem => ⟨?_, ?_⟩, ?_, ?_, ?_⟩
  · exact conversed_keeps (keeps_start _) conversed (fun _ _ => trivial) List.prefix_rfl x mem
  · exact conversed_keeps keeps_wellFormed conversed (fun _ _ => trivial)
      (.plain rfl (.plain rfl .nil)) x mem
  · intro before x y after err split failed
    have chain := conversed_chain conversed
    have sent := List.isChain_iff_forall_rel_of_append_cons_cons.mp chain split err failed
    rw [sent]
    exact ⟨rfl, rfl⟩
  · intro x found full
    exact conversed_forced conversed found full
  · intro cheap xs y rest escalated
    obtain ⟨untooled, content, first, trace⟩ := escalated_first escalated
    refine ⟨untooled, content, first, fun reply => ?_, ?_⟩
    · rw [first]
      exact opening_unanswered (by simp [buildMessages])
    · intro world' cheap' xs' y' rest' escalated' dumps turns same
      obtain ⟨-, -, first', trace'⟩ := escalated_first escalated'
      rw [trace, trace', ← turns] at same
      rw [first, first', ← turns, opening, opening, transcript_congr dumps same]

theorem strongWorld_escalates :
    ∃ cheap xs y, Escalated strongConfig strongWorld (buildMessages [] []) cheap xs y [] ∧
      xs.length = 3 ∧ y.request.messages.length = 5 := by
  refine ⟨_, _, ⟨⟨_, [], str "gpt-4o"⟩, .content (.result ⟨sampleVerdict, [], sampleUsage⟩)⟩,
    ⟨⟨_, rfl, rfl⟩, rfl⟩, by decide +kernel, by decide +kernel⟩

theorem conversation_sound_escalated :
    ∃ cheap xs y, Escalated strongConfig strongWorld (buildMessages [] []) cheap xs y [] ∧
      xs.length = 3 ∧ y.request.messages.length = 5 ∧
      ∀ content, .assistant content ∉ y.request.messages := by
  obtain ⟨cheap, xs, y, escalated, calls, messages⟩ := strongWorld_escalates
  have sound := conversation_sound
    (Prod.mk.eta (p := runFrom strongConfig strongWorld (buildMessages [] []))).symm
  exact ⟨cheap, xs, y, escalated, calls, messages,
    (sound.2.2.2 cheap xs y [] escalated).2.2.2.1⟩

end WorkerMessages
