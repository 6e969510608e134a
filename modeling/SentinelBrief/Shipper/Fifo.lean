import SentinelBrief.Library.FifoQueue
import SentinelBrief.Library.Runs
import SentinelBrief.Shipper.Drain

/-!
The spool as a queue, over any number of `drain` calls with puts between them.
`loggedFiles` is the loop of `drain` with its POSTs written down; `attempts`
says which POSTs a queue and the answers to them lead to.
-/
namespace ShipperFifo
open ShipperSpool ShipperDrain Utf8Text JsonText FifoQueue StepRuns

abbrev Attempt := SpoolFile × Option Nat

def retries (answer : Option Nat) : Bool := (post answer).retry

def isSuccess (answer : Option Nat) : Bool :=
  match answer with
  | some status => 200 ≤ status && status < 300
  | none => false

def isRejected (answer : Option Nat) : Bool := !retries answer && !isSuccess answer

section
variable (api : Nat → Bytes → Option Nat) (loads : Bytes → Except BytesError Json)

/-- `drainFiles` with a log of its POSTs. -/
def loggedFiles : List SpoolFile → Nat → Drainer → List Attempt →
    (Except DrainError Nat × Drainer) × List Attempt
  | [], delivered, d, log => ((.ok delivered, d), log)
  | file :: files, delivered, d, log =>
    let answer := api d.posts file.payload
    let log := log ++ [(file, answer)]
    let d := { d with posts := d.posts + 1 }
    if (post answer).retry then
      match d.backoff.wait with
      | .ok (_, backoff) => ((.ok delivered, { d with backoff := backoff }), log)
      | .error e => ((.error e, d), log)
    else match (post answer).status with
      | none => ((.error .assertion, d), log)
      | some status =>
        if 200 ≤ status ∧ status < 300 then
          let d := { d with spool := d.spool.remove file, backoff := d.backoff.reset }
          match sessionIdForLog loads file.payload with
          | .ok _ => loggedFiles files (delivered + 1) d log
          | .error e => ((.error e, d), log)
        else loggedFiles files delivered { d with spool := d.spool.dead file } log

def loggedDrain (d : Drainer) : (Except DrainError Nat × Drainer) × List Attempt :=
  loggedFiles api loads d.spool.pending 0 d []

def attempts : Nat → List SpoolFile → List Attempt
  | _, [] => []
  | i, file :: files => (file, api i file.payload) ::
    if retries (api i file.payload) then [] else attempts (i + 1) files

/-- `json.loads` of a payload that was answered with success raises nothing but
    `JSONDecodeError`. -/
def LogsSafe (atts : List Attempt) : Prop :=
  ∀ a ∈ atts, isSuccess a.2 = true → loads a.1.payload ≠ .error .other

end

variable {api : Nat → Bytes → Option Nat} {loads : Bytes → Except BytesError Json}

theorem loggedFiles_eq (files : List SpoolFile) (delivered : Nat) (d : Drainer)
    (log : List Attempt) :
    (loggedFiles api loads files delivered d log).1 = drainFiles api loads files delivered d := by
  induction files generalizing delivered d log with
  | nil => rfl
  | cons file files ih =>
    simp only [loggedFiles, drainFiles]
    cases (post (api d.posts file.payload)).retry with
    | true => cases d.backoff.wait <;> rfl
    | false =>
      cases (post (api d.posts file.payload)).status with
      | none => rfl
      | some status =>
        by_cases success : 200 ≤ status ∧ status < 300
        · simp only [success, Bool.false_eq_true, if_false, if_true, and_self]
          cases sessionIdForLog loads file.payload with
          | ok id => exact ih _ _ _
          | error e => rfl
        · simp only [success, Bool.false_eq_true, if_false]
          exact ih _ _ _

theorem loggedDrain_eq (d : Drainer) : (loggedDrain api loads d).1 = drain api loads d :=
  loggedFiles_eq _ _ _ _

structure Queue (s : Spool) (q : List SpoolFile) : Prop where
  files : s.files.Perm q
  ordered : q.Pairwise fun f g => f.name < g.name

theorem queue_names {s : Spool} {q : List SpoolFile} (inv : Queue s q) :
    (q.map SpoolFile.name).Nodup :=
  List.pairwise_map.mpr (inv.ordered.imp fun lt => name_ne lt)

theorem queue_pending {s : Spool} {q : List SpoolFile} (inv : Queue s q) : s.pending = q := by
  have sorted : s.pending.Pairwise fun f g => f.name ≤ g.name := List.pairwise_insertionSort _ _
  have same : s.pending.Perm q := (List.perm_insertionSort _ _).trans inv.files
  refine List.Perm.eq_of_pairwise ?_ sorted (inv.ordered.imp fun lt => le_of_lt lt) same
  intro f g in_f in_g le ge
  exact List.inj_on_of_nodup_map (queue_names inv) (same.subset in_f) in_g (le_antisymm le ge)

theorem queue_start {s : Spool} (distinct : (s.files.map SpoolFile.name).Nodup) :
    Queue s s.pending where
  files := (List.perm_insertionSort _ _).symm
  ordered := by
    have sorted : s.pending.Pairwise fun f g => f.name ≤ g.name := List.pairwise_insertionSort _ _
    have names : (s.pending.map SpoolFile.name).Nodup :=
      ((List.perm_insertionSort _ _).map SpoolFile.name).nodup_iff.mpr distinct
    refine (sorted.and (List.pairwise_map.mp names)).imp ?_
    intro f g both
    exact lt_of_le_of_ne both.1 both.2

theorem queue_unlink {s : Spool} {f : SpoolFile} {q : List SpoolFile} (inv : Queue s (f :: q)) :
    Queue (s.unlink f.name) q := by
  obtain ⟨first, ordered⟩ := List.pairwise_cons.mp inv.ordered
  refine ⟨?_, ordered⟩
  have rest : (f :: q).filter (fun g => g.name ≠ f.name) = q := by
    rw [List.filter_cons_of_neg (by simp), List.filter_eq_self]
    intro g member
    simpa using (name_ne (first g member)).symm
  have kept := inv.files.filter fun g => decide (g.name ≠ f.name)
  rwa [rest] at kept

theorem queue_put {cfg : SpoolConfig} {s : Spool} {q : List SpoolFile} {now : Nat} (payload : Bytes)
    (inv : Queue s q) (room : q.length < cfg.maxFiles)
    (later : ∀ f ∈ q, f.name < spoolName cfg now payload) :
    Queue (s.put cfg now payload) (q ++ [⟨spoolName cfg now payload, payload⟩]) ∧
      (s.put cfg now payload).deadDir = s.deadDir := by
  have none : s.evicted cfg = none := by
    rw [Spool.evicted, queue_pending inv, if_neg (by omega)]
  have fresh : (s.unlink (spoolName cfg now payload)).files = s.files := by
    rw [Spool.unlink, List.filter_eq_self]
    intro f member
    simpa using name_ne (later f (inv.files.subset member))
  simp only [Spool.put, none]
  refine ⟨⟨?_, ?_⟩, rfl⟩
  · simp only [fresh]
    exact inv.files.append_right _
  · refine List.pairwise_append.mpr ⟨inv.ordered, List.pairwise_singleton _ _, ?_⟩
    intro f member g new
    rw [List.mem_singleton.mp new]
    exact later f member

theorem final_status {answer : Option Nat} (final : retries answer = false) :
    ∃ status, answer = some status ∧ (post answer).status = some status := by
  cases answer with
  | none => cases final
  | some status =>
    refine ⟨status, rfl, ?_⟩
    unfold post
    dsimp only
    split
    · rfl
    · split <;> rfl

theorem sessionIdForLog_returns {payload : Bytes} (safe : loads payload ≠ .error .other) :
    ∃ id, sessionIdForLog loads payload = .ok id := by
  unfold sessionIdForLog
  split
  · exact ⟨_, rfl⟩
  · rename_i other
    exact absurd other safe
  · split <;> exact ⟨_, rfl⟩

structure Drains (api : Nat → Bytes → Option Nat) (q : List SpoolFile) (delivered : Nat) (d d' : Drainer) (atts : List Attempt)
    (result : Except DrainError Nat) : Prop where
  returned : result = .ok (delivered + atts.countP fun a => isSuccess a.2)
  served : ∃ left, Serves retries q atts left ∧ Queue d'.spool left
  rejected : ∀ a ∈ atts, isRejected a.2 = true → a.1 ∈ d'.spool.deadDir
  kept : ∀ g ∈ d.spool.deadDir, (∀ f ∈ q, g.name ≠ f.name) → g ∈ d'.spool.deadDir
  posted : ∀ a ∈ atts, ∃ i, a.2 = api i a.1.payload

theorem success_final {answer : Option Nat} (success : isSuccess answer = true) :
    retries answer = false := by
  cases answer with
  | none => cases success
  | some status =>
    simp only [isSuccess, Bool.and_eq_true, decide_eq_true_eq] at success
    have small : ¬ (status ∈ retryableStatuses ∨ 500 ≤ status) := by
      simp only [retryableStatuses, List.mem_cons, List.not_mem_nil, or_false]
      omega
    simp only [retries, post, small, if_false]
    split <;> rfl

section Files
variable {file : SpoolFile} {files : List SpoolFile} {delivered : Nat} {d d₁ d' : Drainer}
  {atts : List Attempt} {result : Except DrainError Nat}

theorem drains_retried (inv : Queue d.spool (file :: files))
    (again : retries (api d.posts file.payload) = true) (backoff : Backoff) :
    Drains api (file :: files) delivered d { d with posts := d.posts + 1, backoff := backoff }
      [(file, api d.posts file.payload)] (.ok delivered) where
  returned := by
    have failed : isSuccess (api d.posts file.payload) = false := by
      by_contra success
      simp [success_final (by simpa using success)] at again
    simp [failed]
  served := ⟨file :: files, .stop files again, inv⟩
  rejected := by simp [isRejected, again]
  kept g member _ := member
  posted a member := ⟨d.posts, by rw [List.mem_singleton.mp member]⟩

theorem posted_cons (out : Drains api files delivered d₁ d' atts result) :
    ∀ a ∈ (file, api d.posts file.payload) :: atts, ∃ i, a.2 = api i a.1.payload := by
  intro a member
  rcases List.mem_cons.mp member with rfl | old
  · exact ⟨d.posts, rfl⟩
  · exact out.posted a old

theorem drains_delivered (out : Drains api files (delivered + 1) d₁ d' atts result)
    (final : retries (api d.posts file.payload) = false)
    (success : isSuccess (api d.posts file.payload) = true)
    (same : d₁.spool.deadDir = d.spool.deadDir) :
    Drains api (file :: files) delivered d d' ((file, api d.posts file.payload) :: atts) result where
  returned := by
    rw [out.returned, List.countP_cons, if_pos success]
    congr 1
    omega
  served := by
    obtain ⟨left, served, queue⟩ := out.served
    exact ⟨left, .take final served, queue⟩
  rejected a member rejected := by
    rcases List.mem_cons.mp member with rfl | old
    · simp [isRejected, success] at rejected
    · exact out.rejected a old rejected
  kept g member apart := out.kept g (same ▸ member) fun f inside => apart f (by simp [inside])
  posted := posted_cons out

theorem drains_rejected (out : Drains api files delivered d₁ d' atts result)
    (final : retries (api d.posts file.payload) = false)
    (failed : isSuccess (api d.posts file.payload) = false) (dead : d₁.spool = d.spool.dead file)
    (others : ∀ f ∈ files, file.name < f.name) :
    Drains api (file :: files) delivered d d' ((file, api d.posts file.payload) :: atts) result where
  returned := by
    rw [out.returned, List.countP_cons, failed]
    rfl
  served := by
    obtain ⟨left, served, queue⟩ := out.served
    exact ⟨left, .take final served, queue⟩
  rejected a member rejected := by
    rcases List.mem_cons.mp member with rfl | old
    · refine out.kept file ?_ fun f inside => name_ne (others f inside)
      simp [dead, Spool.dead]
    · exact out.rejected a old rejected
  kept g member apart := by
    refine out.kept g ?_ fun f inside => apart f (by simp [inside])
    have other : g.name ≠ file.name := apart file (by simp)
    simp [dead, Spool.dead, member, other]
  posted := posted_cons out

end Files

theorem wait_overflow {b : Backoff} {e : DrainError} (waited : b.wait = .error e) : e = .overflow := by
  unfold Backoff.wait at waited
  split at waited
  · cases waited
  · cases waited
    rfl

theorem loggedFiles_drains {q : List SpoolFile} {delivered : Nat} {d : Drainer} {log : List Attempt}
    (inv : Queue d.spool q) (safe : LogsSafe loads (attempts api d.posts q))
    (waits : (loggedFiles api loads q delivered d log).1.1 ≠ .error .overflow) :
    ∃ result d', loggedFiles api loads q delivered d log =
        ((result, d'), log ++ attempts api d.posts q) ∧
      Drains api q delivered d d' (attempts api d.posts q) result := by
  induction q generalizing delivered d log with
  | nil =>
    exact ⟨_, d, by simp [loggedFiles, attempts], rfl, ⟨[], .done, inv⟩, by simp [attempts],
      fun g member _ => member, by simp [attempts]⟩
  | cons file files ih =>
    cases again : retries (api d.posts file.payload) with
    | true =>
      have due : attempts api d.posts (file :: files) = [(file, api d.posts file.payload)] := by
        simp [attempts, again]
      have retry : (post (api d.posts file.payload)).retry = true := again
      rw [due]
      cases waited : d.backoff.wait with
      | error e => simp [loggedFiles, retry, waited, wait_overflow waited] at waits
      | ok out => exact ⟨_, _, by simp [loggedFiles, retry, waited], drains_retried inv again out.2⟩
    | false =>
      have due : attempts api d.posts (file :: files) =
          (file, api d.posts file.payload) :: attempts api (d.posts + 1) files := by
        simp [attempts, again]
      obtain ⟨status, answer, known⟩ := final_status again
      have retry : (post (api d.posts file.payload)).retry = false := again
      rw [due] at safe ⊢
      have safe_later : LogsSafe loads (attempts api (d.posts + 1) files) :=
        fun a member => safe a (by simp [member])
      have unlinked := queue_unlink inv
      have range : (200 ≤ status ∧ status < 300) ↔ isSuccess (api d.posts file.payload) = true := by
        simp [isSuccess, answer]
      cases success : isSuccess (api d.posts file.payload) with
      | true =>
        obtain ⟨id, logged⟩ := sessionIdForLog_returns
          (safe (file, api d.posts file.payload) (by simp) success)
        simp only [loggedFiles, retry, Bool.false_eq_true, if_false, known, if_pos (range.mpr success),
          logged] at waits ⊢
        obtain ⟨result, d', run, out⟩ := ih
          (d := ⟨d.spool.remove file, d.backoff.reset, d.posts + 1⟩) unlinked safe_later waits
        exact ⟨result, d', by rw [run, List.append_assoc]; rfl, drains_delivered out again success rfl⟩
      | false =>
        have failed : ¬ (200 ≤ status ∧ status < 300) := by simp [range, success]
        simp only [loggedFiles, retry, Bool.false_eq_true, if_false, known, if_neg failed] at waits ⊢
        have dead : Queue (d.spool.dead file) files := ⟨unlinked.files, unlinked.ordered⟩
        obtain ⟨result, d', run, out⟩ := ih
          (d := ⟨d.spool.dead file, d.backoff, d.posts + 1⟩) dead safe_later waits
        exact ⟨result, d', by rw [run, List.append_assoc]; rfl,
          drains_rejected out again success rfl (List.pairwise_cons.mp inv.ordered).1⟩

/-- A spool with its drainer. `history` has the puts and the POSTs of each drain, `returned` what
    the drains returned, `names` every name the spool has held. -/
structure Spooling where
  drainer : Drainer
  history : List (Entry SpoolFile (Option Nat)) := []
  returned : List Nat := []
  names : List PyStr
  raised : Bool := false

def Spooling.start (d : Drainer) : Spooling :=
  { drainer := d, names := d.spool.files.map SpoolFile.name }

inductive Event where
  | put (now : Nat) (payload : Bytes)
  | drain

def step (cfg : SpoolConfig) (api : Nat → Bytes → Option Nat)
    (loads : Bytes → Except BytesError Json) (w : Spooling) : Event → Option Spooling
  | .put now payload =>
    some { w with drainer := { w.drainer with spool := w.drainer.spool.put cfg now payload },
                  history := w.history ++ [.put ⟨spoolName cfg now payload, payload⟩],
                  names := w.names ++ [spoolName cfg now payload] }
  | .drain => match loggedDrain api loads w.drainer with
    | ((.ok delivered, d), atts) =>
      some { w with drainer := d, history := w.history ++ [.serve atts],
                    returned := w.returned ++ [delivered] }
    | ((.error _, d), atts) =>
      some { w with drainer := d, history := w.history ++ [.serve atts], raised := true }

/-- Puts happen below the cap and under growing names, and `Backoff.wait` returns. -/
def Assumed (cfg : SpoolConfig) (api : Nat → Bytes → Option Nat)
    (loads : Bytes → Except BytesError Json) (w : Spooling) : Event → Prop
  | .put now payload => w.drainer.spool.pending.length < cfg.maxFiles ∧
    ∀ name ∈ w.names, name < spoolName cfg now payload
  | .drain => (drain api loads w.drainer).1 ≠ .error .overflow

def AssumedSafe (cfg : SpoolConfig) (api : Nat → Bytes → Option Nat)
    (loads : Bytes → Except BytesError Json) (w : Spooling) (e : Event) : Prop :=
  Assumed cfg api loads w e ∧
    (e = .drain → LogsSafe loads (attempts api w.drainer.posts w.drainer.spool.pending))

def successes : Entry SpoolFile (Option Nat) → Option Nat
  | .put _ => none
  | .serve atts => some (atts.countP fun a => isSuccess a.2)

structure Posted (api : Nat → Bytes → Option Nat) (deadDir : List SpoolFile)
    (atts : List Attempt) : Prop where
  in_order : (atts.map Prod.fst).Pairwise fun f g => f.name < g.name
  own_bytes : ∀ a ∈ atts, ∃ i, a.2 = api i a.1.payload
  rejected : ∀ a ∈ atts, isRejected a.2 = true → a.1 ∈ deadDir

structure Fifo (api : Nat → Bytes → Option Nat) (start : Spool) (w : Spooling) : Prop where
  quiet : w.raised = false
  queue : Queue w.drainer.spool w.drainer.spool.pending
  replays : Replays retries start.pending w.history w.drainer.spool.pending
  counted : w.returned = w.history.filterMap successes
  posted : ∀ atts, .serve atts ∈ w.history → Posted api w.drainer.spool.deadDir atts

structure Kept (api : Nat → Bytes → Option Nat) (start : Spool) (w : Spooling) : Prop
    extends Fifo api start w where
  named : ∀ f ∈ w.drainer.spool.pending, f.name ∈ w.names
  left : ∀ atts, .serve atts ∈ w.history → ∀ a ∈ atts, isRejected a.2 = true →
    a.1.name ∈ w.names ∧ ∀ f ∈ w.drainer.spool.pending, a.1.name < f.name

theorem kept_start (api : Nat → Bytes → Option Nat) {d : Drainer}
    (distinct : (d.spool.files.map SpoolFile.name).Nodup) :
    Kept api d.spool (Spooling.start d) where
  quiet := rfl
  queue := queue_start distinct
  replays := .nil _
  counted := rfl
  posted atts member := by cases member
  named f member := List.mem_map_of_mem ((List.perm_insertionSort _ _).subset member)
  left atts member := by cases member

variable {cfg : SpoolConfig} {start : Spool} {w w' : Spooling}

theorem kept_put {now : Nat} {payload : Bytes} (inv : Kept api start w)
    (room : w.drainer.spool.pending.length < cfg.maxFiles)
    (later : ∀ name ∈ w.names, name < spoolName cfg now payload) :
    Kept api start
      { w with drainer := { w.drainer with spool := w.drainer.spool.put cfg now payload },
               history := w.history ++ [.put ⟨spoolName cfg now payload, payload⟩],
               names := w.names ++ [spoolName cfg now payload] } := by
  obtain ⟨queue, same⟩ := queue_put payload inv.queue room
    fun f member => later f.name (inv.named f member)
  have pending := queue_pending queue
  refine ⟨⟨inv.quiet, by simp only [pending]; exact queue, ?_, ?_, ?_⟩, ?_, ?_⟩
  · rw [pending]
    exact replays_append.mpr ⟨_, inv.replays, .put (.nil _)⟩
  · simp [List.filterMap_append, inv.counted, successes]
  · intro atts member
    rcases List.mem_append.mp member with old | new
    · rw [same]
      exact inv.posted atts old
    · simp at new
  · intro f member
    rw [pending] at member
    rcases List.mem_append.mp member with old | new
    · exact List.mem_append_left _ (inv.named f old)
    · rw [List.mem_singleton.mp new]
      simp
  · intro atts member a inside rejected
    rcases List.mem_append.mp member with old | new
    · obtain ⟨known, before⟩ := inv.left atts old a inside rejected
      refine ⟨List.mem_append_left _ known, fun f member => ?_⟩
      rw [pending] at member
      rcases List.mem_append.mp member with old | new
      · exact before f old
      · rw [List.mem_singleton.mp new]
        exact later _ known
    · simp at new

theorem mem_attempts {i : Nat} {q : List SpoolFile} {a : Attempt} (member : a ∈ attempts api i q) :
    a.1 ∈ q := by
  induction q generalizing i with
  | nil => cases member
  | cons file files ih =>
    rw [attempts] at member
    rcases List.mem_cons.mp member with rfl | later
    · exact List.mem_cons_self
    · split at later
      · cases later
      · exact List.mem_cons_of_mem _ (ih later)

theorem rejected_before {q left : List SpoolFile} {atts : List Attempt}
    (ordered : q.Pairwise fun f g => f.name < g.name) (served : Serves retries q atts left)
    {a : Attempt} (member : a ∈ atts) (rejected : isRejected a.2 = true) :
    ∀ f ∈ left, a.1.name < f.name := by
  obtain ⟨front, -, eq, last⟩ := serves_parts served
  have inside : a ∈ front := by
    rcases last with ⟨-, rfl⟩ | ⟨x, rest, b, -, again, rfl⟩
    · exact member
    · rcases List.mem_append.mp member with old | new
      · exact old
      · rw [List.mem_singleton.mp new] at rejected
        simp [isRejected, again] at rejected
  rw [eq] at ordered
  exact fun f later => (List.pairwise_append.mp ordered).2.2 _ (List.mem_map_of_mem inside) f later

theorem kept_drain (cfg : SpoolConfig) (inv : Kept api start w)
    (safe : LogsSafe loads (attempts api w.drainer.posts w.drainer.spool.pending))
    (waits : (drain api loads w.drainer).1 ≠ .error .overflow) :
    ∃ w', step cfg api loads w .drain = some w' ∧ Kept api start w' := by
  rw [← loggedDrain_eq] at waits
  obtain ⟨result, d', logged, out⟩ := loggedFiles_drains inv.queue safe waits
  obtain ⟨left, served, queue⟩ := out.served
  have pending := queue_pending queue
  have suffix : left <:+ w.drainer.spool.pending := by
    obtain ⟨front, -, eq, -⟩ := serves_parts served
    exact ⟨_, eq.symm⟩
  rw [out.returned] at logged
  refine ⟨_, by simp only [step, loggedDrain, logged]; rfl, ?_⟩
  refine ⟨⟨inv.quiet, by simp only [pending]; exact queue, ?_, ?_, ?_⟩, ?_, ?_⟩
  · rw [pending]
    exact replays_append.mpr ⟨_, inv.replays, .serve served (.nil _)⟩
  · simp [List.filterMap_append, inv.counted, successes]
  · intro atts member
    rcases List.mem_append.mp member with old | new
    · have posted := inv.posted atts old
      refine ⟨posted.in_order, posted.own_bytes, fun a inside rejected => ?_⟩
      refine out.kept a.1 (posted.rejected a inside rejected) fun f later => ?_
      exact name_ne ((inv.left atts old a inside rejected).2 f later)
    · simp only [List.mem_singleton, Entry.serve.injEq] at new
      subst new
      exact ⟨inv.queue.ordered.sublist (serves_posted served).sublist, out.posted, out.rejected⟩
  · intro f member
    rw [pending] at member
    exact inv.named f (suffix.subset member)
  · intro atts member a inside rejected
    simp only [pending]
    rcases List.mem_append.mp member with old | new
    · obtain ⟨known, before⟩ := inv.left atts old a inside rejected
      exact ⟨known, fun f later => before f (suffix.subset later)⟩
    · simp only [List.mem_singleton, Entry.serve.injEq] at new
      subst new
      exact ⟨inv.named a.1 (mem_attempts inside),
        rejected_before inv.queue.ordered served inside rejected⟩

theorem kept_step {e : Event} (inv : Kept api start w) (assumed : AssumedSafe cfg api loads w e)
    (taken : step cfg api loads w e = some w') : Kept api start w' := by
  obtain ⟨given, safe⟩ := assumed
  cases e with
  | put now payload =>
    rw [step, Option.some.injEq] at taken
    subst taken
    exact kept_put inv given.1 given.2
  | drain =>
    obtain ⟨after, same, kept⟩ := kept_drain cfg inv (safe rfl) given
    rw [same, Option.some.injEq] at taken
    exact taken ▸ kept

def LastLeft (w : Spooling) : Prop :=
  ∀ (h : List (Entry SpoolFile (Option Nat))) (atts : List Attempt) (xs : List SpoolFile),
    w.history = h ++ .serve atts :: xs.map .put → ∃ left, w.drainer.spool.pending = left ++ xs ∧
      (left = [] ∧ (∀ a ∈ atts, retries a.2 = false) ∨
        ∃ front file answer, atts = front ++ [(file, answer)] ∧ retries answer = true ∧
          left.head? = some file)

/-- A file whose answer asked for a retry ends its drain and is the first that the next one
    POSTs. -/
def RetriedNext (w : Spooling) : Prop :=
  ∀ (h later : List (Entry SpoolFile (Option Nat))) (front after : List Attempt)
    (file : SpoolFile) (answer : Option Nat),
    w.history = h ++ .serve (front ++ (file, answer) :: after) :: later →
    retries answer = true → after = [] ∧
      ∀ (xs : List SpoolFile) (next : List Attempt) (h' : List (Entry SpoolFile (Option Nat))),
        later = xs.map .put ++ .serve next :: h' → next.head?.map Prod.fst = some file

/-- A file that is no longer pending had a final answer to its own bytes. -/
def LeftOnly (api : Nat → Bytes → Option Nat) (start : Spool) (w : Spooling) : Prop :=
  ∀ f, (f ∈ start.pending ∨ .put f ∈ w.history) → f ∉ w.drainer.spool.pending →
    ∃ atts answer i, .serve atts ∈ w.history ∧ (f, answer) ∈ atts ∧ answer = api i f.payload ∧
      (isSuccess answer = true ∨ isRejected answer = true ∧ f ∈ w.drainer.spool.deadDir)

theorem lastLeft_of_fifo (inv : Fifo api start w) : LastLeft w := by
  intro h atts xs eq
  have replays := inv.replays
  rw [eq] at replays
  obtain ⟨mid, left, -, served, queue⟩ := replays_last replays
  refine ⟨left, queue, ?_⟩
  obtain ⟨front, final, -, last⟩ := serves_parts served
  rcases last with ⟨none, rfl⟩ | ⟨file, rest, answer, rfl, again, rfl⟩
  · exact .inl ⟨none, final⟩
  · exact .inr ⟨front, file, answer, rfl, again, rfl⟩

theorem retriedNext_of_fifo (inv : Fifo api start w) : RetriedNext w := by
  intro h later front after file answer eq again
  have replays := inv.replays
  rw [eq] at replays
  have last : after = [] := replays_stops again replays
  subst last
  refine ⟨rfl, fun xs next h' same => ?_⟩
  rw [same] at replays
  exact replays_next again replays

theorem leftOnly_of_fifo (inv : Fifo api start w) : LeftOnly api start w := by
  intro f known gone
  rcases replays_leaves inv.replays known with still | ⟨atts, answer, served, posted, final⟩
  · exact absurd still gone
  · obtain ⟨i, own⟩ := (inv.posted atts served).own_bytes _ posted
    refine ⟨atts, answer, i, served, posted, own, ?_⟩
    cases success : isSuccess answer with
    | true => exact .inl rfl
    | false =>
      have rejected : isRejected answer = true := by simp [isRejected, final, success]
      exact .inr ⟨rejected, (inv.posted atts served).rejected _ posted rejected⟩

theorem fifo_kept {d : Drainer} (distinct : (d.spool.files.map SpoolFile.name).Nodup)
    (reached : Reach (step cfg api loads) (AssumedSafe cfg api loads) (Spooling.start d) w) :
    Fifo api d.spool w ∧ LeftOnly api d.spool w ∧ LastLeft w ∧ RetriedNext w := by
  have inv : Kept api d.spool w :=
    reach_invariant (Kept api d.spool) (kept_start api distinct)
      (fun _ _ _ inv assumed taken => kept_step inv assumed taken) reached
  exact ⟨inv.toFifo, leftOnly_of_fifo inv.toFifo, lastLeft_of_fifo inv.toFifo,
    retriedNext_of_fifo inv.toFifo⟩

instance (out : Except BytesError Json) : Decidable (out = .error .other) :=
  match out with
  | .ok _ => .isFalse (by simp)
  | .error .jsonDecode => .isFalse (by simp)
  | .error .other => .isTrue rfl

instance (cfg : SpoolConfig) (api : Nat → Bytes → Option Nat)
    (loads : Bytes → Except BytesError Json) (w : Spooling) (e : Event) :
    Decidable (Assumed cfg api loads w e) :=
  match e with
  | .put .. => inferInstanceAs (Decidable (_ ∧ ∀ name ∈ w.names, name < _))
  | .drain => inferInstanceAs (Decidable ((drain api loads w.drainer).1 ≠ .error .overflow))

instance (loads : Bytes → Except BytesError Json) (atts : List Attempt) :
    Decidable (LogsSafe loads atts) :=
  inferInstanceAs (Decidable (∀ a ∈ atts, _ → ¬ _))

instance (cfg : SpoolConfig) (api : Nat → Bytes → Option Nat)
    (loads : Bytes → Except BytesError Json) (w : Spooling) (e : Event) :
    Decidable (AssumedSafe cfg api loads w e) :=
  match e with
  | .put now payload => decidable_of_iff (Assumed cfg api loads w (.put now payload))
      ⟨fun given => ⟨given, fun no => nomatch no⟩, fun both => both.1⟩
  | .drain => decidable_of_iff (Assumed cfg api loads w .drain ∧
        LogsSafe loads (attempts api w.drainer.posts w.drainer.spool.pending))
      ⟨fun both => ⟨both.1, fun _ => both.2⟩, fun both => ⟨both.1, both.2 rfl⟩⟩

def emptyObject : Bytes := [0x7B, 0x7D]

def fewLoads (payload : Bytes) : Except BytesError Json :=
  if payload = emptyObject then .ok (.obj []) else .error .other

def smallSpool : SpoolConfig := ⟨2, fun _ => str "d", Nat.two_pos⟩

def firstFile (payload : Bytes) : SpoolFile := ⟨str "00000000000000000001-d.json", payload⟩

def oneWaiting (payload : Bytes) : Drainer :=
  { spool := { files := [firstFile payload] }, backoff := ⟨2, 60, 0⟩ }

def threeAnswers (i : Nat) (_ : Bytes) : Option Nat :=
  if i = 0 then some 503 else if i = 1 then some 202 else some 400

/-- A drain that has to stop, a put, and a drain that delivers one file and rejects the other. -/
theorem fifo_kept_session :
    ∃ w, Reach (step smallSpool threeAnswers fewLoads)
        (AssumedSafe smallSpool threeAnswers fewLoads)
        (Spooling.start (oneWaiting emptyObject)) w ∧
      w.returned = [0, 1] ∧ w.drainer.spool.pending = [] ∧ w.drainer.spool.deadDir.length = 1 ∧
      Fifo threeAnswers (oneWaiting emptyObject).spool w ∧
      LeftOnly threeAnswers (oneWaiting emptyObject).spool w ∧ LastLeft w ∧ RetriedNext w := by
  have some : (runIf (step smallSpool threeAnswers fewLoads)
      (AssumedSafe smallSpool threeAnswers fewLoads) (Spooling.start (oneWaiting emptyObject))
      [.drain, .put 2 emptyObject, .drain]).map (fun w =>
        (w.returned, w.drainer.spool.pending, w.drainer.spool.deadDir.length)) =
          some ([0, 1], [], 1) := by decide +kernel
  obtain ⟨w, taken, eq⟩ := Option.map_eq_some_iff.mp some
  simp only [Prod.mk.injEq] at eq
  have reached := runIf_reaches Reach.start taken
  exact ⟨w, reached, eq.1, eq.2.1, eq.2.2, fifo_kept (by decide) reached⟩

/-- A delivered payload that is no UTF-8: `drain` raises after the file is gone and returns no
    count. -/
theorem not_utf8_not_counted :
    ¬ ∀ (cfg : SpoolConfig) (api : Nat → Bytes → Option Nat)
        (loads : Bytes → Except BytesError Json) (d : Drainer) (w : Spooling),
      (d.spool.files.map SpoolFile.name).Nodup →
      Reach (step cfg api loads) (Assumed cfg api loads) (Spooling.start d) w →
      w.returned = w.history.filterMap successes := by
  intro all
  have some : (runIf (step smallSpool (fun _ _ => some 202) fewLoads)
      (Assumed smallSpool (fun _ _ => some 202) fewLoads) (Spooling.start (oneWaiting [0xFF]))
      [.drain]).map (fun w => (w.returned, w.history.filterMap successes, w.raised)) =
        some ([], [1], true) := by decide +kernel
  obtain ⟨w, taken, eq⟩ := Option.map_eq_some_iff.mp some
  simp only [Prod.mk.injEq] at eq
  have counted := all _ _ _ _ w (by decide) (runIf_reaches Reach.start taken)
  rw [eq.1, eq.2.1] at counted
  cases counted

end ShipperFifo
