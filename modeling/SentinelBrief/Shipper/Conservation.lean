import SentinelBrief.Shipper.Caps
import SentinelBrief.Shipper.Ledger
import SentinelBrief.Shipper.ReadFeed

/-!
What happens to the events fed to a `SessionAssembler` over a whole run of
calls. `Account` ties a session to the events fed to it since it was opened;
every event of the run belongs to one account, open, shipped or dropped.
-/
namespace ShipperConservation
open ShipperAssemble ShipperCaps ShipperReadFeed Utf8Text JsonText StepRuns

def Reencodable (cfg : AssemblerConfig) (event : Json) : Prop :=
  event.scalars = true ∧ event.depth + 2 ≤ cfg.dumpLimit

/-- `fed` are the events of one session id since the session was opened. -/
structure Account (cfg : AssemblerConfig) (key : Key) (s : OpenSession) (fed : List Json) :
    Prop where
  capped : CappedOnce cfg s fed
  started : fed ≠ []
  id : ∃ id, key = .text id ∧ s.sessionId = .str id ∧ ∀ e ∈ fed, field "session" e = .str id
  connect : ∀ e, fed.head? = some e →
    s.hasConnect = isText (field "eventid" e) connectEvent ∧ s.srcIp = field "src_ip" e ∧
    s.sensor = field "sensor" e
  writable : ∀ e ∈ fed, isEvent e = true ∧ Reencodable cfg e

variable {cfg : AssemblerConfig} {s : OpenSession} {a a' : SessionAssembler} {l : Ledger}
  {key : Key} {fed all : List Json}

theorem field_scalars {name : String} {event : Json} (ok : event.scalars = true) :
    (field name event).scalars = true := by
  cases event with
  | obj fs =>
    simp only [field, Json.get?]
    induction fs with
    | nil => rfl
    | cons f fs ih =>
      obtain ⟨k, v⟩ := f
      simp only [Json.scalars, membersScalars, Bool.and_eq_true] at ok ih
      rw [List.find?_cons]
      split
      · exact ok.1.2
      · exact ih ok.2
  | _ => rfl

theorem field_depth (name : String) {event : Json} (usable : isEvent event = true) :
    (field name event).depth + 1 ≤ event.depth := by
  cases event with
  | obj fs =>
    simp only [field, Json.get?, Json.depth]
    clear usable
    induction fs with
    | nil => simp [Json.depth]
    | cons f fs ih =>
      obtain ⟨k, v⟩ := f
      simp only [membersDepth]
      rw [List.find?_cons]
      split
      · simp only [Option.map_some, Option.getD_some]
        omega
      · omega
  | _ => simp [isEvent] at usable

@[simp] theorem append_hasConnect (event : Json) (now : Int) :
    (s.append cfg event now).hasConnect = s.hasConnect := by
  unfold OpenSession.append
  split <;> rfl

theorem account_append {event : Json} {id : PyStr} (now : Int) (inv : Account cfg key s fed)
    (same : key = .text id) (session : field "session" event = .str id)
    (usable : isEvent event = true) (writable : Reencodable cfg event) :
    Account cfg key (s.append cfg event now) (fed ++ [event]) where
  capped := cappedOnce_append inv.capped event now
  started := by simp
  id := by
    obtain ⟨other, at_key, sessionId, ids⟩ := inv.id
    rw [same, Key.text.injEq] at at_key
    subst at_key
    refine ⟨id, same, by simpa using sessionId, fun e member => ?_⟩
    rcases List.mem_append.mp member with old | new
    · exact ids e old
    · rw [List.mem_singleton.mp new]
      exact session
  connect e head := by
    rw [List.head?_append_of_ne_nil _ inv.started] at head
    simpa using inv.connect e head
  writable e member := by
    rcases List.mem_append.mp member with old | new
    · exact inv.writable e old
    · rw [List.mem_singleton.mp new]
      exact ⟨usable, writable⟩

theorem account_first {event : Json} {id : PyStr} (now : Int)
    (session : field "session" event = .str id) (usable : isEvent event = true)
    (writable : Reencodable cfg event) :
    Account cfg (.text id) ((openSession event now).append cfg event now) [event] where
  capped :=
    have first : CappedOnce cfg (openSession event now) [] := ⟨rfl, rfl⟩
    cappedOnce_append first event now
  started := by simp
  id := ⟨id, rfl, by simpa [openSession] using session, by simpa using session⟩
  connect e head := by
    simp only [List.head?_cons, Option.some.injEq] at head
    subst head
    simp [openSession]
  writable e member := by
    rw [List.mem_singleton.mp member]
    exact ⟨usable, writable⟩

theorem account_dumpable (inv : Account cfg key s fed) :
    Dumpable cfg s (capEvents cfg s.events) := by
  obtain ⟨first, rest, eq⟩ := List.exists_cons_of_ne_nil inv.started
  obtain ⟨_, ip, sensor⟩ := inv.connect first (by rw [eq]; rfl)
  obtain ⟨usable, scalars, depth⟩ := inv.writable first (by simp [eq])
  obtain ⟨id, _, sessionId, ids⟩ := inv.id
  have own : s.sessionId = field "session" first := by
    rw [sessionId, ids first (by simp [eq])]
  have ip_depth := field_depth "src_ip" usable
  have sensor_depth := field_depth "sensor" usable
  have id_depth := field_depth "session" usable
  have whole : Dumpable cfg s fed := by
    refine ⟨?_, fun e member => (inv.writable e member).2.1, ?_,
      fun e member => (inv.writable e member).2.2⟩
    · rw [own, ip, sensor]
      exact ⟨field_scalars scalars, field_scalars scalars, field_scalars scalars⟩
    · rw [own, ip, sensor]
      exact ⟨by omega, by omega, by omega, by omega⟩
  refine dumpable_subset whole ?_
  rw [inv.capped.events, capEvents_twice]
  exact (capEvents_sublist cfg fed).subset

structure Accounts (cfg : AssemblerConfig) (a : SessionAssembler) (l : Ledger) (all : List Json) :
    Prop where
  books : Books cfg a l
  total : l.events.Perm all
  opened : ∀ key s, a.session? key = some s → Account cfg key s (l.fedTo key)
  shipped : ∀ sh ∈ l.shipped, (∃ key, Account cfg key sh.session sh.fed) ∧
    sh.session.hasConnect = true ∧ sh.fed.Sublist all ∧
    ∃ truncated, buildPayload cfg sh.session = .ok (sh.payload, truncated)
  dropped : ∀ d ∈ l.dropped, ∃ key, Account cfg key d.1 d.2
  order : (l.opened.map (·.2)).Sublist all

theorem fedTo_sublist (l : Ledger) (key : Key) :
    (l.fedTo key).Sublist (l.opened.map (·.2)) := List.filter_sublist.map _

theorem accounts_start : Accounts cfg {} {} [] where
  books := books_start
  total := List.Perm.refl _
  opened key s found := by cases found
  shipped sh member := by cases member
  dropped d member := by cases member
  order := List.Sublist.refl _

theorem account_joined {event : Json} {id : PyStr} (now : Int) (inv : Accounts cfg a l all)
    (session : field "session" event = .str id) (usable : isEvent event = true)
    (writable : Reencodable cfg event) :
    Account cfg (.text id) (joined cfg (.text id) event now a)
      ((l.enter (.text id) event).fedTo (.text id)) := by
  rw [fedTo_enter_same, joined]
  cases found : a.session? (.text id) with
  | some s => exact account_append now (inv.opened _ s found) rfl session usable writable
  | none =>
    have none : l.fedTo (.text id) = [] := by
      simp only [Ledger.fedTo, List.map_eq_nil_iff, List.filter_eq_nil_iff]
      intro x member
      have some := inv.books.known x member
      simp only [decide_eq_true_eq]
      intro same
      rw [same, found] at some
      cases some
    rw [none, Option.getD_none, List.nil_append]
    exact account_first now session usable writable

theorem accounts_enter {event : Json} {id : PyStr} (now : Int) (inv : Accounts cfg a l all)
    (session : field "session" event = .str id) (usable : isEvent event = true)
    (writable : Reencodable cfg event) :
    Accounts cfg (a.store (.text id) (joined cfg (.text id) event now a))
      (l.enter (.text id) event) (all ++ [event]) where
  books := books_enter inv.books (.text id) event now
  total := (events_enter l (.text id) event).trans (inv.total.append_right _)
  opened key s found := by
    by_cases same : key = .text id
    · subst same
      rw [store_session?_same, Option.some.injEq] at found
      exact found ▸ account_joined now inv session usable writable
    · rw [store_session?_other _ _ same] at found
      rw [fedTo_enter_other _ same]
      exact inv.opened key s found
  shipped sh member := by
    obtain ⟨account, connect, sub, built⟩ := inv.shipped sh member
    exact ⟨account, connect, sub.trans (List.sublist_append_left _ _), built⟩
  dropped := inv.dropped
  order := by
    simp only [Ledger.enter, List.map_append, List.map_cons, List.map_nil]
    exact inv.order.append (List.Sublist.refl _)

theorem accounts_leave {payloads : List Bytes} (inv : Accounts cfg a l all)
    (found : a.session? key = some s) (left : ship cfg s (a.forget key) = .ok (payloads, a')) :
    Accounts cfg a' (l.leave key s payloads) all := by
  have account := inv.opened key s found
  have frame := ship_sessions left
  have gone : a'.session? key = none := by
    simp [SessionAssembler.session?, frame.1, SessionAssembler.forget]
  have own : (l.fedTo key).Sublist all := (fedTo_sublist l key).trans inv.order
  refine ⟨books_leave inv.books found left, (events_leave l key s (ship_one left)).trans inv.total,
    ?_, ?_, ?_, ?_⟩
  · intro other t open_t
    have ne : other ≠ key := by
      rintro rfl
      simp [gone] at open_t
    rw [fedTo_leave_other _ ne]
    refine inv.opened other t ?_
    rw [← forget_session?_ne (a := a) ne]
    simpa only [SessionAssembler.session?, frame.1] using open_t
  · intro sh member
    rcases List.mem_append.mp member with old | new
    · exact inv.shipped sh old
    · obtain ⟨payload, inside, rfl⟩ := List.mem_map.mp new
      rcases ship_cases left with ⟨bytes, truncated, built, rfl, _⟩ | ⟨_, rfl, _⟩
      · rw [List.mem_singleton.mp inside]
        refine ⟨⟨key, account⟩, ?_, own, truncated, built⟩
        by_contra unconnected
        simp [ship, unconnected] at left
      · cases inside
  · intro d member
    simp only [Ledger.leave] at member
    split at member
    · rcases List.mem_append.mp member with old | new
      · exact inv.dropped d old
      · rw [List.mem_singleton.mp new]
        exact ⟨key, account⟩
    · exact inv.dropped d member
  · exact (List.filter_sublist.map _).trans inv.order

def leftCount (l : Ledger) (key : Key) : Nat :=
  l.shipped.countP (fun sh => keyOf sh.session.sessionId = some key) +
    l.dropped.countP (fun d => keyOf d.1.sessionId = some key)

def Turns (a : SessionAssembler) (l : Ledger) (openings : List Key) : Prop :=
  ∀ key, openings.count key = leftCount l key + if (a.session? key).isSome then 1 else 0

variable {openings : List Key}

theorem turns_enter (key : Key) (event : Json) (inv : Turns a l openings) :
    Turns (a.store key s) (l.enter key event)
      (openings ++ if (a.session? key).isSome then [] else [key]) := by
  intro other
  have before := inv other
  have same : leftCount (l.enter key event) other = leftCount l other := rfl
  rw [same, List.count_append, before]
  by_cases here : other = key
  · subst here
    rw [store_session?_same]
    cases (a.session? other).isSome <;> simp
  · rw [store_session?_other _ _ here]
    have none : (if (a.session? key).isSome then [] else [key]).count other = 0 := by
      split
      · rfl
      · exact List.count_eq_zero.mpr (by simpa using here)
    omega

theorem leftCount_leave {payloads : List Bytes} (own : keyOf s.sessionId = some key)
    (one : payloads.length ≤ 1) (other : Key) :
    leftCount (l.leave key s payloads) other = leftCount l other + if key = other then 1 else 0 := by
  have match_own : (keyOf s.sessionId = some other) ↔ key = other := by
    rw [own, Option.some.injEq]
  rcases payloads with _ | ⟨payload, _ | ⟨_, _⟩⟩
  · simp only [leftCount, Ledger.leave, List.map_nil, List.append_nil, if_true, List.countP_append,
      List.countP_cons, List.countP_nil, match_own, decide_eq_true_eq]
    omega
  · simp only [leftCount, Ledger.leave, List.map_cons, List.map_nil, List.cons_ne_nil, if_false,
      List.countP_append, List.countP_cons, List.countP_nil, match_own, decide_eq_true_eq]
    omega
  · simp at one

theorem turns_leave {payloads : List Bytes} (own : keyOf s.sessionId = some key)
    (inv : Turns a l openings) (found : a.session? key = some s)
    (left : ship cfg s (a.forget key) = .ok (payloads, a')) :
    Turns a' (l.leave key s payloads) openings := by
  intro other
  have frame := ship_sessions left
  rw [inv other, leftCount_leave own (ship_one left)]
  by_cases here : key = other
  · subst here
    have gone : a'.session? key = none := by
      simp [SessionAssembler.session?, frame.1, SessionAssembler.forget]
    simp [gone, found]
  · have same : a'.session? other = a.session? other := by
      rw [← forget_session?_ne (a := a) (Ne.symm here)]
      simp only [SessionAssembler.session?, frame.1]
    rw [same, if_neg here]
    omega

theorem account_key (inv : Account cfg key s fed) : keyOf s.sessionId = some key := by
  obtain ⟨id, rfl, sessionId, _⟩ := inv.id
  rw [sessionId]
  rfl

theorem flush_accounts {keys : List Key} {payloads : List Bytes} (inv : Accounts cfg a l all)
    (turns : Turns a l openings) (flushed : flush cfg keys a = .ok (payloads, a')) :
    Accounts cfg a' (l.afterFlush cfg keys a) all ∧
      Turns a' (l.afterFlush cfg keys a) openings := by
  induction keys generalizing a l payloads with
  | nil =>
    cases flushed
    exact ⟨inv, turns⟩
  | cons key keys ih =>
    simp only [flush] at flushed
    cases found : a.session? key with
    | none => simp [found] at flushed
    | some s =>
      simp only [found] at flushed
      cases left : ship cfg s (a.forget key) with
      | error e => simp [left] at flushed
      | ok out =>
        obtain ⟨first, a₁⟩ := out
        simp only [left] at flushed
        cases rest : flush cfg keys a₁ with
        | error e => simp [rest] at flushed
        | ok more =>
          obtain ⟨later, a₂⟩ := more
          simp only [rest, Except.ok.injEq, Prod.mk.injEq] at flushed
          obtain ⟨-, rfl⟩ := flushed
          simp only [Ledger.afterFlush, found, left]
          exact ih (accounts_leave inv found left)
            (turns_leave (account_key (inv.opened key s found)) turns found left) rest

def opens (cfg : AssemblerConfig) (line : PyStr) (a : SessionAssembler) : List Key :=
  match eventOf cfg line with
  | none => []
  | some event => match keyOf (field "session" event) with
    | none => []
    | some key => if (a.session? key).isSome then [] else [key]

def Allowed (cfg : AssemblerConfig) (line : PyStr) : Prop :=
  ∀ event, eventOf cfg line = some event →
    (∃ id, field "session" event = .str id) ∧ Reencodable cfg event

/-- `json.loads` of the line raises nothing but `JSONDecodeError`. -/
def Readable (cfg : AssemblerConfig) (line : PyStr) : Prop :=
  loads cfg.loadLimit line ≠ .error .value ∧ loads cfg.loadLimit line ≠ .error .recursion

theorem eventOf_some_iff {line : PyStr} {event : Json} :
    eventOf cfg line = some event ↔
      loads cfg.loadLimit line = .ok event ∧ isEvent event = true := by
  unfold eventOf
  split
  · rename_i found read
    rw [read, Except.ok.injEq]
    split
    · rename_i usable
      rw [Option.some.injEq]
      exact ⟨fun same => ⟨same, same ▸ usable⟩, fun both => both.1⟩
    · rename_i unusable
      simp only [reduceCtorEq, false_iff, not_and]
      rintro rfl
      exact unusable
  · rename_i read
    simp [read]

theorem feed_returns {line : PyStr} (now : Int) (inv : Accounts cfg a l all)
    (allowed : Allowed cfg line) (readable : Readable cfg line) :
    ∃ out, feed cfg line now a = .ok out := by
  refine feed_ok_iff.mpr ⟨readable.1, readable.2, fun event read usable => ?_⟩
  obtain ⟨⟨id, session⟩, writable⟩ := allowed event (eventOf_some_iff.mpr ⟨read, usable⟩)
  refine ⟨.text id, by rw [session]; rfl, fun _ _ => ?_⟩
  exact account_dumpable (account_joined now inv session usable writable)

theorem feed_accounts {line : PyStr} {now : Int} {payloads : List Bytes}
    (inv : Accounts cfg a l all) (turns : Turns a l openings) (allowed : Allowed cfg line)
    (done : feed cfg line now a = .ok (payloads, a')) :
    Accounts cfg a' (l.afterFeed cfg line now a payloads) (all ++ (eventOf cfg line).toList) ∧
      Turns a' (l.afterFeed cfg line now a payloads) (openings ++ opens cfg line a) ∧
      a'.parseErrors = a.parseErrors + if (eventOf cfg line).isNone then 1 else 0 := by
  have skipped : Accounts cfg { a with parseErrors := a.parseErrors + 1 } l all :=
    ⟨⟨inv.books.distinct, inv.books.sessions, inv.books.known, inv.books.shipments,
      inv.books.unconnected, inv.books.dropped⟩, inv.total, inv.opened, inv.shipped, inv.dropped,
      inv.order⟩
  cases event : eventOf cfg line with
  | none =>
    have after : l.afterFeed cfg line now a payloads = l := by simp [Ledger.afterFeed, event]
    have none : opens cfg line a = [] := by simp [opens, event]
    rw [after, none]
    simp only [Option.toList_none, List.append_nil, Option.isNone_none, if_true]
    have same : a' = { a with parseErrors := a.parseErrors + 1 } := by
      unfold feed at done
      split at done
      · cases done
        rfl
      · cases done
      · cases done
      · rename_i found read
        split at done
        · rename_i usable
          simp [eventOf_some_iff.mpr ⟨read, usable⟩] at event
        · cases done
          rfl
    subst same
    exact ⟨skipped, turns, rfl⟩
  | some found =>
    obtain ⟨read, usable⟩ := eventOf_some_iff.mp event
    obtain ⟨⟨id, session⟩, writable⟩ := allowed found event
    have hashed : keyOf (field "session" found) = some (.text id) := by
      rw [session]
      rfl
    have entered := accounts_enter now inv session usable writable
    have turned := turns_enter (s := joined cfg (.text id) found now a) (.text id) found turns
    have opened : opens cfg line a =
        if (a.session? (.text id)).isSome then [] else [.text id] := by
      simp [opens, event, hashed]
    simp only [feed, read, usable, if_true, hashed, fold] at done
    simp only [Ledger.afterFeed, event, hashed, opened, Option.toList_some, Option.isNone_some,
      Bool.false_eq_true, if_false, Nat.add_zero]
    split at done
    · rename_i closed
      rw [if_pos closed]
      have own := account_key (account_joined now inv session usable writable)
      exact ⟨accounts_leave entered (store_session?_same _ _ _) done,
        turns_leave own turned (store_session?_same _ _ _) done, (ship_sessions done).2⟩
    · rename_i still
      rw [if_neg still]
      cases done
      exact ⟨entered, turned, rfl⟩

def lineOf : AssemblerCall → List PyStr
  | .feed line _ => [line]
  | _ => []

def afterCall (cfg : AssemblerConfig) (call : AssemblerCall) (a : SessionAssembler)
    (payloads : List Bytes) (l : Ledger) : Ledger :=
  match call with
  | .feed line now => l.afterFeed cfg line now a payloads
  | .flushIdle now => l.afterFlush cfg (a.staleIds cfg now) a
  | .flushAll => l.afterFlush cfg (a.sessions.map (·.1)) a

structure Feeding where
  assembler : SessionAssembler := {}
  ledger : Ledger := {}
  lines : List PyStr := []
  payloads : List Bytes := []
  openings : List Key := []
  raised : Bool := false

def step (cfg : AssemblerConfig) (w : Feeding) (call : AssemblerCall) : Option Feeding :=
  match perform cfg call w.assembler with
  | .error _ => some { w with lines := w.lines ++ lineOf call, raised := true }
  | .ok (payloads, a) =>
    some { assembler := a, ledger := afterCall cfg call w.assembler payloads w.ledger,
           lines := w.lines ++ lineOf call, payloads := w.payloads ++ payloads,
           openings := w.openings ++ (lineOf call).flatMap fun line => opens cfg line w.assembler,
           raised := w.raised }

def Feeding.events (cfg : AssemblerConfig) (w : Feeding) : List Json :=
  w.lines.filterMap (eventOf cfg)

def Given (cfg : AssemblerConfig) (_ : Feeding) (call : AssemblerCall) : Prop :=
  ∀ line ∈ lineOf call, Allowed cfg line

def GivenReadable (cfg : AssemblerConfig) (w : Feeding) (call : AssemblerCall) : Prop :=
  Given cfg w call ∧ ∀ line ∈ lineOf call, Readable cfg line

structure Kept (cfg : AssemblerConfig) (w : Feeding) : Prop where
  quiet : w.raised = false
  accounts : Accounts cfg w.assembler w.ledger (w.events cfg)
  turns : Turns w.assembler w.ledger w.openings
  payloads : w.ledger.shipped.map (·.payload) = w.payloads
  errors : w.assembler.parseErrors = w.lines.countP fun line => (eventOf cfg line).isNone

theorem kept_start : Kept cfg {} where
  quiet := rfl
  accounts := accounts_start
  turns _ := rfl
  payloads := rfl
  errors := rfl

theorem kept_flush {w : Feeding} {keys : List Key} (inv : Kept cfg w) (distinct : keys.Nodup)
    (known : ∀ key ∈ keys, (w.assembler.session? key).isSome) :
    ∃ payloads a, flush cfg keys w.assembler = .ok (payloads, a) ∧
      Kept cfg { w with assembler := a, ledger := w.ledger.afterFlush cfg keys w.assembler,
                        payloads := w.payloads ++ payloads } := by
  have safe : FlushSafe cfg keys w.assembler := fun key _ s found _ =>
    account_dumpable (inv.accounts.opened key s found)
  obtain ⟨⟨payloads, a⟩, flushed⟩ := (flush_ok_iff distinct known).mpr safe
  obtain ⟨accounts, turns⟩ := flush_accounts inv.accounts inv.turns flushed
  refine ⟨payloads, a, flushed, inv.quiet, accounts, turns, ?_, ?_⟩
  · rw [(entered_flush inv.accounts.books flushed).payloads, inv.payloads]
  · rw [(flush_withErrors 0 flushed).2]
    exact inv.errors

theorem kept_step {w w' : Feeding} {call : AssemblerCall} (inv : Kept cfg w)
    (met : GivenReadable cfg w call) (taken : step cfg w call = some w') : Kept cfg w' := by
  have distinct := inv.accounts.books.distinct
  cases call with
  | feed line now =>
    have allowed := met.1 line (by simp [lineOf])
    obtain ⟨⟨payloads, a⟩, done⟩ := feed_returns now inv.accounts allowed
      (met.2 line (by simp [lineOf]))
    obtain ⟨accounts, turns, errors⟩ := feed_accounts inv.accounts inv.turns allowed done
    simp only [step, perform, done, Option.some.injEq] at taken
    subst taken
    refine ⟨inv.quiet, ?_, ?_, ?_, ?_⟩
    · cases event : eventOf cfg line <;>
        simpa [Feeding.events, lineOf, List.filterMap_append, afterCall, event] using accounts
    · simpa [lineOf, afterCall] using turns
    · simp only [afterCall]
      rw [(entered_feed inv.accounts.books done).payloads, inv.payloads]
    · simp only [lineOf, List.countP_append, List.countP_cons, List.countP_nil]
      rw [errors, inv.errors, Nat.zero_add]
  | flushIdle now =>
    obtain ⟨payloads, a, flushed, kept⟩ := kept_flush inv
      ((staleIds_sublist cfg now w.assembler).nodup distinct)
      fun _ member => session?_isSome ((staleIds_sublist cfg now w.assembler).subset member)
    simp only [step, perform, flushIdle, flushed, Option.some.injEq] at taken
    subst taken
    simpa [lineOf, afterCall] using kept
  | flushAll =>
    obtain ⟨payloads, a, flushed, kept⟩ := kept_flush inv distinct
      fun _ member => session?_isSome member
    simp only [step, perform, flushAll, flushed, Option.some.injEq] at taken
    subst taken
    simpa [lineOf, afterCall] using kept

theorem session?_of_mem {x : Key × OpenSession} (distinct : a.Distinct) (member : x ∈ a.sessions) :
    a.session? x.1 = some x.2 := by
  have found : ∀ entries : List (Key × OpenSession), (entries.map (·.1)).Nodup → x ∈ entries →
      entries.find? (fun entry => entry.1 == x.1) = some x := by
    intro entries nodup inside
    induction entries with
    | nil => cases inside
    | cons entry entries ih =>
      obtain ⟨apart, nodup⟩ := List.nodup_cons.mp nodup
      rcases List.mem_cons.mp inside with rfl | later
      · simp
      · have ne : entry.1 ≠ x.1 := by
          intro same
          exact apart (List.mem_map.mpr ⟨x, later, same.symm⟩)
        rw [List.find?_cons_of_neg (by simpa using ne)]
        exact ih nodup later
  rw [SessionAssembler.session?, found a.sessions distinct member]
  rfl

theorem sum_by_key {keys : List Key} (distinct : keys.Nodup) {xs : List (Key × Json)}
    (inside : ∀ x ∈ xs, x.1 ∈ keys) :
    (keys.map fun key => (xs.filter fun x => x.1 = key).length).sum = xs.length := by
  induction keys generalizing xs with
  | nil =>
    cases xs with
    | nil => rfl
    | cons x xs => exact absurd (inside x (by simp)) (by simp)
  | cons key keys ih =>
    obtain ⟨apart, distinct⟩ := List.nodup_cons.mp distinct
    have others : ∀ other ∈ keys, (xs.filter fun x => x.1 = other) =
        (xs.filter fun x => x.1 ≠ key).filter fun x => x.1 = other := by
      intro other member
      rw [List.filter_filter]
      congr 1
      funext x
      by_cases same : x.1 = other
      · have ne : other ≠ key := by
          rintro rfl
          exact apart member
        simp [same, ne]
      · simp [same]
    have left : ∀ x ∈ xs.filter (fun x => x.1 ≠ key), x.1 ∈ keys := by
      intro x member
      obtain ⟨old, ne⟩ := List.mem_filter.mp member
      exact (List.mem_cons.mp (inside x old)).resolve_left (by simpa using ne)
    have rest := ih distinct left
    rw [List.map_cons, List.sum_cons, List.map_congr_left fun other member => by
      rw [others other member], rest]
    have parts := List.length_eq_length_filter_add (l := xs) fun x => decide (x.1 = key)
    simp only [decide_not] at parts ⊢
    omega

def payloadEvents (env : Json) : List Json :=
  match env.get? (str "events") with
  | some (.arr events) => events
  | _ => []

def truncatedEvents (env : Json) : Nat :=
  match (env.get? (str "shipper")).bind (Json.get? (str "truncated_events")) with
  | some (.int n) => n.toNat
  | _ => 0

/-- The payload holds events of one id: the first one, which connects, the last one, and others
    between them in the order in which they came. -/
structure ShipsSession (env : Json) (fed : List Json) : Prop where
  one_id : ∃ id, env.get? (str "session_id") = some (.str id) ∧
    ∀ e ∈ payloadEvents env, field "session" e = .str id
  first : (payloadEvents env).head? = fed.head?
  connects : ∃ e, fed.head? = some e ∧ isText (field "eventid" e) connectEvent = true
  last : (payloadEvents env).getLast? = fed.getLast?
  order : (payloadEvents env).Sublist fed
  counted : (payloadEvents env).length + truncatedEvents env = fed.length

theorem account_ships {payload : Bytes} {truncated : Bool} (inv : Account cfg key s fed)
    (connect : s.hasConnect = true) (built : buildPayload cfg s = .ok (payload, truncated)) :
    ∃ env, dumps cfg env = .ok payload ∧ ShipsSession env fed := by
  obtain ⟨kept, shape, _, written, _⟩ := buildPayload_shape inv.started inv.capped built
  obtain ⟨first, last, order⟩ := frontAndLast_ends shape
  obtain ⟨id, _, sessionId, ids⟩ := inv.id
  obtain ⟨e, rest, eq⟩ := List.exists_cons_of_ne_nil inv.started
  have head : fed.head? = some e := by rw [eq]; rfl
  refine ⟨_, written, ?_⟩
  generalize counted : (if 0 < fed.length - kept.length then some (fed.length - kept.length)
    else none) = truncation
  have events : payloadEvents (envelope s kept truncation) = kept := by
    rw [payloadEvents, envelope_events]
  have left_out : truncatedEvents (envelope s kept truncation) = fed.length - kept.length := by
    rw [truncatedEvents, envelope_shipper, ← counted]
    by_cases some_out : 0 < fed.length - kept.length
    · rw [if_pos some_out]
      rfl
    · rw [if_neg some_out]
      simp only [Option.map_none, Option.bind_none]
      omega
  have fewer := order.length_le
  refine ⟨⟨id, ?_, fun e member => ids e (order.subset (by rwa [events] at member))⟩, ?_,
    ⟨e, head, ?_⟩, ?_, ?_, ?_⟩
  · rw [← sessionId]
    cases truncation <;> rfl
  · rw [events, first]
  · rw [← (inv.connect e head).1, connect]
  · rw [events, last]
  · rw [events]
    exact order
  · rw [events, left_out]
    omega

structure Conserved (cfg : AssemblerConfig) (w : Feeding) : Prop where
  quiet : w.raised = false
  /-- Every event is in a payload or counted by it, in an open session or counted by it, or
      belonged to a session dropped without a connect event. -/
  balance : ∃ envs, List.Forall₂ (fun env payload => dumps cfg env = .ok payload) envs w.payloads ∧
    (w.events cfg).length =
      (envs.map fun env => (payloadEvents env).length + truncatedEvents env).sum +
      (w.assembler.sessions.map fun x => x.2.events.length + x.2.droppedEvents).sum +
      (w.ledger.dropped.map fun d => d.2.length).sum
  dropped : w.assembler.droppedNoConnect = w.ledger.dropped.length ∧
    ∀ d ∈ w.ledger.dropped, d.1.hasConnect = false
  errors : w.assembler.parseErrors = w.lines.countP fun line => (eventOf cfg line).isNone
  bounded : ∀ x ∈ w.assembler.sessions, x.2.events.length ≤ cfg.maxEvents
  payloads : w.ledger.shipped.map (·.payload) = w.payloads ∧ ∀ sh ∈ w.ledger.shipped,
    sh.fed.Sublist (w.events cfg) ∧
    ∃ env, dumps cfg env = .ok sh.payload ∧ ShipsSession env sh.fed
  turns : ∀ key, w.openings.count key =
    leftCount w.ledger key + if (w.assembler.session? key).isSome then 1 else 0

theorem shipped_envs {shipped : List Shipment}
    (each : ∀ sh ∈ shipped, ∃ env, dumps cfg env = .ok sh.payload ∧ ShipsSession env sh.fed) :
    ∃ envs, List.Forall₂ (fun env payload => dumps cfg env = .ok payload) envs
        (shipped.map (·.payload)) ∧
      (envs.map fun env => (payloadEvents env).length + truncatedEvents env).sum =
        (shipped.flatMap (·.fed)).length := by
  induction shipped with
  | nil => exact ⟨[], .nil, rfl⟩
  | cons sh shipped ih =>
    obtain ⟨env, written, ships⟩ := each sh (by simp)
    obtain ⟨envs, all, sum⟩ := ih fun other member => each other (by simp [member])
    refine ⟨env :: envs, .cons written all, ?_⟩
    rw [List.map_cons, List.sum_cons, sum, ships.counted, List.flatMap_cons, List.length_append]

theorem kept_conserved {w : Feeding} (inv : Kept cfg w) : Conserved cfg w := by
  have books := inv.accounts.books
  have ships : ∀ sh ∈ w.ledger.shipped,
      ∃ env, dumps cfg env = .ok sh.payload ∧ ShipsSession env sh.fed := by
    intro sh member
    obtain ⟨⟨key, account⟩, connect, _, truncated, built⟩ := inv.accounts.shipped sh member
    exact account_ships account connect built
  have account : ∀ x ∈ w.assembler.sessions, Account cfg x.1 x.2 (w.ledger.fedTo x.1) :=
    fun x member => inv.accounts.opened x.1 x.2 (session?_of_mem books.distinct member)
  refine ⟨inv.quiet, ?_, ⟨books.dropped, fun d member => (books.unconnected d member).1⟩,
    inv.errors, ?_, ⟨inv.payloads, fun sh member =>
      ⟨(inv.accounts.shipped sh member).2.2.1, ships sh member⟩⟩, inv.turns⟩
  · obtain ⟨envs, written, sum⟩ := shipped_envs ships
    rw [inv.payloads] at written
    have held : (w.assembler.sessions.map fun x => x.2.events.length + x.2.droppedEvents).sum =
        w.ledger.opened.length := by
      have each : (w.assembler.sessions.map fun x => x.2.events.length + x.2.droppedEvents) =
          (w.assembler.sessions.map (·.1)).map fun key =>
            (w.ledger.opened.filter fun x => x.1 = key).length := by
        rw [List.map_map]
        refine List.map_congr_left fun x member => ?_
        have dropped := (account x member).capped.dropped
        have size : (w.ledger.fedTo x.1).length =
            (w.ledger.opened.filter fun y => y.1 = x.1).length := List.length_map _
        rw [(account x member).capped.events, Function.comp_apply, ← size]
        omega
      rw [each]
      refine sum_by_key books.distinct fun x member => ?_
      have open_x := books.known x member
      rw [SessionAssembler.session?, Option.isSome_map, List.find?_isSome] at open_x
      obtain ⟨entry, inside, same⟩ := open_x
      exact List.mem_map.mpr ⟨entry, inside, by simpa using same⟩
    refine ⟨envs, written, ?_⟩
    rw [← inv.accounts.total.length_eq, sum, held, Ledger.events, List.length_append,
      List.length_append, List.length_map, List.length_flatMap (f := fun d : OpenSession × List Json => d.2)]
    omega
  · intro x member
    have two := cfg.two_events
    rw [(account x member).capped.events]
    exact capEvents_bounded _ _

/-- In every run whose lines are readable no event is lost or counted twice. -/
theorem events_conserved {w : Feeding} (reached : Reach (step cfg) (GivenReadable cfg) {} w) :
    Conserved cfg w :=
  kept_conserved (reach_invariant (Kept cfg) kept_start (fun _ _ _ => kept_step) reached)

instance (cfg : AssemblerConfig) (line : PyStr) : Decidable (Readable cfg line) :=
  match read : loads cfg.loadLimit line with
  | .error .value => isFalse fun readable => readable.1 read
  | .error .recursion => isFalse fun readable => readable.2 read
  | .error .decode => isTrue ⟨by simp [read], by simp [read]⟩
  | .ok _ => isTrue ⟨by simp [read], by simp [read]⟩

def isString : Json → Bool
  | .str _ => true
  | _ => false

theorem isString_iff (value : Json) : isString value = true ↔ ∃ id, value = .str id := by
  cases value <;> simp [isString]

instance (cfg : AssemblerConfig) (line : PyStr) : Decidable (Allowed cfg line) :=
  match event : eventOf cfg line with
  | none => isTrue fun found eq => by simp [event] at eq
  | some found => decidable_of_iff (isString (field "session" found) = true ∧
      found.scalars = true ∧ found.depth + 2 ≤ cfg.dumpLimit) (by
    rw [isString_iff]
    constructor
    · intro all other eq
      rw [event, Option.some.injEq] at eq
      exact eq ▸ all
    · intro all
      exact all found event)

instance (cfg : AssemblerConfig) (w : Feeding) (call : AssemblerCall) :
    Decidable (Given cfg w call) :=
  inferInstanceAs (Decidable (∀ line ∈ lineOf call, Allowed cfg line))

instance (cfg : AssemblerConfig) (w : Feeding) (call : AssemblerCall) :
    Decidable (GivenReadable cfg w call) :=
  inferInstanceAs (Decidable (Given cfg w call ∧ ∀ line ∈ lineOf call, Readable cfg line))

/-- A line that is no event, then a session of two events. -/
theorem events_conserved_session :
    ∃ w, Reach (step smallAssembler) (GivenReadable smallAssembler) {} w ∧
      w.payloads.length = 1 ∧ (w.events smallAssembler).length = 2 ∧ w.assembler.parseErrors = 1 ∧
      Conserved smallAssembler w := by
  have some : (runIf (step smallAssembler) (GivenReadable smallAssembler) {}
      [.feed (str "x") 0, .feed (eventText connectEvent) 1,
        .feed (eventText closedEvent) 2]).map (fun w =>
      (w.payloads.length, (w.events smallAssembler).length, w.assembler.parseErrors)) =
        some (1, 2, 1) := by decide +kernel
  obtain ⟨w, taken, eq⟩ := Option.map_eq_some_iff.mp some
  simp only [Prod.mk.injEq] at eq
  have reached := runIf_reaches Reach.start taken
  exact ⟨w, reached, eq.1, eq.2.1, eq.2.2, events_conserved reached⟩

/-- A line that is a number of 4301 digits is no event, but it is not counted either: `feed`
    raises. -/
theorem long_number_not_counted :
    ¬ ∀ (cfg : AssemblerConfig) (w : Feeding), Reach (step cfg) (Given cfg) {} w →
      w.assembler.parseErrors = w.lines.countP fun line => (eventOf cfg line).isNone := by
  intro all
  obtain ⟨n, long⟩ : ∃ n, intMaxStrDigits < (digitsText n).length := by
    refine ⟨10 ^ intMaxStrDigits, ?_⟩
    rw [digitsText, List.length_map]
    by_contra few
    exact absurd ((Nat.length_toDigits_le_iff (by decide) (by decide)).mp (Nat.not_lt.mp few))
      (lt_irrefl _)
  have read : loads smallAssembler.loadLimit (digitsText n) = .error .value := by
    rw [loads_digitsText, if_pos long]
  have none : eventOf smallAssembler (digitsText n) = none := by
    simp [eventOf, read]
  have raises : feed smallAssembler (digitsText n) 0 {} = .error .valueError := by
    simp [feed, read]
  have given : Given smallAssembler {} (.feed (digitsText n) 0) := by
    intro line member event eq
    rw [lineOf, List.mem_singleton] at member
    subst member
    simp [none] at eq
  have taken : step smallAssembler {} (.feed (digitsText n) 0) =
      some { lines := [digitsText n], raised := true } := by
    simp [step, perform, raises, lineOf]
  have counted := all smallAssembler _ (.next .start given taken)
  simp [none] at counted

end ShipperConservation
