import Mathlib.Data.List.Dedup
import SentinelBrief.Api.Poison
import SentinelBrief.Shipper.Delivery

/-!
The shipper and the api together. A forwarded file becomes a request of the api, whatever
becomes of the connection; the shipper sees the answer to a request with the file's payload,
an answer from elsewhere that accepts nothing, or none at all. Other clients post as well.
-/
namespace ApiDelivery
open StepRuns UniqueIndex ApiSessionAlert ApiPoison ShipperSpool ShipperMain ShipperDelivery
open Utf8Text (Bytes PyStr)
open ApiIngest (Ingest Answer AlertRow)

structure Sent where
  body : Bytes
  shipper : Bool

structure System where
  shipper : Shipper
  api : Ingest := {}
  sent : Nat → Option Sent := fun _ => none

inductive Event where
  | shipper (e : ShipperMain.Event)
  | forward (r : Nat)
  | foreign (r : Nat) (body : Bytes)
  | api (r : Nat) (e : ApiIngest.RequestEvent)
  | triage (id : Nat) (ok : Bool)
  | flip (id : Nat)
  | received (r : Nat)
  | refused (status : Nat)
  | lost

def Answer.status : Answer → Nat
  | .ingest code _ => code
  | .error code => code

/-- A request that gets as far as `insert_alert` is one of the api's; the others are answered
without it. -/
def System.post (srv : Service) (w : System) (r : Nat) (sent : Sent) : Option System :=
  match w.sent r with
  | some _ => none
  | none =>
    let w := { w with sent := Function.update w.sent r (some sent) }
    match outcome srv sent.body with
    | .stored values => (ApiIngest.step w.api (.arrive r values)).map fun api => { w with api := api }
    | _ => some w

def System.ship (cfg : ShipperConfig) (w : System) (e : ShipperMain.Event) : Option System :=
  (ShipperMain.step cfg w.shipper e).map fun shipper => { w with shipper := shipper }

def System.serve (w : System) (e : ApiIngest.Event) : Option System :=
  (ApiIngest.step w.api e).map fun api => { w with api := api }

def step (cfg : ShipperConfig) (srv : Service) (w : System) : Event → Option System
  | .shipper (.post _) => none
  | .shipper e => w.ship cfg e
  | .forward r => match w.shipper.phase with
    | .draining (file :: _) => w.post srv r ⟨file.payload, true⟩
    | _ => none
  | .foreign r body => w.post srv r ⟨body, false⟩
  | .api r e => w.serve (.request r e)
  | .triage id ok => w.serve (.triage id ok)
  | .flip id => w.serve (.flip id)
  | .received r => match w.shipper.phase, w.sent r, w.api.requests r with
    | .draining (file :: _), some sent, some q => match q.phase with
      | .answered a =>
        if sent.shipper ∧ sent.body = file.payload then w.ship cfg (.post (some (Answer.status a)))
        else none
      | _ => none
    | _, _, _ => none
  | .refused status =>
    if 200 ≤ status ∧ status < 300 then none else w.ship cfg (.post (some status))
  | .lost => w.ship cfg (.post none)

def System.start (cfg : ShipperConfig) : System := { shipper := Shipper.start cfg }

def storedAs (srv : Service) (body : Bytes) : Option PyStr :=
  match outcome srv body with
  | .stored values => some values.fingerprint
  | _ => none

def System.fingerprints (w : System) : List PyStr := w.api.table.rows.map AlertRow.fingerprint

def Stored (srv : Service) (w : System) (body : Bytes) : Prop :=
  ∃ fingerprint, storedAs srv body = some fingerprint ∧ fingerprint ∈ w.fingerprints

/-- An error is answered with a status of 500 or above. -/
def Refuses : ApiIngest.Phase → Prop
  | .answered (.error code) => 500 ≤ code
  | _ => True

structure Linked (cfg : ShipperConfig) (srv : Service) (w : System) : Prop where
  shipper : ShipperDelivery.Sound cfg w.shipper
  api : ApiDedup.Inv w.api
  known : ∀ r q, w.api.requests r = some q → Refuses q.phase ∧
    ∃ sent, w.sent r = some sent ∧ outcome srv sent.body = .stored q.values
  origin : ∀ r sent, w.sent r = some sent → sent.shipper = true →
    ∃ f ∈ w.shipper.puts, f.payload = sent.body
  answered : ∀ file status left, w.shipper.phase = .answered file status left →
    200 ≤ status → status < 300 → Stored srv w file.payload
  delivered : ∀ f, Delivered w.shipper f → Stored srv w f.payload

variable {cfg : ShipperConfig} {srv : Service} {w w' : System}

section Api
variable {a a' : Ingest}

structure Later (a a' : Ingest) : Prop where
  rows : ∀ row ∈ a.table.rows, ∃ row' ∈ a'.table.rows, row'.fingerprint = row.fingerprint
  requests : ∀ r q', a'.requests r = some q' →
    ∃ q, a.requests r = some q ∧ q'.values = q.values ∧ (Refuses q.phase → Refuses q'.phase)

theorem later_set {b : Ingest} {r : Nat} {q : ApiIngest.Request} (known : a.requests r = some q)
    (rows : ∀ row ∈ a.table.rows, row ∈ b.table.rows) (requests : b.requests = a.requests)
    {q' : ApiIngest.Request} (values : q'.values = q.values) (refuses : Refuses q'.phase) :
    Later a (b.set r q') := by
  refine ⟨fun row member => ⟨row, rows row member, rfl⟩, fun i p found => ?_⟩
  by_cases same : i = r
  · subst same
    rw [ApiDedup.set_self] at found
    cases found
    exact ⟨q, known, values, fun _ => refuses⟩
  · rw [ApiDedup.set_other same, requests] at found
    exact ⟨p, found, rfl, id⟩

theorem later_request {r : Nat} {q : ApiIngest.Request} {e : ApiIngest.RequestEvent}
    (known : a.requests r = some q) (taken : ApiIngest.requestStep a r q e = some a') : Later a a' := by
  have kept : ∀ row ∈ a.table.rows, row ∈ (a.commit r).table.rows := fun row member =>
    List.mem_append_left _ member
  cases e with
  | insert =>
    simp only [ApiIngest.requestStep] at taken
    split at taken
    · unfold ApiIngest.Ingest.insertRow at taken
      split at taken
      · cases taken
      · cases taken
        exact later_set known (fun row member => member) rfl rfl trivial
      · rename_i t inserted
        cases taken
        refine later_set (b := { a with table := t, nextId := a.nextId + 1 }) known ?_ rfl rfl trivial
        unfold Table.insert at inserted
        split at inserted
        · cases inserted
        · split at inserted
          · cases inserted
          · cases inserted
            exact fun row member => member
    · cases taken
  | select =>
    simp only [ApiIngest.requestStep] at taken
    split at taken
    · cases taken
      unfold ApiIngest.Ingest.selectRow
      split
      · exact later_set known (fun row member => member) rfl rfl trivial
      · exact later_set known (fun row member => member) rfl rfl trivial
    · cases taken
  | commit | commitCrash =>
    simp only [ApiIngest.requestStep] at taken
    split at taken
    · cases taken
      exact later_set known kept rfl rfl trivial
    · cases taken
      exact later_set known kept rfl rfl trivial
    · cases taken
  | enqueue available =>
    simp only [ApiIngest.requestStep] at taken
    split at taken
    · rename_i res _ _
      split at taken
      · cases taken
        refine later_set (b := a.call r res) known (fun row member => member) rfl rfl ?_
        cases available with
        | true => trivial
        | false => exact (by decide : 500 ≤ 503)
      · cases taken
    · cases taken
  | respond =>
    simp only [ApiIngest.requestStep] at taken
    split at taken
    · split at taken
      · cases taken
      · cases taken
        exact later_set known (fun row member => member) rfl rfl trivial
    · cases taken
      exact later_set known (fun row member => member) rfl rfl trivial
    · cases taken
  | fail =>
    simp only [ApiIngest.requestStep] at taken
    split at taken
    · cases taken
    · cases taken
      exact later_set (b := a.rollback r) known (fun row member => member) rfl rfl (Nat.le_refl 500)
  | crash =>
    simp only [ApiIngest.requestStep] at taken
    split at taken
    · cases taken
    · cases taken
      exact later_set (b := a.rollback r) known (fun row member => member) rfl rfl trivial

theorem later_update {f : AlertRow → AlertRow} (same : ∀ row, (f row).fingerprint = row.fingerprint) :
    Later a { a with table := a.table.update f } :=
  ⟨fun row member => ⟨f row, List.mem_map_of_mem member, same row⟩, fun _ q found => ⟨q, found, rfl, id⟩⟩

theorem later_step {e : ApiIngest.Event} (fresh : ∀ r values, e ≠ .arrive r values)
    (taken : ApiIngest.step a e = some a') : Later a a' := by
  cases e with
  | arrive r values => exact absurd rfl (fresh r values)
  | request r e =>
    simp only [ApiIngest.step] at taken
    split at taken
    · cases taken
    · rename_i known
      exact later_request known taken
  | triage id ok =>
    cases taken
    exact later_update fun row => (ApiDedup.triaged_same id ok row).1
  | flip id =>
    cases taken
    exact later_update fun row => (ApiDedup.flipped_same id row).1

theorem stored_later {sent : Nat → Option Sent} {shipper shipper' : Shipper} (later : Later a a') {body : Bytes}
    (stored : Stored srv ⟨shipper, a, sent⟩ body) : Stored srv ⟨shipper', a', sent⟩ body := by
  obtain ⟨fingerprint, reads, there⟩ := stored
  obtain ⟨row, member, same⟩ := List.mem_map.mp there
  obtain ⟨row', member', same'⟩ := later.rows row member
  exact ⟨fingerprint, reads, List.mem_map.mpr ⟨row', member', same'.trans same⟩⟩

end Api

section Shipping
variable {s s' : Shipper}

theorem delivered_took (took : Took cfg s s') {f : SpoolFile} (there : Delivered s' f) :
    Delivered s f ∨ ∃ status left, s.phase = .answered f status left ∧ 200 ≤ status ∧ status < 300 := by
  cases took with
  | @answered file status left phase =>
    obtain ⟨code, member, range⟩ := there
    unfold Shipper.afterAnswer at member
    split at member
    · rename_i accepted
      rcases List.mem_append.mp member with old | new
      · exact .inl ⟨code, old, range⟩
      · cases List.mem_singleton.mp new
        exact .inr ⟨status, left, phase, accepted⟩
    · exact .inl ⟨code, member, range⟩
  | _ => exact .inl there

theorem puts_took (took : Took cfg s s') {f : SpoolFile} (put : f ∈ s.puts) : f ∈ s'.puts := by
  cases took with
  | put => exact List.mem_append_left _ put
  | answered =>
    unfold Shipper.afterAnswer
    split
    · exact put
    · exact put
  | _ => exact put

theorem answered_kept {e : ShipperMain.Event} (quiet : ∀ answer, e ≠ .post answer)
    (taken : ShipperMain.step cfg s e = some s') {file : SpoolFile} {status : Nat} {left : List SpoolFile}
    (phase : s'.phase = .answered file status left) : s.phase = .answered file status left := by
  cases e with
  | append bytes =>
    obtain ⟨tail, -, rfl⟩ := Option.map_eq_some_iff.mp taken
    exact phase
  | requestStop =>
    cases taken
    exact phase
  | post answer => exact absurd rfl (quiet answer)
  | settle =>
    simp only [ShipperMain.step] at taken
    split at taken
    · cases taken
      unfold Shipper.afterAnswer at phase
      split at phase
      · cases phase
      · cases phase
    · cases taken
  | put now =>
    simp only [ShipperMain.step] at taken
    split at taken
    · rename_i due
      split at taken
      · cases taken
        have none := nextPut_files due
        simp only [Shipper.afterPut] at phase
        rw [phase] at none
        cases none
      · cases taken
    · cases taken
  | next =>
    simp only [ShipperMain.step] at taken
    split at taken
    · unfold endIteration at taken
      dsimp only at taken
      repeat' split at taken
      all_goals
        cases taken
        try cases phase
    · cases taken
      cases phase
    · cases taken
  | restart =>
    obtain ⟨tail, -, rfl⟩ := Option.map_eq_some_iff.mp taken
    cases phase
  | readNewLines growth | commitOffset =>
    simp only [ShipperMain.step] at taken
    split at taken
    · obtain ⟨tail, -, rfl⟩ := Option.map_eq_some_iff.mp taken
      cases phase
    · cases taken
  | feed now | flushIdle now =>
    simp only [ShipperMain.step] at taken
    split at taken
    · split at taken
      · cases taken
      · cases taken
        cases phase
    · cases taken

theorem answered_posted {answer : Option Nat} (taken : ShipperMain.step cfg s (.post answer) = some s')
    {file : SpoolFile} {status : Nat} {left : List SpoolFile}
    (phase : s'.phase = .answered file status left) :
    answer = some status ∧ s.phase = .draining (file :: left) := by
  simp only [ShipperMain.step] at taken
  split at taken
  · rename_i before
    split at taken
    · rename_i kept
      cases taken
      cases phase
      refine ⟨?_, before⟩
      cases answer with
      | none => simp [ShipperSpool.post] at kept
      | some code =>
        simp only [ShipperSpool.post] at kept
        split at kept
        · exact congrArg some (Option.some.inj (PostResult.mk.inj kept).1)
        · split at kept
          · cases (PostResult.mk.inj kept).2
          · exact congrArg some (Option.some.inj (PostResult.mk.inj kept).1)
    · cases taken
      cases phase
  · cases taken

end Shipping

section Links

theorem linked_start : Linked cfg srv (System.start cfg) where
  shipper := by
    have first : Reach (ShipperMain.step cfg) anyStep (Shipper.start cfg) (Shipper.start cfg) := .start
    exact reach_sound first
  api := ApiDedup.inv_start
  known r q found := by cases found
  origin r sent found := by cases found
  answered file status left phase := by cases phase
  delivered f there := by
    obtain ⟨status, member, -⟩ := there
    cases member

theorem linked_ship (inv : Linked cfg srv w) {e : ShipperMain.Event} (taken : w.ship cfg e = some w')
    (answers : ∀ file status left, w'.shipper.phase = .answered file status left → 200 ≤ status → status < 300 →
      Stored srv w file.payload) : Linked cfg srv w' := by
  obtain ⟨shipper, moved, rfl⟩ := Option.map_eq_some_iff.mp taken
  have took := took_step moved
  have sound := inv.shipper
  refine ⟨⟨follows_took sound.follows took, kept_took sound.kept took,
    tracked_took sound.follows sound.tracked took⟩, inv.api, inv.known, ?_, answers, ?_⟩
  · intro r sent found own
    obtain ⟨f, put, same⟩ := inv.origin r sent found own
    exact ⟨f, puts_took took put, same⟩
  · intro f there
    rcases delivered_took took there with before | ⟨status, left, phase, low, high⟩
    · exact inv.delivered f before
    · exact inv.answered f status left phase low high

theorem linked_serve (inv : Linked cfg srv w) {e : ApiIngest.Event} (fresh : ∀ r values, e ≠ .arrive r values)
    (taken : w.serve e = some w') : Linked cfg srv w' := by
  obtain ⟨api, moved, rfl⟩ := Option.map_eq_some_iff.mp taken
  have later := later_step fresh moved
  refine ⟨inv.shipper, ApiDedup.inv_step inv.api moved, ?_, inv.origin, ?_, ?_⟩
  · intro r q' found
    obtain ⟨q, before, values, refuses⟩ := later.requests r q' found
    obtain ⟨refused, sent, posted, stored⟩ := inv.known r q before
    exact ⟨refuses refused, sent, posted, values ▸ stored⟩
  · intro file status left phase low high
    exact stored_later later (inv.answered file status left phase low high)
  · intro f there
    exact stored_later later (inv.delivered f there)

theorem linked_post (inv : Linked cfg srv w) {r : Nat} {sent : Sent}
    (own : sent.shipper = true → ∃ f ∈ w.shipper.puts, f.payload = sent.body)
    (taken : w.post srv r sent = some w') : Linked cfg srv w' := by
  unfold System.post at taken
  split at taken
  · cases taken
  rename_i absent
  have unknown : w.api.requests r = none := by
    cases found : w.api.requests r with
    | none => rfl
    | some q =>
      obtain ⟨-, sent, posted, -⟩ := inv.known r q found
      rw [absent] at posted
      cases posted
  have origin : ∀ i s, Function.update w.sent r (some sent) i = some s → s.shipper = true →
      ∃ f ∈ w.shipper.puts, f.payload = s.body := by
    intro i s found shipped
    by_cases same : i = r
    · subst same
      rw [Function.update_self] at found
      cases found
      exact own shipped
    · rw [Function.update_of_ne same] at found
      exact inv.origin i s found shipped
  have others : ∀ i q, w.api.requests i = some q → i ≠ r := by
    rintro i q found rfl
    rw [unknown] at found
    cases found
  dsimp only at taken
  split at taken
  · rename_i values stored
    obtain ⟨api, moved, rfl⟩ := Option.map_eq_some_iff.mp taken
    refine ⟨inv.shipper, ApiDedup.inv_step inv.api moved, ?_, origin, ?_, ?_⟩
    · intro i q found
      rw [ApiIngest.step, unknown, Option.some.injEq] at moved
      subst moved
      by_cases same : i = r
      · subst same
        rw [ApiDedup.set_self] at found
        cases found
        exact ⟨trivial, sent, Function.update_self .., stored⟩
      · rw [ApiDedup.set_other same] at found
        dsimp only
        rw [Function.update_of_ne same]
        exact inv.known i q found
    · rw [ApiIngest.step, unknown, Option.some.injEq] at moved
      subst moved
      exact inv.answered
    · rw [ApiIngest.step, unknown, Option.some.injEq] at moved
      subst moved
      exact inv.delivered
  · cases taken
    refine ⟨inv.shipper, inv.api, ?_, origin, inv.answered, inv.delivered⟩
    intro i q found
    dsimp only
    rw [Function.update_of_ne (others i q found)]
    exact inv.known i q found

theorem ingested_stored (inv : Linked cfg srv w) {r : Nat} {q : ApiIngest.Request} {sent : Sent}
    (known : w.api.requests r = some q) (posted : w.sent r = some sent) {a : Answer}
    (phase : q.phase = .answered a) (accepted : Answer.status a < 300) : Stored srv w sent.body := by
  obtain ⟨refuses, sent', posted', stored⟩ := inv.known r q known
  obtain rfl : sent = sent' := Option.some.inj (posted.symm.trans posted')
  cases a with
  | ingest code body =>
    have ok := inv.api.phases r q known
    rw [ApiDedup.PhaseOk, phase] at ok
    obtain ⟨-, -, -, row, member, same, -⟩ := ok
    refine ⟨q.values.fingerprint, ?_, List.mem_map.mpr ⟨row, member, same⟩⟩
    rw [storedAs, stored]
  | error code =>
    rw [phase] at refuses
    exact absurd accepted (by simp only [Answer.status, Refuses] at refuses ⊢; omega)

theorem linked_step (inv : Linked cfg srv w) {e : Event} (taken : step cfg srv w e = some w') :
    Linked cfg srv w' := by
  have quiet {e : ShipperMain.Event} (other : ∀ answer, e ≠ .post answer) (taken : w.ship cfg e = some w') :
      Linked cfg srv w' := by
    refine linked_ship inv taken fun file status left phase low high => ?_
    obtain ⟨shipper, moved, rfl⟩ := Option.map_eq_some_iff.mp taken
    exact inv.answered file status left (answered_kept other moved phase) low high
  cases e with
  | shipper e =>
    cases e with
    | post answer => cases taken
    | _ => exact quiet (by simp) taken
  | forward r =>
    simp only [step] at taken
    split at taken
    · rename_i file left phase
      refine linked_post inv (fun _ => ⟨file, ?_, rfl⟩) taken
      have drain := inv.shipper.kept.drain
      rw [phase] at drain
      exact inv.shipper.kept.files.subset (drain.subset List.mem_cons_self)
    · cases taken
  | foreign r body => exact linked_post inv (by simp) taken
  | api r e => exact linked_serve inv (by simp) taken
  | triage id ok => exact linked_serve inv (by simp) taken
  | flip id => exact linked_serve inv (by simp) taken
  | received r =>
    simp only [step] at taken
    split at taken
    · rename_i file left sent q phase posted known
      split at taken
      · rename_i a answered
        split at taken
        · rename_i own
          refine linked_ship inv taken fun file' status left' phase' _ high => ?_
          obtain ⟨shipper, moved, rfl⟩ := Option.map_eq_some_iff.mp taken
          obtain ⟨told, before⟩ := answered_posted moved phase'
          cases told
          cases phase.symm.trans before
          exact own.2 ▸ ingested_stored inv known posted answered high
        · cases taken
      · cases taken
    · cases taken
  | refused status =>
    simp only [step] at taken
    split at taken
    · cases taken
    · rename_i refused
      refine linked_ship inv taken fun file status' left phase low high => ?_
      obtain ⟨shipper, moved, rfl⟩ := Option.map_eq_some_iff.mp taken
      obtain ⟨told, -⟩ := answered_posted moved phase
      cases told
      exact absurd ⟨low, high⟩ refused
  | lost =>
    refine linked_ship inv taken fun file status left phase _ _ => ?_
    obtain ⟨shipper, moved, rfl⟩ := Option.map_eq_some_iff.mp taken
    cases (answered_posted moved phase).1

theorem reach_linked {ok : System → Event → Prop}
    (reached : Reach (step cfg srv) ok (System.start cfg) w) : Linked cfg srv w :=
  reach_invariant (Linked cfg srv) linked_start (fun _ _ _ inv _ taken => linked_step inv taken) reached

end Links

theorem committed_put (sound : ShipperDelivery.Sound cfg w.shipper)
    (taken : step cfg srv w (.shipper .commitOffset) = some w') {b : Built} (built : b ∈ w.shipper.built) :
    ∃ f ∈ w.shipper.puts, f.payload = b.payload := by
  obtain ⟨shipper, moved, -⟩ := Option.map_eq_some_iff.mp taken
  have phase : w.shipper.phase = .flushed [] := by
    simp only [ShipperMain.step] at moved
    split at moved
    · assumption
    · cases moved
  rw [sound.tracked.account, phase, Phase.due, List.append_nil] at built
  obtain ⟨⟨c, f⟩, inside, rfl⟩ := List.mem_map.mp built
  exact ⟨f, sound.tracked.stored _ inside⟩

/-- The payloads of a process are put before a commit; what is put stays in the spool until the api
has it once, or it is rejected or evicted; and the api has nothing else. -/
theorem delivered_stored_once (reached : Reach (step cfg srv) anyStep (System.start cfg) w) :
    w.fingerprints.Nodup ∧
    (∀ w', step cfg srv w (.shipper .commitOffset) = some w' → ∀ b ∈ w.shipper.built,
      ∃ f ∈ w.shipper.puts, f.payload = b.payload) ∧
    (∀ f ∈ w.shipper.puts, f ∈ w.shipper.spool.pending ∨
      (Delivered w.shipper f ∧ ∃ fingerprint, storedAs srv f.payload = some fingerprint ∧
        w.fingerprints.count fingerprint = 1) ∨
      Rejected w.shipper f ∨ Evicted cfg w.shipper f) ∧
    (∀ fingerprint ∈ w.fingerprints, ∃ r sent, w.sent r = some sent ∧
      storedAs srv sent.body = some fingerprint ∧
      (sent.shipper = true → ∃ f ∈ w.shipper.puts, f.payload = sent.body)) ∧
    ((∀ r sent, w.sent r = some sent → sent.shipper = true) → (∀ f ∈ w.shipper.puts, Delivered w.shipper f) →
      w.fingerprints.Perm (w.shipper.puts.filterMap fun f => storedAs srv f.payload).dedup) := by
  have inv := reach_linked reached
  have distinct : w.fingerprints.Nodup := unique_rows inv.api.unique
  have origin : ∀ fingerprint ∈ w.fingerprints, ∃ r sent, w.sent r = some sent ∧
      storedAs srv sent.body = some fingerprint ∧
      (sent.shipper = true → ∃ f ∈ w.shipper.puts, f.payload = sent.body) := by
    intro fingerprint there
    obtain ⟨row, member, rfl⟩ := List.mem_map.mp there
    obtain ⟨q, known, -, same⟩ := inv.api.created row member
    obtain ⟨-, sent, posted, stored⟩ := inv.known row.creator q known
    refine ⟨row.creator, sent, posted, ?_, inv.origin row.creator sent posted⟩
    rw [storedAs, stored]
    exact congrArg some same.symm
  refine ⟨distinct, fun w' taken b built => committed_put inv.shipper taken built, ?_, origin, ?_⟩
  · intro f put
    rw [pending_eq (kept_ordered inv.shipper.kept)]
    rcases inv.shipper.kept.places f put with here | delivered | rejected | evicted
    · exact .inl here
    · obtain ⟨fingerprint, reads, there⟩ := inv.delivered f delivered
      exact .inr (.inl ⟨delivered, fingerprint, reads, List.count_eq_one_of_mem distinct there⟩)
    · exact .inr (.inr (.inl rejected))
    · exact .inr (.inr (.inr evicted))
  · intro alone all
    rw [List.perm_ext_iff_of_nodup distinct (List.nodup_dedup _)]
    intro fingerprint
    rw [List.mem_dedup, List.mem_filterMap]
    constructor
    · intro there
      obtain ⟨r, sent, posted, reads, own⟩ := origin fingerprint there
      obtain ⟨f, put, same⟩ := own (alone r sent posted)
      exact ⟨f, put, same ▸ reads⟩
    · rintro ⟨f, put, reads⟩
      obtain ⟨fingerprint', reads', there⟩ := inv.delivered f (all f put)
      rw [reads] at reads'
      cases reads'
      exact there

def sampleLine (eventid : String) : Bytes :=
  (Utf8Text.encode (sampleEvent eventid "2026-01-01T00:00:00Z")).getD [] ++ [ShipperTail.newline]

/-- The answer to the first forward of a file is lost before its row is committed; the second is
answered 200. -/
def retriedRun : List Event :=
  [.shipper (.append (sampleLine "cowrie.session.connect" ++ sampleLine "cowrie.session.closed")),
    .shipper (.readNewLines [[], []]), .shipper (.feed 0), .shipper (.feed 0), .shipper (.put 1),
    .shipper (.flushIdle 0), .shipper .commitOffset, .forward 0, .api 0 .insert, .lost, .shipper .next,
    .api 0 .commit, .shipper (.readNewLines [[]]), .shipper (.flushIdle 0), .shipper .commitOffset,
    .forward 1, .api 1 .insert, .api 1 .select, .api 1 .commit, .api 1 (.enqueue true), .api 1 .respond,
    .received 1, .shipper .settle]

theorem delivered_stored_once_retried :
    ∃ w f, run (step (sampleConfig false 5 (by decide)) sampleService)
        (System.start (sampleConfig false 5 (by decide))) retriedRun = some w ∧
      w.shipper.puts = [f] ∧ w.fingerprints.length = 1 ∧
      ∃ fingerprint, storedAs sampleService f.payload = some fingerprint ∧ w.fingerprints.count fingerprint = 1 := by
  have facts : (run (step (sampleConfig false 5 (by decide)) sampleService)
      (System.start (sampleConfig false 5 (by decide))) retriedRun).map (fun w =>
        (w.shipper.puts.length, w.shipper.spool.files.length, w.shipper.rejected.length,
          w.shipper.evictions.length, w.fingerprints.length)) = some (1, 0, 0, 0, 1) := by decide +kernel
  obtain ⟨w, taken, eq⟩ := Option.map_eq_some_iff.mp facts
  simp only [Prod.mk.injEq, List.length_eq_zero_iff] at eq
  obtain ⟨one, files, rejected, evictions, rows⟩ := eq
  obtain ⟨f, puts⟩ := List.length_eq_one_iff.mp one
  have parts := delivered_stored_once (run_reaches .start taken)
  refine ⟨w, f, taken, puts, rows, ?_⟩
  rcases parts.2.2.1 f (by rw [puts]; exact List.mem_singleton_self f) with here | ⟨-, stored⟩ | ⟨_, there, -⟩ | ⟨_, there, -⟩
  · rw [Spool.pending, files] at here
    cases here
  · exact stored
  · rw [rejected] at there
    cases there
  · rw [evictions] at there
    cases there

end ApiDelivery
