import SentinelBrief.Api.Ingest

/-!
One row a fingerprint. A row belongs to the request that inserted it; a request
that is past `insert_alert` knows the row of its fingerprint, and it was told
`created` exactly when the row is its own. Rows are never removed, so what a
request knows stays true while others go on.
-/
namespace ApiDedup
open Utf8Text UniqueIndex StepRuns ApiSessionAlert ApiIngest

def Finds (t : Table AlertRow) (r : Nat) (q : Request) (res : IngestResult) : Prop :=
  ∃ row ∈ t.rows, row.fingerprint = q.values.fingerprint ∧ row.id = res.alertId ∧
    (res.created = true ↔ row.creator = r)

def Told (t : Table AlertRow) (r : Nat) (q : Request) : Prop :=
  ∃ res, q.result = some res ∧ Finds t r q res

def PhaseOk (t : Table AlertRow) (r : Nat) (q : Request) : Prop := match q.phase with
  | .started => q.committed = false ∧ q.result = none
  | .conflicted => (q.committed = false ∧ q.result = none) ∧ ∃ row ∈ t.rows, row.fingerprint = q.values.fingerprint
  | .inserted => q.committed = false ∧ ∃ row ∈ t.drafts, row.creator = r ∧
      row.fingerprint = q.values.fingerprint ∧ q.result = some ⟨row.id, true, .pending⟩
  | .read => q.committed = false ∧ ∃ res, q.result = some res ∧ res.created = false ∧ Finds t r q res
  | .noRow => False
  | .committed | .enqueued => q.committed = true ∧ Told t r q
  | .answered (.ingest code body) => q.committed = true ∧ q.result = some body ∧
      code = (if body.created then 202 else 200) ∧ Finds t r q body
  | .answered (.error _) | .dead => q.committed = true → Told t r q

def CallOk (requests : Nat → Option Request) (call : EnqueueCall) : Prop :=
  (∃ row ∈ call.rows, row.id = call.alertId) ∧
  ∃ q res, requests call.request = some q ∧ q.result = some res ∧ res.alertId = call.alertId ∧
    res.enqueues = true

structure Inv (w : Ingest) : Prop where
  unique : Unique AlertRow.fingerprint w.table
  drafted : ∀ row ∈ w.table.drafts, ∃ q, w.requests row.creator = some q ∧ q.phase = .inserted ∧
    row.fingerprint = q.values.fingerprint
  created : ∀ row ∈ w.table.rows, ∃ q, w.requests row.creator = some q ∧ q.committed = true ∧
    row.fingerprint = q.values.fingerprint
  phases : ∀ r q, w.requests r = some q → PhaseOk w.table r q
  calls : ∀ call ∈ w.enqueues, CallOk w.requests call

structure Grows (t t' : Table AlertRow) (r : Nat) : Prop where
  rows : ∀ row ∈ t.rows, ∃ row' ∈ t'.rows, row'.fingerprint = row.fingerprint ∧
    row'.id = row.id ∧ row'.creator = row.creator
  drafts : ∀ row ∈ t.drafts, row.creator ≠ r → row ∈ t'.drafts

variable {w w' : Ingest} {t t' : Table AlertRow} {r : Nat} {q q' : Request} {res : IngestResult}

theorem grows_refl (t : Table AlertRow) (r : Nat) : Grows t t r :=
  ⟨fun row mem => ⟨row, mem, rfl, rfl, rfl⟩, fun _ mem _ => mem⟩

theorem grows_rollback (t : Table AlertRow) (r : Nat) :
    Grows t (t.rollback (AlertRow.createdBy r)) r :=
  ⟨fun row mem => ⟨row, mem, rfl, rfl, rfl⟩, fun row mem other =>
    List.mem_filter.mpr ⟨mem, by simpa [AlertRow.createdBy] using other⟩⟩

theorem grows_commit (t : Table AlertRow) (r : Nat) :
    Grows t (t.commit (AlertRow.createdBy r)) r :=
  ⟨fun row mem => ⟨row, List.mem_append_left _ mem, rfl, rfl, rfl⟩, fun row mem other =>
    List.mem_filter.mpr ⟨mem, by simpa [AlertRow.createdBy] using other⟩⟩

theorem finds_grows (grows : Grows t t' r) {i : Nat} (finds : Finds t i q res) :
    Finds t' i q res := by
  obtain ⟨row, mem, same, id, own⟩ := finds
  obtain ⟨row', mem', same', id', creator⟩ := grows.rows row mem
  exact ⟨row', mem', same'.trans same, id'.trans id, creator ▸ own⟩

theorem told_grows (grows : Grows t t' r) {i : Nat} (told : Told t i q) : Told t' i q := by
  obtain ⟨res, eq, finds⟩ := told
  exact ⟨res, eq, finds_grows grows finds⟩

theorem phaseOk_grows (grows : Grows t t' r) {i : Nat} (other : i ≠ r) (ok : PhaseOk t i q) :
    PhaseOk t' i q := by
  unfold PhaseOk at ok ⊢
  split at ok
  · exact ok
  · obtain ⟨open', row, mem, same⟩ := ok
    obtain ⟨row', mem', same', -, -⟩ := grows.rows row mem
    exact ⟨open', row', mem', same'.trans same⟩
  · obtain ⟨open', row, mem, creator, same, eq⟩ := ok
    exact ⟨open', row, grows.drafts row mem (creator ▸ other), creator, same, eq⟩
  · obtain ⟨open', res, eq, old, finds⟩ := ok
    exact ⟨open', res, eq, old, finds_grows grows finds⟩
  · exact ok
  · exact ⟨ok.1, told_grows grows ok.2⟩
  · exact ⟨ok.1, told_grows grows ok.2⟩
  · obtain ⟨done, eq, code, finds⟩ := ok
    exact ⟨done, eq, code, finds_grows grows finds⟩
  · exact fun done => told_grows grows (ok done)
  · exact fun done => told_grows grows (ok done)

theorem set_self (w : Ingest) (r : Nat) (q : Request) : (w.set r q).requests r = some q :=
  Function.update_self ..

theorem set_other {i : Nat} (other : i ≠ r) : (w.set r q).requests i = w.requests i :=
  Function.update_of_ne other ..

theorem inv_move (inv : Inv w) (known : w.requests r = some q) (requests : w'.requests = w.requests)
    (unique : Unique AlertRow.fingerprint w'.table) (grows : Grows w.table w'.table r)
    (ok : PhaseOk w'.table r q') (values : q'.values = q.values)
    (done : q.committed = true → q'.committed = true)
    (result : q.result.isSome = true → q'.result = q.result)
    (drafts : ∀ row ∈ w'.table.drafts, row ∈ w.table.drafts ∧ row.creator ≠ r ∨
      row.creator = r ∧ q'.phase = .inserted ∧ row.fingerprint = q.values.fingerprint)
    (rows : ∀ row ∈ w'.table.rows, row ∈ w.table.rows ∨
      row.creator = r ∧ q'.committed = true ∧ row.fingerprint = q.values.fingerprint)
    (called : ∀ call ∈ w'.enqueues, call ∈ w.enqueues ∨ CallOk (w'.set r q').requests call) :
    Inv (w'.set r q') := by
  constructor
  · exact unique
  · intro row mem
    rcases drafts row mem with ⟨old, other⟩ | ⟨rfl, phase, same⟩
    · rw [set_other other, requests]
      exact inv.drafted row old
    · rw [set_self]
      exact ⟨q', rfl, phase, values ▸ same⟩
  · intro row mem
    rcases rows row mem with old | ⟨rfl, committed, same⟩
    · obtain ⟨c, creator, committed, same⟩ := inv.created row old
      by_cases own : row.creator = r
      · rw [own, set_self]
        rw [own, known, Option.some.injEq] at creator
        subst creator
        exact ⟨q', rfl, done committed, values ▸ same⟩
      · rw [set_other own, requests]
        exact ⟨c, creator, committed, same⟩
    · rw [set_self]
      exact ⟨q', rfl, committed, values ▸ same⟩
  · intro i p eq
    by_cases own : i = r
    · subst own
      rw [set_self, Option.some.injEq] at eq
      exact eq ▸ ok
    · rw [set_other own, requests] at eq
      exact phaseOk_grows grows own (inv.phases i p eq)
  · intro call mem
    rcases called call mem with old | new
    · obtain ⟨durable, p, res, eq, told, id, needed⟩ := inv.calls call old
      refine ⟨durable, ?_⟩
      by_cases own : call.request = r
      · rw [own, set_self]
        rw [own, known, Option.some.injEq] at eq
        subst eq
        exact ⟨q', res, rfl, (result (by rw [told]; rfl)).trans told, id, needed⟩
      · rw [set_other own, requests]
        exact ⟨p, res, eq, told, id, needed⟩
    · exact new

theorem no_draft (inv : Inv w) (known : w.requests r = some q) (phase : q.phase ≠ .inserted)
    {row : AlertRow} (mem : row ∈ w.table.drafts) : row.creator ≠ r := by
  rintro rfl
  obtain ⟨p, eq, inserted, -⟩ := inv.drafted row mem
  rw [known, Option.some.injEq] at eq
  exact phase (eq ▸ inserted)

theorem inv_idle (inv : Inv w) (known : w.requests r = some q) (requests : w'.requests = w.requests)
    (table : w'.table = w.table) (phase : q.phase ≠ .inserted) (ok : PhaseOk w.table r q')
    (values : q'.values = q.values) (done : q.committed = true → q'.committed = true)
    (result : q.result.isSome = true → q'.result = q.result)
    (called : ∀ call ∈ w'.enqueues, call ∈ w.enqueues ∨ CallOk (w'.set r q').requests call) :
    Inv (w'.set r q') := by
  apply inv_move inv known requests _ _ _ values done result _ _ called
  · rw [table]
    exact inv.unique
  · rw [table]
    exact grows_refl _ _
  · rw [table]
    exact ok
  · rw [table]
    exact fun row mem => .inl ⟨mem, no_draft inv known phase mem⟩
  · rw [table]
    exact fun row mem => .inl mem

theorem inv_rollback (inv : Inv w) (known : w.requests r = some q)
    (ok : PhaseOk (w.rollback r).table r q') (values : q'.values = q.values)
    (done : q.committed = true → q'.committed = true)
    (result : q.result.isSome = true → q'.result = q.result) :
    Inv ((w.rollback r).set r q') := by
  have requests : (w.rollback r).requests = w.requests := rfl
  apply inv_move inv known requests _ (grows_rollback _ _) ok values done result
  · intro row mem
    obtain ⟨mem, other⟩ := List.mem_filter.mp mem
    exact .inl ⟨mem, by simpa [AlertRow.createdBy] using other⟩
  · exact fun row mem => .inl mem
  · exact fun call mem => .inl mem
  · exact unique_rollback inv.unique _

theorem inv_commit (inv : Inv w) (known : w.requests r = some q)
    (ok : PhaseOk (w.commit r).table r q') (values : q'.values = q.values)
    (done : q'.committed = true) (result : q'.result = q.result) :
    Inv ((w.commit r).set r q') := by
  have requests : (w.commit r).requests = w.requests := rfl
  apply inv_move inv known requests _ (grows_commit _ _) ok values (fun _ => done) (fun _ => result)
  · intro row mem
    obtain ⟨mem, other⟩ := List.mem_filter.mp mem
    exact .inl ⟨mem, by simpa [AlertRow.createdBy] using other⟩
  · intro row mem
    rcases List.mem_append.mp mem with old | new
    · exact .inl old
    · obtain ⟨mem, own⟩ := List.mem_filter.mp new
      have creator : row.creator = r := by simpa [AlertRow.createdBy] using own
      obtain ⟨p, eq, -, same⟩ := inv.drafted row mem
      rw [creator, known, Option.some.injEq] at eq
      exact .inr ⟨creator, done, eq ▸ same⟩
  · exact fun call mem => .inl mem
  · exact unique_commit inv.unique _

theorem insert_conflicts {row : AlertRow}
    (conflict : t.insert AlertRow.fingerprint row = .conflicts) :
    ∃ old ∈ t.rows, old.fingerprint = row.fingerprint := by
  unfold Table.insert at conflict
  split at conflict
  · cases conflict
  · split at conflict
    · rename_i mem
      exact List.mem_map.mp mem
    · cases conflict

theorem inv_insertRow (inv : Inv w) (known : w.requests r = some q) (phase : q.phase = .started)
    (taken : w.insertRow r q = some w') : Inv w' := by
  have fresh : q.committed = false ∧ q.result = none := by
    have ok := inv.phases r q known
    rwa [PhaseOk, phase] at ok
  have ne : q.phase ≠ .inserted := by
    rw [phase]
    simp
  unfold Ingest.insertRow at taken
  split at taken
  · cases taken
  · rename_i conflict
    cases taken
    exact inv_idle inv known rfl rfl ne ⟨fresh, insert_conflicts conflict⟩ rfl id (fun _ => rfl)
      (fun call mem => .inl mem)
  · rename_i t inserted
    cases taken
    obtain ⟨unique, eq⟩ := unique_insert inv.unique inserted
    have requests : ({ w with table := t, nextId := w.nextId + 1 } : Ingest).requests =
        w.requests := rfl
    refine inv_move inv known requests unique ?_ ?_ rfl id ?_ ?_ ?_ (fun call mem => .inl mem)
    · rw [eq]
      exact ⟨(grows_refl _ r).rows, fun row mem _ => List.mem_append_left _ mem⟩
    · rw [eq]
      exact ⟨fresh.1, _, List.mem_append_right _ List.mem_cons_self, rfl, rfl, rfl⟩
    · rw [fresh.2]
      exact fun some => (by cases some)
    · intro row mem
      rw [eq, List.mem_append, List.mem_singleton] at mem
      rcases mem with old | rfl
      · exact .inl ⟨old, no_draft inv known ne old⟩
      · exact .inr ⟨rfl, rfl, rfl⟩
    · rw [eq]
      exact fun row mem => .inl mem

theorem inv_selectRow (inv : Inv w) (known : w.requests r = some q) (phase : q.phase = .conflicted) :
    Inv (w.selectRow r q) := by
  have ok := inv.phases r q known
  rw [PhaseOk, phase] at ok
  obtain ⟨⟨opened, empty⟩, row, mem, same⟩ := ok
  have found := find_eq inv.unique mem
  rw [same] at found
  rw [Ingest.selectRow, found]
  refine inv_idle inv known rfl rfl ?_ ?_ rfl id ?_ (fun call mem => .inl mem)
  · rw [phase]
    simp
  · refine ⟨opened, _, rfl, rfl, row, mem, same, rfl, ?_⟩
    obtain ⟨p, eq, done, -⟩ := inv.created row mem
    constructor
    · intro own
      cases own
    · intro own
      rw [own, known, Option.some.injEq] at eq
      rw [← eq, opened] at done
      cases done
  · rw [empty]
    exact fun some => (by cases some)

theorem told_commit (inv : Inv w) (known : w.requests r = some q)
    (phase : q.phase = .inserted ∨ q.phase = .read) : Told (w.commit r).table r q := by
  have ok := inv.phases r q known
  rcases phase with phase | phase
  · rw [PhaseOk, phase] at ok
    obtain ⟨-, row, mem, own, same, eq⟩ := ok
    refine ⟨_, eq, row, ?_, same, rfl, fun _ => own, fun _ => rfl⟩
    exact List.mem_append_right _ (List.mem_filter.mpr ⟨mem, by simpa [AlertRow.createdBy] using own⟩)
  · rw [PhaseOk, phase] at ok
    obtain ⟨-, res, eq, -, finds⟩ := ok
    exact ⟨res, eq, finds_grows (grows_commit _ r) finds⟩

theorem told_committed (inv : Inv w) (known : w.requests r = some q) (done : q.committed = true) :
    Told w.table r q := by
  have ok := inv.phases r q known
  unfold PhaseOk at ok
  split at ok
  · rw [ok.1] at done
    cases done
  · rw [ok.1.1] at done
    cases done
  · rw [ok.1] at done
    cases done
  · rw [ok.1] at done
    cases done
  · cases ok
  · exact ok.2
  · exact ok.2
  · exact ⟨_, ok.2.1, ok.2.2.2⟩
  · exact ok done
  · exact ok done

theorem told_rollback (inv : Inv w) (known : w.requests r = some q) (done : q.committed = true) :
    Told (w.rollback r).table r q :=
  told_grows (grows_rollback _ r) (told_committed inv known done)

theorem inv_enqueue (inv : Inv w) (known : w.requests r = some q) (phase : q.phase = .committed)
    (told : q.result = some res) (needed : res.enqueues = true) (available : Bool) :
    Inv ((w.call r res).set r
      { q with phase := if available then .enqueued else .answered (.error 503) }) := by
  have ok := inv.phases r q known
  rw [PhaseOk, phase] at ok
  obtain ⟨done, other, eq, finds⟩ := ok
  rw [told, Option.some.injEq] at eq
  subst eq
  refine inv_idle inv known rfl rfl ?_ ?_ rfl id (fun _ => rfl) ?_
  · rw [phase]
    simp
  · cases available
    · exact fun _ => ⟨res, told, finds⟩
    · exact ⟨done, res, told, finds⟩
  · intro call mem
    rcases List.mem_append.mp mem with old | new
    · exact .inl old
    · rw [List.mem_singleton] at new
      subst new
      obtain ⟨row, durable, -, id, -⟩ := finds
      exact .inr ⟨⟨row, durable, id⟩, _, res, set_self _ _ _, told, rfl, needed⟩

theorem inv_respond (inv : Inv w) (known : w.requests r = some q)
    (phase : q.phase = .committed ∨ q.phase = .enqueued) (told : q.result = some res) :
    Inv (w.set r { q with phase := .answered res.answer }) := by
  have ok : q.committed = true ∧ Told w.table r q := by
    have ok := inv.phases r q known
    rcases phase with phase | phase
    · rwa [PhaseOk, phase] at ok
    · rwa [PhaseOk, phase] at ok
  obtain ⟨done, other, eq, finds⟩ := ok
  rw [told, Option.some.injEq] at eq
  subst eq
  refine inv_idle inv known rfl rfl ?_ ⟨done, told, rfl, finds⟩ rfl id (fun _ => rfl)
    (fun call mem => .inl mem)
  rcases phase with phase | phase <;> simp [phase]

theorem inv_request {e : RequestEvent} (inv : Inv w) (known : w.requests r = some q)
    (taken : requestStep w r q e = some w') : Inv w' := by
  cases e with
  | insert =>
    simp only [requestStep] at taken
    split at taken
    · rename_i phase
      exact inv_insertRow inv known phase taken
    · cases taken
  | select =>
    simp only [requestStep] at taken
    split at taken
    · rename_i phase
      cases taken
      exact inv_selectRow inv known phase
    · cases taken
  | commit =>
    simp only [requestStep] at taken
    have told := told_commit inv known
    split at taken
    · rename_i phase
      cases taken
      exact inv_commit inv known ⟨rfl, told (.inl phase)⟩ rfl rfl rfl
    · rename_i phase
      cases taken
      exact inv_commit inv known ⟨rfl, told (.inr phase)⟩ rfl rfl rfl
    · cases taken
  | commitCrash =>
    simp only [requestStep] at taken
    have told := told_commit inv known
    split at taken
    · rename_i phase
      cases taken
      exact inv_commit inv known (fun _ => told (.inl phase)) rfl rfl rfl
    · rename_i phase
      cases taken
      exact inv_commit inv known (fun _ => told (.inr phase)) rfl rfl rfl
    · cases taken
  | enqueue available =>
    simp only [requestStep] at taken
    split at taken
    · rename_i res phase told
      split at taken
      · rename_i needed
        cases taken
        exact inv_enqueue inv known phase told needed available
      · cases taken
    · cases taken
  | respond =>
    simp only [requestStep] at taken
    split at taken
    · rename_i res phase told
      split at taken
      · cases taken
      · cases taken
        exact inv_respond inv known (.inl phase) told
    · rename_i res phase told
      cases taken
      exact inv_respond inv known (.inr phase) told
    · cases taken
  | fail =>
    have told := told_rollback inv known
    simp only [requestStep] at taken
    split at taken
    · cases taken
    · cases taken
      exact inv_rollback inv known told rfl id (fun _ => rfl)
  | crash =>
    have told := told_rollback inv known
    simp only [requestStep] at taken
    split at taken
    · cases taken
    · cases taken
      exact inv_rollback inv known told rfl id (fun _ => rfl)

theorem inv_arrive {values : AlertValues} (inv : Inv w) (absent : w.requests r = none) :
    Inv (w.set r { values := values }) := by
  have known {i : Nat} {p : Request} (eq : w.requests i = some p) :
      (w.set r { values := values }).requests i = some p := by
    have other : i ≠ r := by
      rintro rfl
      rw [absent] at eq
      cases eq
    rw [set_other other, eq]
  constructor
  · exact inv.unique
  · intro row mem
    obtain ⟨p, eq, rest⟩ := inv.drafted row mem
    exact ⟨p, known eq, rest⟩
  · intro row mem
    obtain ⟨p, eq, rest⟩ := inv.created row mem
    exact ⟨p, known eq, rest⟩
  · intro i p eq
    by_cases own : i = r
    · subst own
      rw [set_self, Option.some.injEq] at eq
      subst eq
      exact ⟨rfl, rfl⟩
    · rw [set_other own] at eq
      exact inv.phases i p eq
  · intro call mem
    obtain ⟨durable, p, res, eq, rest⟩ := inv.calls call mem
    exact ⟨durable, p, res, known eq, rest⟩

theorem inv_update {f : AlertRow → AlertRow} (inv : Inv w)
    (same : ∀ row, (f row).fingerprint = row.fingerprint ∧ (f row).id = row.id ∧
      (f row).creator = row.creator) : Inv { w with table := w.table.update f } := by
  -- no request is the one that moves, so every one of them is another
  have grows (i : Nat) : Grows w.table (w.table.update f) (i + 1) :=
    ⟨fun row mem => ⟨f row, List.mem_map_of_mem mem, same row⟩, fun row mem _ => mem⟩
  refine ⟨unique_update inv.unique fun row => (same row).1, inv.drafted, ?_, ?_, inv.calls⟩
  · intro row mem
    obtain ⟨old, before, rfl⟩ := List.mem_map.mp mem
    rw [(same old).1, (same old).2.2]
    exact inv.created old before
  · intro i p eq
    exact phaseOk_grows (grows i) (by omega) (inv.phases i p eq)

theorem triaged_same (id : Nat) (ok : Bool) (row : AlertRow) :
    (row.triaged id ok).fingerprint = row.fingerprint ∧ (row.triaged id ok).id = row.id ∧
      (row.triaged id ok).creator = row.creator := by
  unfold AlertRow.triaged
  split <;> exact ⟨rfl, rfl, rfl⟩

theorem flipped_same (id : Nat) (row : AlertRow) :
    (row.flipped id).fingerprint = row.fingerprint ∧ (row.flipped id).id = row.id ∧
      (row.flipped id).creator = row.creator := by
  unfold AlertRow.flipped
  split <;> exact ⟨rfl, rfl, rfl⟩

theorem inv_step {e : Event} (inv : Inv w) (taken : step w e = some w') : Inv w' := by
  cases e with
  | arrive r values =>
    simp only [step] at taken
    split at taken
    · rename_i absent
      cases taken
      exact inv_arrive inv absent
    · cases taken
  | request r e =>
    simp only [step] at taken
    split at taken
    · cases taken
    · rename_i q known
      exact inv_request inv known taken
  | triage id ok =>
    cases taken
    exact inv_update inv (triaged_same id ok)
  | flip id =>
    cases taken
    exact inv_update inv (flipped_same id)

theorem inv_start : Inv {} := by
  constructor
  · exact List.nodup_nil
  · exact fun row mem => absurd mem List.not_mem_nil
  · exact fun row mem => absurd mem List.not_mem_nil
  · exact fun r q eq => (by cases eq)
  · exact fun call mem => absurd mem List.not_mem_nil

theorem reach_inv (reached : Reach step anyStep {} w) : Inv w :=
  reach_invariant Inv inv_start (fun _ _ _ inv _ taken => inv_step inv taken) reached

def Creates (w : Ingest) (fingerprint : PyStr) (c : Nat) : Prop :=
  ∃ q res, w.requests c = some q ∧ q.committed = true ∧ q.values.fingerprint = fingerprint ∧
    q.result = some res ∧ res.created = true

theorem creates_iff (inv : Inv w) {row : AlertRow} (mem : row ∈ w.table.rows) {c : Nat} :
    Creates w row.fingerprint c ↔ c = row.creator := by
  constructor
  · rintro ⟨q, res, known, done, same, told, created⟩
    obtain ⟨res', eq, other, mem', same', -, own⟩ := told_committed inv known done
    rw [told, Option.some.injEq] at eq
    subst eq
    rw [unique_eq inv.unique mem mem' (same.symm.trans same'.symm)]
    exact (own.mp created).symm
  · rintro rfl
    obtain ⟨q, known, done, same⟩ := inv.created row mem
    obtain ⟨res, told, other, mem', same', -, own⟩ := told_committed inv known done
    have eq := unique_eq inv.unique mem' mem (same'.trans same.symm)
    exact ⟨q, res, known, done, same.symm, told, own.mpr (by rw [eq])⟩

/-- Ingest creates one row a fingerprint, answers every request of it with that row's id and
enqueues only committed rows, of duplicates only those read as pending. -/
theorem ingest_deduplicates (reached : Reach step anyStep {} w) :
    (w.table.rows.map AlertRow.fingerprint).Nodup ∧
    (∀ r q, w.requests r = some q → q.phase ≠ .noRow) ∧
    (∀ r q, w.requests r = some q → q.committed = true →
      (∃! c, Creates w q.values.fingerprint c) ∧
      ∃ row ∈ w.table.rows, row.fingerprint = q.values.fingerprint ∧
        ∃ res, q.result = some res ∧ res.alertId = row.id) ∧
    (∀ r q code body, w.requests r = some q → q.phase = .answered (.ingest code body) →
      q.committed = true ∧ q.result = some body) ∧
    ∀ call ∈ w.enqueues, (∃ row ∈ call.rows, row.id = call.alertId) ∧
      ∃ q res, w.requests call.request = some q ∧ q.result = some res ∧
        res.alertId = call.alertId ∧ (res.created = false → res.status = .pending) := by
  have inv := reach_inv reached
  refine ⟨unique_rows inv.unique, ?_, ?_, ?_, ?_⟩
  · intro r q known phase
    have ok := inv.phases r q known
    rwa [PhaseOk, phase] at ok
  · intro r q known done
    obtain ⟨res, told, row, mem, same, id, -⟩ := told_committed inv known done
    refine ⟨⟨row.creator, ?_, ?_⟩, row, mem, same, res, told, id.symm⟩
    · rw [← same]
      exact (creates_iff inv mem).mpr rfl
    · intro c creates
      rw [← same] at creates
      exact (creates_iff inv mem).mp creates
  · intro r q code body known phase
    have ok := inv.phases r q known
    rw [PhaseOk, phase] at ok
    exact ⟨ok.1, ok.2.1⟩
  · intro call mem
    obtain ⟨durable, q, res, known, told, id, needed⟩ := inv.calls call mem
    refine ⟨durable, q, res, known, told, id, fun duplicate => ?_⟩
    simpa [IngestResult.enqueues, duplicate] using needed

def sampleValues : AlertValues :=
  ⟨str "f0", source, ⟨0, some 0, by decide, by decide⟩, .null⟩

/-- Two posts of one session that overlap; the first is triaged before the second reads. -/
def overlap : List Event :=
  [.arrive 0 sampleValues, .arrive 1 sampleValues, .request 0 .insert, .request 0 .commit,
    .request 1 .insert, .request 0 (.enqueue true), .request 0 .respond, .triage 0 true,
    .request 1 .select, .request 1 .commit, .request 1 .respond]

theorem ingest_deduplicates_overlap :
    ∃ w, run step {} overlap = some w ∧ w.table.rows.length = 1 ∧ w.enqueues.length = 1 ∧
      (w.table.rows.map AlertRow.fingerprint).Nodup := by
  have facts : (run step {} overlap).map (fun w => (w.table.rows.length, w.enqueues.length)) =
      some (1, 1) := by decide +kernel
  rcases ran : run step {} overlap with _ | w
  · rw [ran] at facts
    cases facts
  · rw [ran, Option.map_some, Option.some.injEq, Prod.mk.injEq] at facts
    exact ⟨w, rfl, facts.1, facts.2, (ingest_deduplicates (run_reaches .start ran)).1⟩

end ApiDedup
