import SentinelBrief.Worker.IpReputation

/-!
The vendor's quota over whole histories of `IpReputationTool.run`: how far apart its requests
are, and what the cache answers in between.
-/
namespace WorkerIpReputation
open StepRuns ExpiringCache Utf8Text JsonText IpAddressText CoreCache
variable {c : TtlCache PyStr Bytes}

theorem cacheKey_injective {a b : Address} (same : cacheKey a = cacheKey b) : a = b :=
  text_injective (List.append_cancel_left same)

/-- No address begins with the letter that the rest of `QUOTA_KEY` begins with. -/
theorem cacheKey_ne_quotaKey (ip : Address) : cacheKey ip ≠ quotaKey := by
  intro same
  have texts := List.append_cancel_left same
  obtain ⟨first, rest, text, small⟩ := text_head ip
  rw [text, show str "quota_exceeded" = 0x71 :: str "uota_exceeded" from by decide,
    List.cons.injEq] at texts
  omega

def Exchange.tooMany (x : Exchange) : Bool :=
  match x.reply with
  | .response status _ => status = 429
  | _ => false

def Exchange.result (nesting : Nat) (x : Exchange) : Option Reputation :=
  match x.reply with
  | .response status content =>
    if 200 ≤ status ∧ status < 300 then (readReputation nesting x.ip content).toOption else none
  | _ => none

def Exchange.resultFor (nesting : Nat) (ip : Address) (x : Exchange) : Option (Exchange × Reputation) :=
  if x.ip = ip then (x.result nesting).map fun r => (x, r) else none

def lastResult (nesting : Nat) (log : List Exchange) (ip : Address) : Option (Exchange × Reputation) :=
  log.reverse.findSome? (Exchange.resultFor nesting ip)

theorem lastResult_concat (nesting : Nat) (log : List Exchange) (x : Exchange) (ip : Address) :
    lastResult nesting (log ++ [x]) ip = (x.resultFor nesting ip).or (lastResult nesting log ip) := by
  unfold lastResult
  rw [List.reverse_append, List.reverse_singleton, List.singleton_append, List.findSome?_cons]
  cases x.resultFor nesting ip <;> rfl

theorem lastResult_some {nesting : Nat} {log : List Exchange} {ip : Address} {x : Exchange}
    {r : Reputation} (last : lastResult nesting log ip = some (x, r)) :
    x ∈ log ∧ x.ip = ip ∧ x.result nesting = some r := by
  obtain ⟨y, member, found⟩ := List.exists_of_findSome?_eq_some last
  unfold Exchange.resultFor at found
  split at found
  · rename_i same
    obtain ⟨s, result, pair⟩ := Option.map_eq_some_iff.mp found
    cases pair
    exact ⟨List.mem_reverse.mp member, same, result⟩
  · cases found

theorem result_sound {nesting : Nat} {x : Exchange} {r : Reputation} (points : InRange x.ip.text)
    (result : x.result nesting = some r) : r.Sound := by
  unfold Exchange.result at result
  split at result
  · split at result
    · cases read : readReputation nesting x.ip _ with
      | error e =>
        rw [read] at result
        cases result
      | ok q =>
        rw [read] at result
        cases result
        exact (readReputation_sound points read).1
    · cases result
  · cases result

/-- After a 429 nothing is sent for as long as the back-off lasts. -/
def QuotaGap (tool : IpReputationTool) (x y : Exchange) : Prop :=
  x.tooMany = true → x.answeredAt + tool.quotaBackoff ≤ y.sentAt

/-- After a success nothing is sent for the address for as long as its answer is cached. -/
def AnswerGap (tool : IpReputationTool) (x y : Exchange) : Prop :=
  x.ip = y.ip → (x.result tool.nesting).isSome = true → x.answeredAt + tool.cacheTtl ≤ y.sentAt

structure Spaced (tool : IpReputationTool) (log : List Exchange) (now : Rat) : Prop where
  times : ∀ x ∈ log, x.answeredAt ≤ x.setAt ∧ x.setAt ≤ now
  points : ∀ x ∈ log, InRange x.ip.text
  keyed : log ≠ [] → tool.apiKey ≠ []
  limited : 0 < tool.quotaBackoff → log.Pairwise (QuotaGap tool)
  answered : log.Pairwise (AnswerGap tool)

structure Remembered (tool : IpReputationTool) (c : TtlCache PyStr Bytes) (cache : c.State)
    (log : List Exchange) (now : Rat) : Prop where
  limited : 0 < tool.quotaBackoff → ∀ x ∈ log, x.tooMany = true →
    Kept c cache now quotaKey (x.setAt + tool.quotaBackoff)
  answered : ∀ x ∈ log, (x.result tool.nesting).isSome = true →
    Kept c cache now (cacheKey x.ip) (x.setAt + tool.cacheTtl)
  stored : ∀ ip e, c.entry cache (cacheKey ip) = some e → ∃ x r,
    lastResult tool.nesting log ip = some (x, r) ∧ e = (x.setAt + tool.cacheTtl, r.stored)

variable {tool : IpReputationTool} {cache : c.State} {log : List Exchange} {now later : Rat}

theorem spaced_later (spaced : Spaced tool log now) (le : now ≤ later) : Spaced tool log later :=
  { spaced with times := fun x member =>
      ⟨(spaced.times x member).1, (spaced.times x member).2.trans le⟩ }

theorem remembered_later (known : Remembered tool c cache log now) (le : now ≤ later) :
    Remembered tool c cache log later where
  limited positive x member many := kept_later (known.limited positive x member many) le
  answered x member good := kept_later (known.answered x member good) le
  stored := known.stored

theorem remembered_get (known : Remembered tool c cache log now) (key : PyStr) (le : now ≤ later) :
    Remembered tool c (c.get key later cache).2 log later where
  limited positive x member many := kept_get (known.limited positive x member many) le
  answered x member good := kept_get (known.answered x member good) le
  stored ip e found := known.stored ip e (c.entry_get found)

theorem spaced_concat {x : Exchange} (spaced : Spaced tool log now) (le : now ≤ x.setAt)
    (order : x.answeredAt ≤ x.setAt) (points : InRange x.ip.text) (keyed : tool.apiKey ≠ [])
    (calm : 0 < tool.quotaBackoff → ∀ y ∈ log, y.tooMany = true →
      y.setAt + tool.quotaBackoff ≤ x.sentAt)
    (missed : ∀ y ∈ log, y.ip = x.ip → (y.result tool.nesting).isSome = true →
      y.setAt + tool.cacheTtl ≤ x.sentAt) : Spaced tool (log ++ [x]) x.setAt where
  times := by
    rw [List.forall_mem_append, List.forall_mem_singleton]
    exact ⟨(spaced_later spaced le).times, order, le_rfl⟩
  points := by
    rw [List.forall_mem_append, List.forall_mem_singleton]
    exact ⟨spaced.points, points⟩
  keyed _ := keyed
  limited positive := by
    refine List.pairwise_append.mpr
      ⟨spaced.limited positive, List.pairwise_singleton _ _, fun y member z last many => ?_⟩
    rw [List.mem_singleton.mp last]
    exact (add_le_add_left (spaced.times y member).1 _).trans (calm positive y member many)
  answered := by
    refine List.pairwise_append.mpr
      ⟨spaced.answered, List.pairwise_singleton _ _, fun y member z last same good => ?_⟩
    rw [List.mem_singleton.mp last] at same ⊢
    exact (add_le_add_left (spaced.times y member).1 _).trans (missed y member same good)

theorem resultFor_none {nesting : Nat} {x : Exchange} (result : x.result nesting = none)
    (ip : Address) : x.resultFor nesting ip = none := by
  unfold Exchange.resultFor
  split
  · rw [result, Option.map_none]
  · rfl

theorem remembered_failed {x : Exchange} (known : Remembered tool c cache log now)
    (le : now ≤ x.setAt) (calm : 0 < tool.quotaBackoff → x.tooMany = false)
    (failed : x.result tool.nesting = none) :
    Remembered tool c cache (log ++ [x]) x.setAt where
  limited positive := by
    rw [List.forall_mem_append, List.forall_mem_singleton]
    refine ⟨(remembered_later known le).limited positive, fun many => ?_⟩
    rw [calm positive] at many
    cases many
  answered := by
    rw [List.forall_mem_append, List.forall_mem_singleton]
    refine ⟨(remembered_later known le).answered, fun good => ?_⟩
    rw [failed] at good
    cases good
  stored ip e found := by
    rw [lastResult_concat, resultFor_none failed, Option.none_or]
    exact known.stored ip e found

theorem kept_renewed {key : PyStr} {v : Bytes} {ttl : ℕ+} (cache : c.State) (due : Rat)
    (le : due ≤ later + ttl) :
    Kept c (c.set key v ttl later cache) later key due :=
  fun _ => ⟨_, c.set_self key v ttl later cache, le⟩

theorem remembered_tooMany {x : Exchange} (known : Remembered tool c cache log now)
    (spaced : Spaced tool log now) (le : now ≤ x.setAt) (positive : 0 < tool.quotaBackoff)
    (failed : x.result tool.nesting = none) (value : Bytes) :
    Remembered tool c (c.set quotaKey value ⟨tool.quotaBackoff, positive⟩ x.setAt cache)
      (log ++ [x]) x.setAt where
  limited _ := by
    have renewed {y : Exchange} (before : y.setAt ≤ x.setAt) :
        y.setAt + tool.quotaBackoff ≤ x.setAt + (⟨tool.quotaBackoff, positive⟩ : ℕ+) :=
      add_le_add_left before _
    rw [List.forall_mem_append, List.forall_mem_singleton]
    exact ⟨fun y member many => kept_set (known.limited positive y member many) le fun _ =>
      renewed ((spaced.times y member).2.trans le), fun _ => kept_renewed cache _ (renewed le_rfl)⟩
  answered := by
    rw [List.forall_mem_append, List.forall_mem_singleton]
    refine ⟨fun y member good => kept_set (known.answered y member good) le fun same =>
      absurd same (cacheKey_ne_quotaKey y.ip), fun good => ?_⟩
    rw [failed] at good
    cases good
  stored ip e found := by
    rw [lastResult_concat, resultFor_none failed, Option.none_or]
    exact known.stored ip e (c.entry_set (cacheKey_ne_quotaKey ip) found)

theorem remembered_answered {x : Exchange} {r : Reputation}
    (known : Remembered tool c cache log now) (spaced : Spaced tool log now) (le : now ≤ x.setAt)
    (calm : x.tooMany = false) (good : x.result tool.nesting = some r) :
    Remembered tool c (c.set (cacheKey x.ip) r.stored tool.cacheTtl x.setAt cache)
      (log ++ [x]) x.setAt where
  limited positive := by
    rw [List.forall_mem_append, List.forall_mem_singleton]
    refine ⟨fun y member many => kept_set (known.limited positive y member many) le fun same =>
      absurd same.symm (cacheKey_ne_quotaKey x.ip), fun many => ?_⟩
    rw [calm] at many
    cases many
  answered := by
    rw [List.forall_mem_append, List.forall_mem_singleton]
    exact ⟨fun y member good => kept_set (known.answered y member good) le fun _ =>
      add_le_add_left ((spaced.times y member).2.trans le) _,
      fun _ => kept_renewed cache _ le_rfl⟩
  stored ip e found := by
    rw [lastResult_concat]
    unfold Exchange.resultFor
    by_cases same : x.ip = ip
    · subst same
      rw [c.set_self, Option.some.injEq] at found
      rw [if_pos rfl, good, Option.map_some, Option.some_or]
      exact ⟨x, r, rfl, found.symm⟩
    · rw [if_neg same, Option.none_or]
      exact known.stored ip e (c.entry_set (fun keys => same (cacheKey_injective keys).symm) found)

def Call.exchange (call : Call) (ip : Address) : Exchange :=
  ⟨ip, call.reply, call.sentAt, call.answeredAt, call.setAt⟩

theorem request_log (call : Call) (ip : Address) (w : World c) :
    (tool.request call ip w).2.log = w.log ++ [call.exchange ip] := by
  unfold IpReputationTool.request
  dsimp only
  repeat' split
  all_goals rfl

theorem request_remembered (call : Call) (ip : Address) {w : World c}
    (known : Remembered tool c w.cache w.log now) (spaced : Spaced tool w.log now)
    (le : now ≤ call.setAt) : Remembered tool c (tool.request call ip w).2.cache
      (w.log ++ [call.exchange ip]) call.setAt := by
  have noted : (call.exchange ip).reply = call.reply := rfl
  unfold IpReputationTool.request
  dsimp only
  split
  · rename_i reply
    exact remembered_failed known le (by simp [Exchange.tooMany, noted, reply])
      (by simp [Exchange.result, noted, reply])
  · rename_i reply
    exact remembered_failed known le (by simp [Exchange.tooMany, noted, reply])
      (by simp [Exchange.result, noted, reply])
  · rename_i status content reply
    split
    · rename_i many
      subst many
      have failed : (call.exchange ip).result tool.nesting = none := by
        simp [Exchange.result, noted, reply]
      dsimp only
      split
      · rename_i positive
        exact remembered_tooMany known spaced le positive failed _
      · rename_i off
        exact remembered_failed known le (fun positive => absurd positive off) failed
    · rename_i other
      have calm : (call.exchange ip).tooMany = false := by
        simpa [Exchange.tooMany, noted, reply] using other
      split
      · rename_i refused
        refine remembered_failed known le (fun _ => calm) ?_
        simp only [Exchange.result, noted, reply]
        exact if_neg (by omega)
      split
      · rename_i outside
        refine remembered_failed known le (fun _ => calm) ?_
        simp only [Exchange.result, noted, reply]
        exact if_neg outside
      · rename_i inside
        have result : (call.exchange ip).result tool.nesting =
            (readReputation tool.nesting ip content).toOption := by
          simp only [Exchange.result, noted, reply]
          exact if_pos (not_not.mp inside)
        split
        · rename_i read
          exact remembered_failed known le (fun _ => calm) (by rw [result, read]; rfl)
        · rename_i read
          exact remembered_failed known le (fun _ => calm) (by rw [result, read]; rfl)
        · rename_i r read
          exact remembered_answered known spaced le calm (by rw [result, read]; rfl)

def Held (tool : IpReputationTool) (w : World c) (now : Rat) : Prop :=
  Spaced tool w.log now ∧ Remembered tool c w.cache w.log now

theorem held_later {w : World c} (held : Held tool w now) (le : now ≤ later) : Held tool w later :=
  ⟨spaced_later held.1 le, remembered_later held.2 le⟩

theorem held_get {w : World c} (held : Held tool w now) (key : PyStr) (le : now ≤ later) :
    Held tool { w with cache := (c.get key later w.cache).2 } later :=
  ⟨spaced_later held.1 le, remembered_get held.2 key le⟩

variable {call : Call} {ip : Address} {w : World c}

theorem request_held (held : Held tool w now) (given : call.ip = some ip) (keyed : tool.apiKey ≠ [])
    (le : now ≤ call.sentAt)
    (calm : 0 < tool.quotaBackoff → ∀ x ∈ w.log, x.tooMany = true →
      x.setAt + tool.quotaBackoff ≤ call.sentAt)
    (missed : ∀ x ∈ w.log, x.ip = ip → (x.result tool.nesting).isSome = true →
      x.setAt + tool.cacheTtl ≤ call.sentAt) : Held tool (tool.request call ip w).2 call.setAt := by
  obtain ⟨-, -, sent, answered⟩ := call.ordered
  have ends : now ≤ call.setAt := le.trans (sent.trans answered)
  have spaced : Spaced tool (w.log ++ [call.exchange ip]) call.setAt :=
    spaced_concat held.1 ends answered (ip_points given) keyed calm missed
  unfold Held
  rw [request_log]
  exact ⟨spaced, request_remembered call ip held.2 held.1 ends⟩

theorem unlessBackoff_held (held : Held tool w call.getAt) (given : call.ip = some ip)
    (keyed : tool.apiKey ≠ [])
    (missed : ∀ x ∈ w.log, x.ip = ip → (x.result tool.nesting).isSome = true →
      x.setAt + tool.cacheTtl ≤ call.getAt) :
    Held tool (tool.unlessBackoff call ip w).2 call.setAt := by
  obtain ⟨read, asked, sent, answered⟩ := call.ordered
  have late : call.getAt ≤ call.sentAt := read.trans asked
  unfold IpReputationTool.unlessBackoff
  split
  · rename_i positive
    have known := held_get held quotaKey read
    dsimp only
    split
    · exact held_later known (asked.trans (sent.trans answered))
    · rename_i none
      exact request_held known given keyed asked
        (fun _ x member many =>
          (kept_miss (held.2.limited positive x member many) read none).trans asked)
        (fun x member same good => (missed x member same good).trans late)
  · rename_i off
    exact request_held held given keyed late (fun positive => absurd positive off)
      (fun x member same good => (missed x member same good).trans late)

theorem lookup_hit (held : Held tool w now) {value : Bytes}
    (hit : (c.get (cacheKey ip) call.getAt w.cache).1 = some value) :
    ∃ x r, lastResult tool.nesting w.log ip = some (x, r) ∧
      tool.lookup call ip w = (.ok (answer r.joined.fields true),
        { w with cache := (c.get (cacheKey ip) call.getAt w.cache).2 }) := by
  obtain ⟨t, entry⟩ := c.get_entry hit
  obtain ⟨x, r, last, same⟩ := held.2.stored ip _ entry
  cases same
  obtain ⟨member, -, result⟩ := lastResult_some last
  have sound := result_sound (held.1.points x member) result
  refine ⟨x, r, last, ?_⟩
  unfold IpReputationTool.lookup
  simp only [hit, readPayload_stored sound]

theorem lookup_held (held : Held tool w now) (le : now ≤ call.getAt) (given : call.ip = some ip)
    (keyed : tool.apiKey ≠ []) : Held tool (tool.lookup call ip w).2 call.setAt := by
  obtain ⟨read, asked, sent, answered⟩ := call.ordered
  have known := held_get held (cacheKey ip) le
  cases cached : (c.get (cacheKey ip) call.getAt w.cache).1 with
  | some value =>
    obtain ⟨x, r, last, found⟩ := lookup_hit held cached
    rw [found]
    exact held_later known (read.trans (asked.trans (sent.trans answered)))
  | none =>
    have missed : ∀ x ∈ w.log, x.ip = ip → (x.result tool.nesting).isSome = true →
        x.setAt + tool.cacheTtl ≤ call.getAt := by
      rintro x member rfl good
      exact kept_miss (held.2.answered x member good) le cached
    unfold IpReputationTool.lookup
    simp only [cached]
    exact unlessBackoff_held known given keyed missed

theorem run_held (held : Held tool w now) (le : now ≤ call.getAt) :
    Held tool (tool.run call w).2 call.setAt := by
  obtain ⟨read, asked, sent, answered⟩ := call.ordered
  have ends : now ≤ call.setAt := le.trans (read.trans (asked.trans (sent.trans answered)))
  unfold IpReputationTool.run
  split
  · exact held_later held ends
  · rename_i ip given
    split
    · exact held_later held ends
    · rename_i keyed
      exact lookup_held held le given keyed

theorem held_start (tool : IpReputationTool) (c : TtlCache PyStr Bytes) (now : Rat) :
    Held tool (World.start c now) now := by
  refine ⟨⟨?_, ?_, ?_, fun _ => List.Pairwise.nil, List.Pairwise.nil⟩, ?_, ?_, ?_⟩
  all_goals simp [World.start, c.entry_empty]

theorem reach_held {start : Rat}
    (reached : Reach tool.step anyStep (World.start c start) w) : Held tool w w.now := by
  refine reach_invariant (fun w => Held tool w w.now) (held_start tool c start) ?_ reached
  intro w call w' held _ taken
  unfold IpReputationTool.step at taken
  split at taken
  · rename_i le
    cases taken
    exact run_held held le
  · cases taken

theorem joined_apart {r : Reputation} (ip : Apart r.ip) (lastSeen : ∀ s ∈ r.lastSeen, Apart s) :
    r.joined = r := by
  obtain ⟨text, abuseScore, reports, _ | s⟩ := r
  · simp only [Reputation.joined, joinUnits_apart ip, Option.map_none]
  · simp only [Reputation.joined, joinUnits_apart ip, joinUnits_apart (lastSeen s rfl),
      Option.map_some]

theorem run_hit (held : Held tool w now) (given : call.ip = some ip) {value : Bytes}
    (hit : (c.get (cacheKey ip) call.getAt w.cache).1 = some value) :
    ∃ x r, lastResult tool.nesting w.log ip = some (x, r) ∧
      (tool.run call w).1 = .ok (answer r.joined.fields true) ∧ (tool.run call w).2.log = w.log := by
  obtain ⟨x, r, last, found⟩ := lookup_hit held hit
  have keyed : tool.apiKey ≠ [] := held.1.keyed (List.ne_nil_of_mem (lastResult_some last).1)
  have run : tool.run call w = tool.lookup call ip w := by
    unfold IpReputationTool.run
    simp only [given, if_neg keyed]
  rw [run, found]
  exact ⟨x, r, last, rfl, rfl⟩

theorem live_hit (held : Held tool w now) {x : Exchange} {r : Reputation} (le : now ≤ later)
    (last : lastResult tool.nesting w.log ip = some (x, r)) (live : later < x.setAt + tool.cacheTtl) :
    (c.get (cacheKey ip) later w.cache).1 = some r.stored := by
  obtain ⟨member, same, result⟩ := lastResult_some last
  have good : (x.result tool.nesting).isSome = true := by rw [result, Option.isSome_some]
  subst same
  obtain ⟨e, found, -⟩ := held.2.answered x member good (le.trans_lt live)
  obtain ⟨y, q, again, entry⟩ := held.2.stored x.ip e found
  rw [last, Option.some.injEq, Prod.mk.injEq] at again
  obtain ⟨rfl, rfl⟩ := again
  cases entry
  exact c.get_live found live

/-- What the vendor's quota is promised, in every state that calls lead to. -/
theorem quota_discipline {start : Rat}
    (reached : Reach tool.step anyStep (World.start c start) w) :
    (0 < tool.quotaBackoff → w.log.Pairwise (QuotaGap tool)) ∧
    w.log.Pairwise (AnswerGap tool) ∧
    (∀ (call : Call) ip value, call.ip = some ip →
      (c.get (cacheKey ip) call.getAt w.cache).1 = some value →
      ∃ x r, lastResult tool.nesting w.log ip = some (x, r) ∧
        (tool.run call w).1 = .ok (answer r.joined.fields true) ∧ (tool.run call w).2.log = w.log) ∧
    (∀ ip x r later, w.now ≤ later → lastResult tool.nesting w.log ip = some (x, r) →
      later < x.setAt + tool.cacheTtl → (c.get (cacheKey ip) later w.cache).1 = some r.stored) ∧
    (∀ ip e, c.entry w.cache (cacheKey ip) = some e → ∃ x r,
      lastResult tool.nesting w.log ip = some (x, r) ∧ e = (x.setAt + tool.cacheTtl, r.stored)) ∧
    (∀ r : Reputation, Apart r.ip → (∀ s ∈ r.lastSeen, Apart s) → r.joined = r) ∧
    (∀ a b, cacheKey a = cacheKey b ↔ a = b) ∧ ∀ a, cacheKey a ≠ quotaKey := by
  have held := reach_held reached
  exact ⟨held.1.limited, held.1.answered, fun call ip value given hit => run_hit held given hit,
    fun ip x r later le last live => live_hit held le last live, held.2.stored,
    fun r => joined_apart, fun a b => ⟨cacheKey_injective, congrArg cacheKey⟩,
    cacheKey_ne_quotaKey⟩

abbrev redis : TtlCache PyStr Bytes := redisTTLCache (expiringMap PyStr Bytes) redisCacheKeyPrefix

def freeTier : IpReputationTool where
  apiKey := str "key"
  cacheTtl := 86400
  quotaBackoff := 3600
  nesting := 500

def callAt (time : Rat) (ip : PyStr) (points : InRange ip) (reply : Reply) : Call where
  arguments := [(str "ip", .str ip)]
  reply := reply
  getAt := time
  quotaAt := time
  sentAt := time
  answeredAt := time
  setAt := time
  ordered := ⟨le_rfl, le_rfl, le_rfl, le_rfl⟩
  points s found := by
    have same : some (Json.str ip) = some (Json.str s) := found
    simp only [Option.some.injEq, Json.str.injEq] at same
    exact same ▸ points

def reported (lastSeen : Bytes) : Reply :=
  .response 200 ((str "\x7b\"data\": \x7b\"abuseConfidenceScore\": 7, ").flatMap encodePoint ++
    (str "\"totalReports\": 2, \"lastReportedAt\": \"").flatMap encodePoint ++ lastSeen ++
    (str "\"\x7d\x7d").flatMap encodePoint)

def shown : Answer → Option (PyStr × Bool)
  | .ok j => match j.get? (str "last_seen"), j.get? (str "cached") with
    | some (.str s), some (.bool b) => some (s, b)
    | _, _ => none
  | .error _ => none

/-- An answer, a 429, a call while that is remembered, the first address again, and a call after. -/
def day : List Call :=
  [callAt 0 (str "192.0.2.1") (by decide) (reported [0x32]),
    callAt 5 (str "2001:DB8::1") (by decide) (.response 429 []),
    callAt 60 (str "198.51.100.7") (by decide) (reported [0x33]),
    callAt 90 (str "192.0.2.1") (by decide) (reported [0x34]),
    callAt 3605 (str "198.51.100.7") (by decide) (reported [0x35])]

def evening : Call := callAt 4000 (str "192.0.2.1") (by decide) .httpError

theorem quota_discipline_day : ∃ w : World redis,
    run freeTier.step (World.start redis 0) day = some w ∧ w.log.map Exchange.sentAt = [0, 5, 3605] ∧
      shown (freeTier.run evening w).1 = some ([0x32], true) ∧
      w.log.Pairwise (QuotaGap freeTier) ∧ w.log.Pairwise (AnswerGap freeTier) := by
  have taken : (run freeTier.step (World.start redis 0) day).map
      (fun w => (w.log.map Exchange.sentAt, shown (freeTier.run evening w).1)) =
      some ([0, 5, 3605], some ([0x32], true)) := by decide +kernel
  obtain ⟨w, reached, seen⟩ := Option.map_eq_some_iff.mp taken
  have disciplined := quota_discipline (run_reaches Reach.start reached)
  exact ⟨w, reached, congrArg Prod.fst seen, congrArg Prod.snd seen, disciplined.1 (by decide),
    disciplined.2.1⟩

/-- The two halves of a pair in UTF-8, each a character of its own until it is read back. -/
theorem split_pair_joined :
    let first := callAt 0 (str "192.0.2.1") (by decide)
      (reported [0xED, 0xA0, 0xBD, 0xED, 0xB8, 0x80])
    let second := callAt 1 (str "192.0.2.1") (by decide) .httpError
    shown (freeTier.run first (World.start redis 0)).1 = some ([0xD83D, 0xDE00], false) ∧
    (run freeTier.step (World.start redis 0) [first]).map (fun w => shown (freeTier.run second w).1) =
      some (some ([0x1F600], true)) := by
  decide +kernel

end WorkerIpReputation
