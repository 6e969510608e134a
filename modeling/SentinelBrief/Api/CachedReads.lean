import Mathlib.Tactic.Linarith
import SentinelBrief.Core.AlertsRead
import SentinelBrief.Core.Cache
import SentinelBrief.Library.IsoDate
import SentinelBrief.Library.JsonRoundTrip
import SentinelBrief.Library.Runs
import SentinelBrief.Library.UrlQuery

/-!
The list and the statistics through the response cache (`api/routes/alerts_read.py`).
A request that misses waits for its `produce`, and other requests come in
between. What a `produce` returns is arbitrary, since the data changes.
-/
namespace ApiCachedReads
open CoreCache OrderedDictionary Utf8Text JsonText IsoDateText UrlQueryText SeparatedLines StepRuns
open CoreAlertsRead (VerdictCategory categoryText category_text_injective)

def questionMark : Nat := 0x3F

/-- `request.url.path`; `urlsplit` ends it before the first `?`. -/
structure UrlPath where
  text : PyStr
  no_query : questionMark ∉ text

inductive ParamValue where
  | none
  | bool (b : Bool)
  | datetime (d : DateTime)
  | int (n : Int)
  | str (s : PyStr)

def ParamValue.text : ParamValue → Option PyStr
  | .none => .none
  | .bool b => some (if b then Utf8Text.str "true" else Utf8Text.str "false")
  | .datetime d => some (isoformat d)
  | .int n => some (intText n)
  | .str s => some s

def pairTexts (params : List (PyStr × ParamValue)) : List (PyStr × PyStr) :=
  params.filterMap fun p => p.2.text.map fun text => (p.1, text)

def sortPairs (pairs : List (PyStr × PyStr)) : List (PyStr × PyStr) :=
  pairs.insertionSort fun p q => p.1 < q.1 ∨ p.1 = q.1 ∧ p.2 ≤ q.2

def cacheKey (path : PyStr) (params : List (PyStr × ParamValue)) : PyStr :=
  let pairs := sortPairs (pairTexts params)
  if pairs.isEmpty then path else path ++ questionMark :: urlencode pairs

inductive Param where
  | page
  | pageSize
  | severityGte
  | category
  | since
  | escalate
  deriving DecidableEq, Repr

def Param.text : Param → PyStr
  | .page => str "page"
  | .pageSize => str "page_size"
  | .severityGte => str "severity_gte"
  | .category => str "category"
  | .since => str "since"
  | .escalate => str "escalate"

structure ListQuery where
  page : Nat
  pageSize : Nat
  severityGte : Option Nat
  category : Option VerdictCategory
  since : Option DateTime
  escalate : Option Bool
  page_range : 1 ≤ page
  page_size_range : 1 ≤ pageSize ∧ pageSize ≤ 100
  severity_range : ∀ s ∈ severityGte, 1 ≤ s ∧ s ≤ 5

def ListQuery.value (q : ListQuery) : Param → ParamValue
  | .page => .int q.page
  | .pageSize => .int q.pageSize
  | .severityGte => q.severityGte.elim .none fun s => .int s
  | .category => q.category.elim .none fun c => .str (categoryText c)
  | .since => q.since.elim .none .datetime
  | .escalate => q.escalate.elim .none .bool

def ListQuery.params (q : ListQuery) : List (PyStr × ParamValue) :=
  [.page, .pageSize, .severityGte, .category, .since, .escalate].map fun p => (p.text, q.value p)

inductive Request where
  | list (path : UrlPath) (query : ListQuery)
  | stats (path : UrlPath)

def Request.key : Request → PyStr
  | .list path query => cacheKey path.text query.params
  | .stats path => cacheKey path.text []

structure CacheConfig where
  alertsCacheMaxEntries : Nat
  alertsListCacheTtlS : Int
  statsCacheTtlS : Int
  entries_pos : 0 < alertsCacheMaxEntries
  list_pos : 0 < alertsListCacheTtlS
  stats_pos : 0 < statsCacheTtlS

def CacheConfig.ttl (cfg : CacheConfig) : Request → Int
  | .list _ _ => cfg.alertsListCacheTtlS
  | .stats _ => cfg.statsCacheTtlS

theorem param_text_injective {p q : Param} (same : p.text = q.text) : p = q := by
  revert same
  cases p <;> cases q <;> decide

theorem int_text_injective {m n : Nat} (same : intText (m : Int) = intText (n : Int)) : m = n := by
  rw [intText_natCast, intText_natCast] at same
  rw [← digitsText_value m, same, digitsText_value]

theorem mem_pairTexts {q : ListQuery} {p : Param} {text : PyStr} :
    (p.text, text) ∈ pairTexts q.params ↔ (q.value p).text = some text := by
  have all : p ∈ [Param.page, .pageSize, .severityGte, .category, .since, .escalate] := by
    cases p <;> decide
  simp only [pairTexts, ListQuery.params, List.mem_filterMap, List.mem_map, Option.map_eq_some_iff,
    Prod.mk.injEq]
  constructor
  · rintro ⟨_, ⟨p', _, rfl⟩, text', found, name, rfl⟩
    rw [← param_text_injective name]
    exact found
  · intro found
    exact ⟨_, ⟨p, all, rfl⟩, text, found, rfl, rfl⟩

theorem value_text_injective {q q' : ListQuery}
    (same : ∀ p, (q.value p).text = (q'.value p).text) : q = q' := by
  obtain ⟨_, _, severity, category, since, escalate, _, _, _⟩ := q
  obtain ⟨_, _, severity', category', since', escalate', _, _, _⟩ := q'
  have page := int_text_injective (Option.some.inj (same .page))
  have size := int_text_injective (Option.some.inj (same .pageSize))
  have severities := same .severityGte
  have categories := same .category
  have sinces := same .since
  have escalates := same .escalate
  simp only [ListQuery.value] at page size severities categories sinces escalates
  obtain rfl : severity = severity' := by
    cases severity <;> cases severity' <;> simp [ParamValue.text] at severities ⊢
    exact int_text_injective severities
  obtain rfl : category = category' := by
    cases category <;> cases category' <;> simp [ParamValue.text] at categories ⊢
    exact category_text_injective categories
  obtain rfl : since = since' := by
    cases since <;> cases since' <;> simp [ParamValue.text] at sinces ⊢
    exact isoformat_injective sinces
  obtain rfl : escalate = escalate' := by
    rcases escalate with _ | _ | _ <;> rcases escalate' with _ | _ | _ <;>
      simp [ParamValue.text] at escalates ⊢
    · exact absurd escalates (by decide)
    · exact absurd escalates (by decide)
  subst page size
  rfl

theorem pairTexts_ascii (q : ListQuery) : ∀ p ∈ pairTexts q.params, Ascii p.1 ∧ Ascii p.2 := by
  have number : ∀ n : Nat, Ascii (intText (n : Int)) := by
    intro n c member
    rw [intText_natCast] at member
    have digit := digitsText_digits n c member
    simp only [isDigit, Bool.and_eq_true, decide_eq_true_eq] at digit
    omega
  have value : ∀ p text, (q.value p).text = some text → Ascii text := by
    intro p text found
    cases p with
    | page => exact Option.some.inj found ▸ number q.page
    | pageSize => exact Option.some.inj found ▸ number q.pageSize
    | severityGte =>
      cases severity : q.severityGte with
      | none => simp [ListQuery.value, severity, ParamValue.text] at found
      | some s =>
        simp only [ListQuery.value, severity, Option.elim_some, ParamValue.text,
          Option.some.injEq] at found
        exact found ▸ number s
    | category =>
      cases category : q.category with
      | none => simp [ListQuery.value, category, ParamValue.text] at found
      | some c =>
        simp only [ListQuery.value, category, Option.elim_some, ParamValue.text,
          Option.some.injEq] at found
        subst found
        unfold Ascii
        cases c <;> decide
    | since =>
      cases since : q.since with
      | none => simp [ListQuery.value, since, ParamValue.text] at found
      | some d =>
        simp only [ListQuery.value, since, Option.elim_some, ParamValue.text,
          Option.some.injEq] at found
        exact found ▸ isoformat_ascii d
    | escalate =>
      cases escalate : q.escalate with
      | none => simp [ListQuery.value, escalate, ParamValue.text] at found
      | some b =>
        simp only [ListQuery.value, escalate, Option.elim_some, ParamValue.text,
          Option.some.injEq] at found
        subst found
        unfold Ascii
        cases b <;> decide
  have name : ∀ p : Param, Ascii p.text := by
    intro p
    unfold Ascii
    cases p <;> decide
  intro pair member
  simp only [pairTexts, ListQuery.params, List.mem_filterMap, List.mem_map,
    Option.map_eq_some_iff] at member
  obtain ⟨_, ⟨p, _, rfl⟩, text, found, rfl⟩ := member
  exact ⟨name p, value p text found⟩

/-- Requests with one key have the same route, path and parameters. -/
theorem key_injective {r r' : Request} (same : r.key = r'.key) : r = r' := by
  have some : ∀ q : ListQuery, sortPairs (pairTexts q.params) ≠ [] := by
    intro q none
    have member : (Param.page.text, intText q.page) ∈ sortPairs (pairTexts q.params) :=
      (List.perm_insertionSort _ _).mem_iff.mpr (mem_pairTexts.mpr rfl)
    rw [none] at member
    cases member
  have list_key : ∀ path q, (Request.list path q).key =
      path.text ++ questionMark :: urlencode (sortPairs (pairTexts q.params)) := by
    intro path q
    simp [Request.key, cacheKey, some q]
  have ascii : ∀ q : ListQuery, ∀ p ∈ sortPairs (pairTexts q.params), Ascii p.1 ∧ Ascii p.2 :=
    fun q p member => pairTexts_ascii q p ((List.perm_insertionSort _ _).mem_iff.mp member)
  cases r with
  | list path q =>
    cases r' with
    | list path' q' =>
      rw [list_key, list_key] at same
      obtain ⟨paths, queries⟩ := sep_append_inj path.no_query path'.no_query same
      have pairs := urlencode_injective (some q) (some q') (ascii q) (ascii q') queries
      have queries : q = q' := by
        refine value_text_injective fun p => Option.ext fun text => ?_
        have first : (pairTexts q.params).Perm (sortPairs (pairTexts q.params)) :=
          (List.perm_insertionSort _ _).symm
        have second : (sortPairs (pairTexts q'.params)).Perm (pairTexts q'.params) :=
          List.perm_insertionSort _ _
        rw [← mem_pairTexts, ← mem_pairTexts, first.mem_iff, pairs, second.mem_iff]
      rw [queries, show path = path' by cases path; cases path'; cases paths; rfl]
    | stats path' =>
      rw [list_key] at same
      have inside : questionMark ∈ path'.text := by
        rw [show path'.text = (Request.stats path').key from rfl, ← same]
        simp
      exact absurd inside path'.no_query
  | stats path =>
    cases r' with
    | list path' q' =>
      rw [list_key] at same
      have inside : questionMark ∈ path.text := by
        rw [show path.text = (Request.stats path).key from rfl, same]
        simp
      exact absurd inside path.no_query
    | stats path' =>
      have paths : path.text = path'.text := same
      rw [show path = path' by cases path; cases path'; cases paths; rfl]

inductive Entry where
  | served (t : Rat) (r : Request) (body : Bytes)
  | stored (t : Rat) (r : Request) (body : Bytes)
  | evicted (key : PyStr)

/-- The api process. `pending` are the requests that wait for their `produce`; `history` has what
    was served from the cache, what was stored, and the live entries that were evicted. -/
structure Serving (cfg : CacheConfig) where
  cache : InMemoryTTLCache cfg.alertsCacheMaxEntries
  clock : Rat
  pending : List Request := []
  history : List Entry := []

def Serving.start (cfg : CacheConfig) (clock : Rat) : Serving cfg :=
  { cache := .empty _, clock := clock }

inductive Event where
  | request (r : Request) (now : Rat)
  | finish (i : Nat) (body : Bytes) (now later : Rat)
  | fail (i : Nat)

def evictions {maxEntries : Nat} (key : PyStr) (now : Rat)
    (before after : InMemoryTTLCache maxEntries) : List Entry :=
  (before.entries.filter fun e => e.1 ≠ key ∧ now < e.2.expiresAt ∧ e ∉ after.entries).map
    fun e => .evicted e.1

/-- `_cached_json` in the two parts that its `await produce()` leaves. -/
def step (cfg : CacheConfig) (w : Serving cfg) : Event → Option (Serving cfg)
  | .request r now =>
    if w.clock ≤ now then
      match w.cache.get r.key now with
      | (some body, cache) =>
        some { w with cache := cache, clock := now, history := w.history ++ [.served now r body] }
      | (none, cache) =>
        some { w with cache := cache, clock := now, pending := w.pending ++ [r] }
    else none
  | .finish i body now later => match w.pending[i]? with
    | none => none
    | some r =>
      if w.clock ≤ now ∧ now ≤ later then
        match w.cache.set cfg.entries_pos r.key body (cfg.ttl r) now later with
        | none => none
        | some cache =>
          some { cache := cache, clock := later, pending := w.pending.eraseIdx i,
                 history := w.history ++
                   (evictions r.key now w.cache cache ++ [.stored later r body]) }
      else none
  | .fail i => if i < w.pending.length then some { w with pending := w.pending.eraseIdx i } else none

variable {cfg : CacheConfig} {w w' : Serving cfg}

def Untouched (r : Request) (h : List Entry) : Prop :=
  (∀ t body, .stored t r body ∉ h) ∧ .evicted r.key ∉ h

structure Kept (w : Serving cfg) : Prop where
  entries : ∀ key e, (key, e) ∈ w.cache.entries → ∃ (s : Rat) (r : Request),
    .stored s r e.value ∈ w.history ∧
    r.key = key ∧ e.expiresAt = s + cfg.ttl r ∧ s ≤ w.clock
  served : ∀ h (t : Rat) r body h', w.history = h ++ .served t r body :: h' →
    ∃ s : Rat, .stored s r body ∈ h ∧ t - cfg.ttl r < s ∧ s ≤ t
  stored : ∀ h (s : Rat) r body h', w.history = h ++ .stored s r body :: h' → Untouched r h' →
    s + cfg.ttl r ≤ w.clock ∨ (r.key, ⟨s + cfg.ttl r, body⟩) ∈ w.cache.entries

theorem kept_start (cfg : CacheConfig) (clock : Rat) : Kept (Serving.start cfg clock) where
  entries key e member := by cases member
  served h t r body h' eq := by simp [Serving.start] at eq
  stored h s r body h' eq := by simp [Serving.start] at eq

/-- An entry of a longer history stands in the old part or in the new one. -/
theorem split_append {old new h h' : List Entry} {x : Entry} (eq : old ++ new = h ++ x :: h') :
    (∃ g, old = h ++ x :: g ∧ h' = g ++ new) ∨ ∃ g, h = old ++ g ∧ new = g ++ x :: h' := by
  rcases List.append_eq_append_iff.mp eq with ⟨g, rfl, later⟩ | ⟨g, rfl, later⟩
  · exact .inr ⟨g, rfl, later⟩
  · cases g with
    | nil => exact .inr ⟨[], by simp, later.symm⟩
    | cons y g =>
      simp only [List.cons_append, List.cons.injEq] at later
      exact .inl ⟨g, by rw [later.1], later.2⟩

theorem untouched_append {r : Request} {h new : List Entry} (none : Untouched r (h ++ new)) :
    Untouched r h ∧ Untouched r new := by
  obtain ⟨stored, evicted⟩ := none
  exact ⟨⟨fun t body inside => stored t body (List.mem_append_left _ inside),
      fun inside => evicted (List.mem_append_left _ inside)⟩,
    ⟨fun t body inside => stored t body (List.mem_append_right _ inside),
      fun inside => evicted (List.mem_append_right _ inside)⟩⟩

theorem kept_hit {r : Request} {now : Rat} {body : Bytes} (inv : Kept w) (forward : w.clock ≤ now)
    (hit : (w.cache.get r.key now).1 = some body) :
    Kept { w with clock := now, history := w.history ++ [.served now r body] } := by
  obtain ⟨_, t, inside, live⟩ := get_hit hit
  refine ⟨?_, ?_, ?_⟩
  · intro key e member
    obtain ⟨s, r', stored, same, expires, before⟩ := inv.entries key e member
    exact ⟨s, r', List.mem_append_left _ stored, same, expires, before.trans forward⟩
  · intro h t' r' body' h' eq
    rcases split_append eq with ⟨g, old, _⟩ | ⟨g, rfl, last⟩
    · exact inv.served h t' r' body' g old
    · cases g with
      | nil =>
        simp only [List.nil_append, List.cons.injEq, Entry.served.injEq] at last
        obtain ⟨⟨rfl, rfl, rfl⟩, _⟩ := last
        obtain ⟨s, r', stored, same, expires, before⟩ := inv.entries _ _ inside
        obtain rfl := key_injective same
        simp only at expires
        exact ⟨s, by simpa using stored, by linarith, by linarith⟩
      | cons y g => simp at last
  · intro h s r' body' h' eq none
    rcases split_append eq with ⟨g, old, rfl⟩ | ⟨g, rfl, last⟩
    · rcases inv.stored h s r' body' g old (untouched_append none).1 with expired | still
      · exact .inl (expired.trans forward)
      · exact .inr still
    · cases g with
      | nil => simp at last
      | cons y g => simp at last

theorem kept_miss {r : Request} {now : Rat} (inv : Kept w) (forward : w.clock ≤ now) :
    Kept { w with cache := (w.cache.get r.key now).2, clock := now, pending := w.pending ++ [r] } := by
  refine ⟨?_, inv.served, ?_⟩
  · intro key e member
    obtain ⟨s, r', stored, same, expires, before⟩ := inv.entries key e (get_sub member)
    exact ⟨s, r', stored, same, expires, before.trans forward⟩
  · intro h s r' body h' eq none
    rcases inv.stored h s r' body h' eq none with expired | still
    · exact .inl (expired.trans forward)
    · by_cases lost : (r'.key, Cached.mk (s + cfg.ttl r') body) ∈ (w.cache.get r.key now).2.entries
      · exact .inr lost
      · exact .inl (get_lost still lost).2

theorem kept_store {r : Request} {now later : Rat} {body : Bytes} (rest : List Request)
    {cache : InMemoryTTLCache cfg.alertsCacheMaxEntries} (inv : Kept w) (forward : w.clock ≤ now)
    (onward : now ≤ later)
    (set : w.cache.set cfg.entries_pos r.key body (cfg.ttl r) now later = some cache) :
    Kept { cache := cache, clock := later, pending := rest,
           history := w.history ++ (evictions r.key now w.cache cache ++ [.stored later r body]) } := by
  have evicted : ∀ x ∈ evictions r.key now w.cache cache, ∃ key, x = .evicted key := by
    intro x member
    obtain ⟨e, _, rfl⟩ := List.mem_map.mp member
    exact ⟨e.1, rfl⟩
  refine ⟨?_, ?_, ?_⟩
  · intro key e member
    rcases (set_mem set).mp member with new | ⟨_, old⟩
    · cases new
      exact ⟨later, r, by simp, rfl, rfl, le_refl _⟩
    · obtain ⟨s, r', stored, same, expires, before⟩ := inv.entries key e (roomFor_sub old)
      exact ⟨s, r', List.mem_append_left _ stored, same, expires,
        before.trans (forward.trans onward)⟩
  · intro h t r' body' h' eq
    rcases split_append eq with ⟨g, old, _⟩ | ⟨g, rfl, last⟩
    · exact inv.served h t r' body' g old
    · have inside : Entry.served t r' body' ∈ evictions r.key now w.cache cache ++
          [.stored later r body] := by simp [last]
      rcases List.mem_append.mp inside with one | one
      · obtain ⟨key, wrong⟩ := evicted _ one
        cases wrong
      · simp at one
  · intro h s r' body' h' eq none
    rcases split_append eq with ⟨g, old, rfl⟩ | ⟨g, rfl, last⟩
    · obtain ⟨before, stored, gone⟩ := untouched_append none
      have other : r'.key ≠ r.key := by
        intro same
        exact stored later body (by simp [key_injective same])
      rcases inv.stored h s r' body' g old before with expired | still
      · exact .inl (expired.trans (forward.trans onward))
      · by_cases left : (r'.key, Cached.mk (s + cfg.ttl r') body') ∈ cache.entries
        · exact .inr left
        · left
          by_contra live
          have live : now < s + (cfg.ttl r' : Rat) := onward.trans_lt (not_le.mp live)
          refine gone (List.mem_append_left _ (List.mem_map.mpr
            ⟨(r'.key, Cached.mk (s + cfg.ttl r') body'), ?_, rfl⟩))
          simpa using ⟨still, other, live, left⟩
    · -- the new entry is the last of the history
      rcases List.eq_nil_or_concat h' with rfl | ⟨front, y, rfl⟩
      · have ends : [Entry.stored later r body] = _ := (List.append_inj' last rfl).2
        simp only [List.cons.injEq, Entry.stored.injEq, and_true] at ends
        obtain ⟨rfl, rfl, rfl⟩ := ends
        exact .inr ((set_mem set).mpr (.inl rfl))
      · have inside : Entry.stored s r' body' ∈ evictions r.key now w.cache cache := by
          rw [List.concat_eq_append, ← List.cons_append, ← List.append_assoc] at last
          rw [(List.append_inj' last rfl).1]
          simp
        obtain ⟨key, wrong⟩ := evicted _ inside
        cases wrong

theorem kept_step {e : Event} (inv : Kept w) (taken : step cfg w e = some w') : Kept w' := by
  cases e with
  | request r now =>
    simp only [step] at taken
    split at taken
    · rename_i forward
      cases got : w.cache.get r.key now with
      | mk found cache =>
        cases found with
        | some body =>
          simp only [got, Option.some.injEq] at taken
          have hit : (w.cache.get r.key now).1 = some body := by rw [got]
          have same := (get_hit hit).1
          rw [got] at same
          simp only at same
          subst taken same
          exact kept_hit inv forward hit
        | none =>
          simp only [got, Option.some.injEq] at taken
          have missed := kept_miss (r := r) inv forward
          rw [got] at missed
          exact taken ▸ missed
    · cases taken
  | finish i body now later =>
    simp only [step] at taken
    split at taken
    · cases taken
    · split at taken
      · rename_i r _ clock
        cases set : w.cache.set cfg.entries_pos r.key body (cfg.ttl r) now later with
        | none => simp [set] at taken
        | some cache =>
          simp only [set, Option.some.injEq] at taken
          subst taken
          exact kept_store _ inv clock.1 clock.2 set
      · cases taken
  | fail i =>
    simp only [step] at taken
    split at taken
    · cases taken
      exact ⟨inv.entries, inv.served, inv.stored⟩
    · cases taken

def Event.now : Event → Option Rat
  | .request _ now => some now
  | .finish _ _ now _ => some now
  | .fail _ => none

/-- An entry that a step removes while it is live is overwritten, or evicted by a new key that
    finds the cache full of live entries, and then none expires earlier. -/
def EvictsOnly (w : Serving cfg) : Prop :=
  ∀ e w', step cfg w e = some w' → ∀ x ∈ w.cache.entries, x ∉ w'.cache.entries →
    (∀ now ∈ e.now, now < x.2.expiresAt) → ∃ i body now later r, e = .finish i body now later ∧
      w.pending[i]? = some r ∧ (x.1 = r.key ∨
        r.key ∉ keys w.cache.entries ∧ w.cache.entries.length = cfg.alertsCacheMaxEntries ∧
        (∀ y ∈ w.cache.entries, now < y.2.expiresAt) ∧
        ∀ y ∈ w.cache.entries, x.2.expiresAt ≤ y.2.expiresAt)

theorem evicts_only (w : Serving cfg) : EvictsOnly w := by
  intro e w' taken x member lost live
  cases e with
  | request r now =>
    exfalso
    simp only [step] at taken
    split at taken
    · have gone : x ∉ (w.cache.get r.key now).2.entries := by
        cases got : w.cache.get r.key now with
        | mk found cache =>
          cases found with
          | none =>
            simp only [got, Option.some.injEq] at taken
            subst taken
            exact lost
          | some body =>
            simp only [got, Option.some.injEq] at taken
            subst taken
            exact lost
      exact absurd (get_lost member gone).2 (not_le.mpr (live now rfl))
    · cases taken
  | finish i body now later =>
    simp only [step] at taken
    split at taken
    · cases taken
    · rename_i r waiting
      split at taken
      · cases set : w.cache.set cfg.entries_pos r.key body (cfg.ttl r) now later with
        | none => simp [set] at taken
        | some cache =>
          simp only [set, Option.some.injEq] at taken
          subst taken
          refine ⟨i, body, now, later, r, rfl, waiting, ?_⟩
          by_cases same : x.1 = r.key
          · exact .inl same
          · rcases set_lost set member same lost with expired | full
            · exact absurd expired (not_le.mpr (live now rfl))
            · exact .inr full
      · cases taken
  | fail i =>
    exfalso
    simp only [step] at taken
    split at taken
    · cases taken
      exact lost member
    · cases taken

structure Sound (w : Serving cfg) : Prop where
  bounded : w.cache.entries.length ≤ cfg.alertsCacheMaxEntries
  served : ∀ h (t : Rat) r body h', w.history = h ++ .served t r body :: h' →
    ∃ s : Rat, .stored s r body ∈ h ∧ t - cfg.ttl r < s ∧ s ≤ t
  readable : ∀ h (s : Rat) r body h', w.history = h ++ .stored s r body :: h' → Untouched r h' →
    ∀ t : Rat, w.clock ≤ t → t < s + cfg.ttl r → (w.cache.get r.key t).1 = some body
  failed : ∀ i w', step cfg w (.fail i) = some w' → w'.cache = w.cache ∧ w'.history = w.history
  evicts : EvictsOnly w

theorem cached_reads_sound {clock : Rat}
    (reached : Reach (step cfg) anyStep (Serving.start cfg clock) w) :
    Sound w ∧ ∀ r r' : Request, r.key = r'.key → r = r' := by
  have inv : Kept w :=
    reach_invariant Kept (kept_start cfg clock) (fun _ _ _ inv _ taken => kept_step inv taken) reached
  refine ⟨⟨w.cache.bounded, inv.served, ?_, ?_, evicts_only w⟩, fun _ _ => key_injective⟩
  · intro h s r body h' eq none t later live
    rcases inv.stored h s r body h' eq none with expired | still
    · exact absurd (expired.trans later) (not_le.mpr live)
    · exact get_live still live
  · intro i w' taken
    simp only [step] at taken
    split at taken
    · cases taken
      exact ⟨rfl, rfl⟩
    · cases taken

def oneEntry : CacheConfig := ⟨1, 15, 60, Nat.one_pos, by decide, by decide⟩

def statsRequest : Request := .stats ⟨str "/api/v1/stats", by decide⟩

def firstPage : Request :=
  .list ⟨str "/api/v1/alerts", by decide⟩
    ⟨1, 25, none, some .bruteForce, none, some true, by decide, by decide, by simp⟩

/-- The statistics are stored and served; the list then takes the only place. -/
theorem cached_reads_sound_session :
    ∃ w : Serving oneEntry, Reach (step oneEntry) anyStep (Serving.start oneEntry 0) w ∧
      w.history.length = 4 ∧ keys w.cache.entries =
        [str "/api/v1/alerts?category=brute_force&escalate=true&page=1&page_size=25"] ∧ Sound w := by
  have some : (run (step oneEntry) (Serving.start oneEntry 0)
      [.request statsRequest 1, .finish 0 [0x7B, 0x7D] 2 2, .request statsRequest 3,
        .request firstPage 4, .fail 0, .request firstPage 5, .finish 0 [0x5B, 0x5D] 6 6]).map
      (fun w => (w.history.length, keys w.cache.entries)) =
        some (4, [str "/api/v1/alerts?category=brute_force&escalate=true&page=1&page_size=25"]) := by
    decide +kernel
  obtain ⟨w, taken, eq⟩ := Option.map_eq_some_iff.mp some
  simp only [Prod.mk.injEq] at eq
  have reached := run_reaches Reach.start taken
  exact ⟨w, reached, eq.1, eq.2, (cached_reads_sound reached).1⟩

end ApiCachedReads
