import SentinelBrief.Api.CachedReads
import SentinelBrief.Library.FormUrlEncoded
import SentinelBrief.Library.JsNumber

/-!
The list query of the alerts page: read from the URL's search parameters, with defaults for
what is invalid, and printed into the URL of a page and of the request to the api.
-/
namespace WebAlertsQuery
open Utf8Text Utf16Text JsNumberText DoubleText FormUrlEncoded OrderedDictionary

inductive ParamValue where
  | text : JsStr → ParamValue
  | list : List JsStr → ParamValue
  deriving DecidableEq

/-- `Record<string, string | string[] | undefined>`. -/
abbrev SearchParams := JsStr → Option ParamValue

inductive Key where
  | page
  | pageSize
  | severityGte
  | category
  | since
  | escalate
  deriving DecidableEq

def Key.text : Key → JsStr
  | .page => js "page"
  | .pageSize => js "page_size"
  | .severityGte => js "severity_gte"
  | .category => js "category"
  | .since => js "since"
  | .escalate => js "escalate"

/-- Its numbers are safe integers. -/
@[ext]
structure ListQuery where
  page : Int
  pageSize : Int
  severityGte : Option Int
  category : Option JsStr
  since : Option JsStr
  escalate : Option Bool
  deriving DecidableEq

inductive Value where
  | number : Int → Value
  | string : JsStr → Value
  | boolean : Bool → Value

def Value.text : Value → JsStr
  | .number i => numberText i
  | .string s => s
  | .boolean b => if b then js "true" else js "false"

def ListQuery.value (q : ListQuery) : Key → Option Value
  | .page => some (.number q.page)
  | .pageSize => some (.number q.pageSize)
  | .severityGte => q.severityGte.map .number
  | .category => q.category.map .string
  | .since => q.since.map .string
  | .escalate => q.escalate.map .boolean

def defaultPageSize : Int := 25

def first : Option ParamValue → Option JsStr
  | some (.list values) => values.head?
  | some (.text value) => some value
  | none => none

def parseListQuery (sp : SearchParams) : ListQuery :=
  let parsedPage := (first (sp Key.page.text)).elim .nan number
  let parsedPageSize := (first (sp Key.pageSize.text)).elim .nan number
  { page := ((safeInteger parsedPage).filter fun i => 1 ≤ i).getD 1
    pageSize := (safeInteger parsedPageSize).elim defaultPageSize fun i => min 100 (max 1 i)
    severityGte := (first (sp Key.severityGte.text)).bind fun raw =>
      (integral (parseInt10 raw)).filter fun i => 1 ≤ i ∧ i ≤ 5
    category := (first (sp Key.category.text)).filter fun raw => raw ≠ []
    since := (first (sp Key.since.text)).filter fun raw => raw ≠ []
    escalate := (first (sp Key.escalate.text)).bind fun raw =>
      if raw = js "true" then some true else if raw = js "false" then some false else none }

def keys : List Key := [.page, .pageSize, .severityGte, .category, .since, .escalate]

/-- `Object.entries(q)`, without what is undefined. -/
def entries (q : ListQuery) : List (JsStr × JsStr) :=
  keys.filterMap fun key => (q.value key).map fun value => (key.text, value.text)

def sortEntries (es : List (JsStr × JsStr)) : List (JsStr × JsStr) := es.insertionSort fun a b => a.1 ≤ b.1

def scalarPair (e : JsStr × JsStr) : PyStr × PyStr := (scalars e.1, scalars e.2)

def toQueryString (q : ListQuery) : JsStr :=
  let params := ((sortEntries (entries q)).map scalarPair).foldl (fun ps p => setPair p.1 p.2 ps) []
  (serialize params).map UInt8.toUInt16

def pageHref (q : ListQuery) (page : Int) : JsStr := js "/alerts?" ++ toQueryString { q with page }

def decodePairs (s : JsStr) : List (JsStr × JsStr) :=
  (parse ((scalars s).flatMap encodePoint)).map fun p => (units p.1, units p.2)

/-- The search parameters as the page is given them: a repeated name has the list of its values. -/
def record (pairs : List (JsStr × JsStr)) : SearchParams := fun key =>
  match (pairs.filter fun p => p.1 = key).map (·.2) with
  | [] => none
  | [value] => some (.text value)
  | values => some (.list values)

def decodeQuery (s : JsStr) : SearchParams := record (decodePairs s)

/-- The query of a relative URL: what stands after the first `?` and before a `#`. -/
def searchOf (href : JsStr) : JsStr := ((href.dropWhile (· ≠ 0x3F)).drop 1).takeWhile (· ≠ 0x23)

def reparse (q : ListQuery) : ListQuery := parseListQuery (decodeQuery (toQueryString q))

def ListQuery.wellFormed (q : ListQuery) : ListQuery :=
  { q with category := q.category.map toWellFormed, since := q.since.map toWellFormed }

def ListQuery.WellFormed (q : ListQuery) : Prop :=
  (∀ s ∈ q.category, isWellFormed s = true) ∧ ∀ s ∈ q.since, isWellFormed s = true

instance (q : ListQuery) : Decidable q.WellFormed := inferInstanceAs (Decidable (_ ∧ _))

structure Normal (q : ListQuery) : Prop where
  page : 1 ≤ q.page ∧ q.page ≤ maxSafeInteger
  pageSize : 1 ≤ q.pageSize ∧ q.pageSize ≤ 100
  severityGte : ∀ i ∈ q.severityGte, 1 ≤ i ∧ i ≤ 5
  category : q.category ≠ some []
  since : q.since ≠ some []

theorem normal_parseListQuery (sp : SearchParams) : Normal (parseListQuery sp) where
  page := by
    unfold parseListQuery
    dsimp only
    cases found : (safeInteger ((first (sp Key.page.text)).elim .nan number)).filter fun i => 1 ≤ i with
    | none => decide
    | some i =>
      obtain ⟨safe, positive⟩ := Option.filter_eq_some_iff.mp found
      have range := safeInteger_range safe
      have low : 1 ≤ i := by simpa using positive
      rw [Option.getD_some]
      omega
  pageSize := by
    unfold parseListQuery
    dsimp only
    cases safeInteger ((first (sp Key.pageSize.text)).elim .nan number) with
    | none => decide
    | some i =>
      rw [Option.elim_some]
      omega
  severityGte i member := by
    obtain ⟨raw, _, kept⟩ := Option.bind_eq_some_iff.mp member
    simpa using (Option.filter_eq_some_iff.mp kept).2
  category member := by simpa using (Option.filter_eq_some_iff.mp member).2
  since member := by simpa using (Option.filter_eq_some_iff.mp member).2

theorem wellFormed_eq {q : ListQuery} (formed : q.WellFormed) : q.wellFormed = q := by
  have same {v : Option JsStr} (all : ∀ s ∈ v, isWellFormed s = true) : v.map toWellFormed = v := by
    cases v with
    | none => rfl
    | some s => rw [Option.map_some, toWellFormed_eq (all s rfl)]
  rw [ListQuery.wellFormed, same formed.1, same formed.2]

theorem wellFormed_idem (q : ListQuery) : q.wellFormed.wellFormed = q.wellFormed := by
  simp [ListQuery.wellFormed, Option.map_map, Function.comp_def, toWellFormed_idem]

theorem normal_wellFormed {q : ListQuery} (normal : Normal q) : Normal q.wellFormed where
  page := normal.page
  pageSize := normal.pageSize
  severityGte := normal.severityGte
  category empty := by
    obtain ⟨s, some, none⟩ := Option.map_eq_some_iff.mp empty
    exact toWellFormed_some (fun nil => normal.category (nil ▸ some)) none
  since empty := by
    obtain ⟨s, some, none⟩ := Option.map_eq_some_iff.mp empty
    exact toWellFormed_some (fun nil => normal.since (nil ▸ some)) none

theorem key_texts : (keys.map fun key => scalars key.text).Nodup ∧ ∀ key, key ∈ keys ∧ toWellFormed key.text = key.text := by
  refine ⟨by decide, fun key => ?_⟩
  cases key <;> decide

theorem entries_distinct (q : ListQuery) : ((entries q).map fun e => scalars e.1).Nodup := by
  have sub : ((entries q).map fun e => scalars e.1).Sublist (keys.map fun key => scalars key.text) := by
    unfold entries
    induction keys with
    | nil => exact List.Sublist.slnil
    | cons key rest ih =>
      rw [List.filterMap_cons, List.map_cons]
      cases q.value key with
      | none => exact ih.cons _
      | some value => exact ih.cons_cons _
  exact sub.nodup key_texts.1

theorem mem_entries {q : ListQuery} {key : Key} {s : JsStr} :
    (key.text, s) ∈ entries q ↔ ∃ value, q.value key = some value ∧ value.text = s := by
  have injective : ∀ a ∈ keys, ∀ b ∈ keys, scalars a.text = scalars b.text → a = b :=
    fun a left b right => List.inj_on_of_nodup_map key_texts.1 left right
  simp only [entries, List.mem_filterMap, Option.map_eq_some_iff, Prod.mk.injEq]
  constructor
  · rintro ⟨other, member, value, found, same, text⟩
    obtain rfl := injective other member key (key_texts.2 key).1 (by rw [same])
    exact ⟨value, found, text⟩
  · rintro ⟨value, found, text⟩
    exact ⟨key, (key_texts.2 key).1, value, found, rfl, text⟩

theorem first_record (pairs : List (JsStr × JsStr)) (key : JsStr) : first (record pairs key) = lookup key pairs := by
  have head : first (record pairs key) = ((pairs.filter fun p => p.1 = key).map (·.2)).head? := by
    unfold record
    split
    · rename_i none
      rw [none]
      rfl
    · rename_i one
      rw [one]
      rfl
    · rfl
  rw [head, lookup, List.head?_map, List.head?_filter]

theorem sorted_perm (q : ListQuery) : List.Perm (sortEntries (entries q)) (entries q) :=
  List.perm_insertionSort _ _

theorem toQueryString_eq (q : ListQuery) :
    toQueryString q = (serialize ((sortEntries (entries q)).map scalarPair)).map UInt8.toUInt16 := by
  have distinct : (([] ++ (sortEntries (entries q)).map scalarPair).map Prod.fst).Nodup := by
    rw [List.nil_append, List.map_map]
    exact ((sorted_perm q).map fun e => scalars e.1).nodup_iff.mpr (entries_distinct q)
  unfold toQueryString
  rw [foldl_setPair distinct, List.nil_append]

theorem toQueryString_units {q : ListQuery} {u : UInt16} (member : u ∈ toQueryString q) :
    u.toNat < 0x80 ∧ u ≠ 0x23 := by
  rw [toQueryString_eq] at member
  obtain ⟨c, inside, rfl⟩ := List.mem_map.mp member
  have octets : ∀ c : UInt8, (plain c.toNat = true ∨ c = 0x2B ∨ c = 0x25 ∨ c = 0x26 ∨ c = 0x3D) →
      c.toUInt16.toNat < 0x80 ∧ c.toUInt16 ≠ 0x23 := by
    intro c kind
    constructor
    · rw [UInt8.toNat_toUInt16]
      rcases kind with kept | rfl | rfl | rfl | rfl
      · simp only [plain, Bool.or_eq_true, Bool.and_eq_true, decide_eq_true_eq, beq_iff_eq] at kept
        omega
      all_goals decide
    · intro hash
      have value : c.toNat = 0x23 := by
        rw [← UInt8.toNat_toUInt16, hash]
        rfl
      rcases kind with kept | rfl | rfl | rfl | rfl
      · rw [value] at kept
        exact absurd kept (by decide)
      all_goals exact absurd value (by decide)
  exact octets c (serialize_octets inside)

theorem decodePairs_toQueryString (q : ListQuery) :
    decodePairs (toQueryString q) =
      (sortEntries (entries q)).map fun e => (toWellFormed e.1, toWellFormed e.2) := by
  have plain : ∀ u ∈ toQueryString q, ¬SurrogateUnit u := by
    intro u member
    have ascii := (toQueryString_units member).1
    unfold SurrogateUnit
    omega
  have octets : (scalars (toQueryString q)).flatMap encodePoint =
      serialize ((sortEntries (entries q)).map scalarPair) := by
    rw [scalars_map plain, List.flatMap_map]
    have each : ∀ u ∈ toQueryString q, encodePoint u.toNat = [u.toUInt8] := by
      intro u member
      rw [encodePoint, if_pos (toQueryString_units member).1]
      rfl
    rw [List.flatMap_congr each, ← List.map_eq_flatMap, toQueryString_eq, List.map_map]
    exact (List.map_congr_left fun c _ => UInt8.toUInt8_toUInt16 c).trans (List.map_id _)
  rw [decodePairs, octets, parse_serialize, List.map_map]
  · rfl
  · intro p member
    obtain ⟨e, _, rfl⟩ := List.mem_map.mp member
    exact ⟨encodes_scalars e.1, encodes_scalars e.2⟩

theorem entry_key {q : ListQuery} {e : JsStr × JsStr} (member : e ∈ entries q) :
    ∃ key : Key, e.1 = key.text := by
  obtain ⟨key, _, found⟩ := List.mem_filterMap.mp member
  obtain ⟨value, _, rfl⟩ := Option.map_eq_some_iff.mp found
  exact ⟨key, rfl⟩

theorem decodePairs_distinct (q : ListQuery) : Distinct (decodePairs (toQueryString q)) := by
  have same : (OrderedDictionary.keys (decodePairs (toQueryString q))).map scalars =
      (sortEntries (entries q)).map fun e => scalars e.1 := by
    rw [decodePairs_toQueryString, OrderedDictionary.keys, List.map_map, List.map_map]
    exact List.map_congr_left fun e _ => scalars_units (encodes_scalars e.1)
  refine List.Nodup.of_map scalars ?_
  rw [same]
  exact ((sorted_perm q).map fun e => scalars e.1).nodup_iff.mpr (entries_distinct q)

theorem mem_decodePairs {q : ListQuery} {key : Key} {s : JsStr} :
    (key.text, s) ∈ decodePairs (toQueryString q) ↔
      ∃ value, q.value key = some value ∧ toWellFormed value.text = s := by
  simp only [decodePairs_toQueryString, List.mem_map, (sorted_perm q).mem_iff]
  constructor
  · rintro ⟨e, member, same⟩
    obtain ⟨other, name⟩ := entry_key member
    obtain ⟨left, right⟩ := Prod.mk.inj same
    rw [name, (key_texts.2 other).2] at left
    rw [← Prod.eta e, name, left] at member
    obtain ⟨value, found, text⟩ := mem_entries.mp member
    exact ⟨value, found, by rw [text, right]⟩
  · rintro ⟨value, found, rfl⟩
    exact ⟨(key.text, value.text), mem_entries.mpr ⟨value, found, rfl⟩, by rw [(key_texts.2 key).2]⟩

theorem first_decodeQuery (q : ListQuery) (key : Key) :
    first (decodeQuery (toQueryString q) key.text) =
      (q.value key).map fun value => toWellFormed value.text := by
  rw [decodeQuery, first_record]
  cases found : q.value key with
  | some value => exact (lookup_eq_some (decodePairs_distinct q)).mpr (mem_decodePairs.mpr ⟨value, found, rfl⟩)
  | none =>
    refine lookup_eq_none.mpr fun member => ?_
    obtain ⟨⟨name, s⟩, inside, rfl⟩ := List.mem_map.mp member
    obtain ⟨value, other, _⟩ := mem_decodePairs.mp inside
    rw [found] at other
    cases other

theorem toWellFormed_numberText (n : Nat) : toWellFormed (numberText n) = numberText n := by
  refine toWellFormed_eq (isWellFormed_plain fun u member => ?_)
  have digit : u.toNat ∈ JsonText.digitsText n := by
    rw [← numberText_units]
    exact List.mem_map_of_mem member
  have bounds := JsonText.digitsText_digits n _ digit
  simp only [JsonText.isDigit, Bool.and_eq_true, decide_eq_true_eq] at bounds
  unfold SurrogateUnit
  omega

section
variable {q : ListQuery} (normal : Normal q)
include normal

theorem page_reparse : (reparse q).page = q.page := by
  obtain ⟨n, page⟩ := Int.eq_ofNat_of_zero_le (show 0 ≤ q.page by have := normal.page; omega)
  have bounds := normal.page
  have field := first_decodeQuery q .page
  simp only [ListQuery.value, Option.map_some, Value.text, page, toWellFormed_numberText] at field
  have positive : 0 < n := by omega
  have whole : safeInteger (number (numberText n)) = some (n : Int) := by
    rw [number_numberText positive, safeInteger_integer positive (by omega)]
  have kept : ((some (n : Int)).filter fun i => 1 ≤ i) = some (n : Int) := by
    rw [Option.filter_some, if_pos (by simp; omega)]
  unfold reparse parseListQuery
  dsimp only
  rw [field, Option.elim_some, whole, kept, page]
  rfl

theorem pageSize_reparse : (reparse q).pageSize = q.pageSize := by
  obtain ⟨n, size⟩ := Int.eq_ofNat_of_zero_le (show 0 ≤ q.pageSize by have := normal.pageSize; omega)
  have bounds := normal.pageSize
  have field := first_decodeQuery q .pageSize
  simp only [ListQuery.value, Option.map_some, Value.text, size, toWellFormed_numberText] at field
  have positive : 0 < n := by omega
  have whole : safeInteger (number (numberText n)) = some (n : Int) := by
    rw [number_numberText positive, safeInteger_integer positive (by unfold maxSafeInteger; omega)]
  unfold reparse parseListQuery
  dsimp only
  rw [field, Option.elim_some, whole, Option.elim_some, size]
  omega

theorem severityGte_reparse : (reparse q).severityGte = q.severityGte := by
  have field := first_decodeQuery q .severityGte
  unfold reparse parseListQuery
  dsimp only
  rw [field]
  cases found : q.severityGte with
  | none => simp [ListQuery.value, found]
  | some i =>
    have bounds := normal.severityGte i found
    obtain ⟨n, rfl⟩ := Int.eq_ofNat_of_zero_le (show 0 ≤ i by omega)
    have positive : 0 < n := by omega
    simp only [ListQuery.value, found, Option.map_some, Value.text, toWellFormed_numberText]
    rw [Option.bind_some, parseInt10_numberText, integral_integer positive (by omega), Option.filter_some,
      if_pos (by simpa using bounds)]

theorem reparse_normal : reparse q = q.wellFormed := by
  have formed {s : JsStr} {v : Option JsStr} (found : v = some s) (full : v ≠ some []) :
      ((some (toWellFormed s)).filter fun raw => raw ≠ []) = some (toWellFormed s) := by
    have some : toWellFormed s ≠ [] := toWellFormed_some fun nil => full (nil ▸ found)
    rw [Option.filter_some, if_pos (by simpa using some)]
  have category : (reparse q).category = q.category.map toWellFormed := by
    have field := first_decodeQuery q .category
    unfold reparse parseListQuery
    dsimp only
    rw [field]
    cases found : q.category with
    | none => simp [ListQuery.value, found]
    | some s =>
      simp only [ListQuery.value, found, Option.map_some, Value.text]
      exact formed found normal.category
  have since : (reparse q).since = q.since.map toWellFormed := by
    have field := first_decodeQuery q .since
    unfold reparse parseListQuery
    dsimp only
    rw [field]
    cases found : q.since with
    | none => simp [ListQuery.value, found]
    | some s =>
      simp only [ListQuery.value, found, Option.map_some, Value.text]
      exact formed found normal.since
  have escalate : (reparse q).escalate = q.escalate := by
    have field := first_decodeQuery q .escalate
    unfold reparse parseListQuery
    dsimp only
    rw [field]
    cases found : q.escalate with
    | none => simp [ListQuery.value, found]
    | some b =>
      simp only [ListQuery.value, found, Option.map_some, Value.text]
      cases b <;> decide
  exact ListQuery.ext (page_reparse normal) (pageSize_reparse normal) (severityGte_reparse normal) category
    since escalate

end

theorem searchOf_pageHref (q : ListQuery) (page : Int) :
    searchOf (pageHref q page) = toQueryString { q with page } := by
  have path : js "/alerts?" = js "/alerts" ++ [0x3F] := by decide
  have marks : (js "/alerts").all (· ≠ 0x3F) = true := by decide
  have before : ∀ u ∈ js "/alerts", decide (u ≠ 0x3F) = true := List.all_eq_true.mp marks
  have kept : ∀ u ∈ toQueryString { q with page }, decide (u ≠ 0x23) = true :=
    fun u member => decide_eq_true (toQueryString_units member).2
  rw [searchOf, pageHref, path, List.append_assoc, List.dropWhile_append_of_pos before]
  exact List.takeWhile_eq_self_iff.mpr kept

theorem normal_accepted {q : ListQuery} (normal : Normal q) :
    ∃ accepted : ApiCachedReads.ListQuery, (accepted.page : Int) = q.page ∧
      (accepted.pageSize : Int) = q.pageSize ∧ accepted.severityGte.map Int.ofNat = q.severityGte := by
  obtain ⟨page_low, _⟩ := normal.page
  obtain ⟨size_low, size_high⟩ := normal.pageSize
  have severity : ∀ s ∈ q.severityGte.map Int.toNat, 1 ≤ s ∧ s ≤ 5 := by
    intro s member
    obtain ⟨i, found, rfl⟩ := Option.map_eq_some_iff.mp member
    have bounds := normal.severityGte i found
    omega
  have same : (q.severityGte.map Int.toNat).map Int.ofNat = q.severityGte := by
    cases found : q.severityGte with
    | none => rfl
    | some i =>
      have bounds := normal.severityGte i found
      exact congrArg some (Int.toNat_of_nonneg (by omega))
  exact ⟨⟨q.page.toNat, q.pageSize.toNat, q.severityGte.map Int.toNat, none, none, q.escalate, by omega,
    by omega, severity⟩, Int.toNat_of_nonneg (by omega), Int.toNat_of_nonneg (by omega), same⟩

theorem list_query_round_trip (sp : SearchParams) :
    let q := parseListQuery sp
    (q.WellFormed → reparse q = q) ∧
      reparse (reparse q) = reparse q ∧
      (q.WellFormed → ∀ k : Int, 1 ≤ k → k ≤ maxSafeInteger →
        parseListQuery (decodeQuery (searchOf (pageHref q k))) = { q with page := k }) ∧
      ∃ accepted : ApiCachedReads.ListQuery, (accepted.page : Int) = q.page ∧
        (accepted.pageSize : Int) = q.pageSize ∧ accepted.severityGte.map Int.ofNat = q.severityGte := by
  intro q
  have normal : Normal q := normal_parseListQuery sp
  refine ⟨fun formed => ?_, ?_, fun formed k low high => ?_, normal_accepted normal⟩
  · rw [reparse_normal normal, wellFormed_eq formed]
  · rw [reparse_normal normal, reparse_normal (normal_wellFormed normal), wellFormed_idem]
  · have moved : Normal { q with page := k } := { normal with page := ⟨low, high⟩ }
    have formed : ListQuery.WellFormed { q with page := k } := formed
    rw [searchOf_pageHref]
    exact (reparse_normal moved).trans (wellFormed_eq formed)

/-- Every filter stays when a link leads to the third page. -/
theorem list_query_round_trip_filters :
    let q := parseListQuery (decodeQuery (js "page=0x2&page_size=500&category=a%26b&category=c&escalate=true"))
    parseListQuery (decodeQuery (searchOf (pageHref q 3))) = ⟨3, 100, none, some (js "a&b"), none, some true⟩ :=
  ((list_query_round_trip _).2.2.1 (by decide) 3 (by decide) (by decide)).trans (by decide)

end WebAlertsQuery
