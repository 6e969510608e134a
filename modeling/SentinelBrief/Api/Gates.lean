import Mathlib.Data.List.TakeWhile
import SentinelBrief.Library.PyInt

/-!
The gates of the signed and the admin routes (`api/deps.py`, `core/signing.py`).
Starlette decodes a header as Latin-1. `hmac` is HMAC-SHA256 on bytes.
-/
namespace ApiGates
open Utf8Text JsonText PyIntText

inductive Raised where
  | lengthRequired (message : PyStr)
  | payloadTooLarge (message : PyStr)
  | signature (message : PyStr)
  | valueError
  | typeError
  | unicodeEncodeError
  deriving DecidableEq, Repr

structure Settings where
  ingestMaxBodyBytes : Int
  ingestHmacSecret : PyStr
  adminToken : PyStr
  max_pos : 1 ≤ ingestMaxBodyBytes

structure Request where
  contentLength : Option Bytes
  xSignature : Option Bytes
  authorization : Option Bytes
  body : Bytes

def latin1 (raw : Bytes) : PyStr := raw.map UInt8.toNat

def superscripts : List Nat := [0xB2, 0xB3, 0xB9]

/-- `str.isdigit` of a Latin-1 text. -/
def isdigit (text : PyStr) : Bool :=
  !text.isEmpty && text.all fun c => isDigit c || superscripts.contains c

def isascii (text : PyStr) : Bool := text.all (· < 0x80)

def compareDigest (a b : PyStr) : Except Raised Bool :=
  if isascii a && isascii b then .ok (a == b) else .error .typeError

def hexOctet (b : UInt8) : PyStr := [hexDigit (b.toNat / 16), hexDigit (b.toNat % 16)]

def hexdigest (digest : Bytes) : PyStr := digest.flatMap hexOctet

def signaturePrefix : PyStr := str "sha256="

section
variable (hmac : Bytes → Bytes → Bytes)

/-- `sign_body`; `none` is the `UnicodeEncodeError` of the secret. -/
def signBody (secret : PyStr) (body : Bytes) : Option PyStr :=
  (encode secret).map fun key => signaturePrefix ++ hexdigest (hmac key body)

def verifySignature (secret : PyStr) (body : Bytes) (header : Option PyStr) : Except Raised Bool :=
  match header with
  | none => .ok false
  | some header =>
    if secret.isEmpty || !signaturePrefix.isPrefixOf header then .ok false
    else
      let candidate := header.drop signaturePrefix.length
      if !isascii candidate then .ok false
      else match encode secret with
        | none => .error .unicodeEncodeError
        | some key => compareDigest candidate (hexdigest (hmac key body))

def lengthRequired : Raised := .lengthRequired (str "Content-Length required")

def tooLarge (settings : Settings) : Raised :=
  .payloadTooLarge (str "body exceeds " ++ intText settings.ingestMaxBodyBytes ++ str " bytes")

def requireContentLength (settings : Settings) (req : Request) : Except Raised Unit :=
  match req.contentLength.map latin1 with
  | none => .error lengthRequired
  | some header =>
    if !isdigit header then .error lengthRequired
    else match pyInt header with
      | none => .error .valueError
      | some n => if settings.ingestMaxBodyBytes < n then .error (tooLarge settings) else .ok ()

def badSignature : Raised := .signature (str "missing or invalid signature")

def requireSignature (settings : Settings) (req : Request) : Except Raised Unit :=
  match verifySignature hmac settings.ingestHmacSecret req.body (req.xSignature.map latin1) with
  | .error e => .error e
  | .ok false => .error badSignature
  | .ok true => .ok ()

/-- What `SignedRoute` runs before the original handler. -/
def signedRoute (settings : Settings) (req : Request) : Except Raised Unit :=
  match requireContentLength settings req with
  | .error e => .error e
  | .ok () => requireSignature hmac settings req

end

/-- `text.partition(" ")` without the separator. -/
def partitionSpace (text : PyStr) : PyStr × PyStr :=
  (text.takeWhile (· ≠ 0x20), (text.dropWhile (· ≠ 0x20)).drop 1)

def badToken : Raised := .signature (str "missing or invalid admin token")

def requireAdminToken (settings : Settings) (req : Request) : Except Raised Unit :=
  let configured := settings.adminToken
  let parts := partitionSpace ((req.authorization.map latin1).getD [])
  if configured.isEmpty || parts.1 ≠ str "Bearer" then .error badToken
  else match compareDigest parts.2 configured with
    | .error e => .error e
    | .ok false => .error badToken
    | .ok true => .ok ()

/-- A string of ASCII digits, and the number it denotes. -/
def IsLength (text : PyStr) : Prop := text ≠ [] ∧ ∀ c ∈ text, isDigit c = true

def lengthValue (text : PyStr) : Nat := text.foldl (fun n c => n * 10 + (c - 0x30)) 0

instance (text : PyStr) : Decidable (IsLength text) :=
  inferInstanceAs (Decidable (text ≠ [] ∧ ∀ c ∈ text, isDigit c = true))

def Signed (hmac : Bytes → Bytes → Bytes) (settings : Settings) (req : Request) : Prop :=
  settings.ingestHmacSecret ≠ [] ∧ ∃ signature,
    signBody hmac settings.ingestHmacSecret req.body = some signature ∧
      req.xSignature.map latin1 = some signature

/-- What the documentation of the signed gate says, as a result. -/
inductive SignedGate (hmac : Bytes → Bytes → Bytes) (settings : Settings) (req : Request) :
    Except Raised Unit → Prop where
  | noLength (none : ∀ text, req.contentLength.map latin1 = some text → ¬ IsLength text) :
      SignedGate hmac settings req (.error lengthRequired)
  | tooLarge {text : PyStr} (length : req.contentLength.map latin1 = some text)
      (digits : IsLength text) (above : settings.ingestMaxBodyBytes < lengthValue text) :
      SignedGate hmac settings req (.error (tooLarge settings))
  | unsigned {text : PyStr} (length : req.contentLength.map latin1 = some text)
      (digits : IsLength text) (below : lengthValue text ≤ settings.ingestMaxBodyBytes)
      (unsigned : ¬ Signed hmac settings req) : SignedGate hmac settings req (.error badSignature)
  | through {text : PyStr} (length : req.contentLength.map latin1 = some text)
      (digits : IsLength text) (below : lengthValue text ≤ settings.ingestMaxBodyBytes)
      (signed : Signed hmac settings req) : SignedGate hmac settings req (.ok ())

def Bears (settings : Settings) (req : Request) : Prop :=
  settings.adminToken ≠ [] ∧
    req.authorization.map latin1 = some (str "Bearer " ++ settings.adminToken)

inductive AdminGate (settings : Settings) (req : Request) : Except Raised Unit → Prop where
  | refused (without : ¬ Bears settings req) : AdminGate settings req (.error badToken)
  | through (bears : Bears settings req) : AdminGate settings req (.ok ())

def LengthConverts (req : Request) : Prop :=
  ∀ text, req.contentLength.map latin1 = some text → isdigit text = true →
    IsLength text ∧ text.length ≤ intMaxStrDigits

def SecretEncodes (settings : Settings) (req : Request) : Prop :=
  ∀ text rest, req.contentLength.map latin1 = some text → IsLength text →
    lengthValue text ≤ settings.ingestMaxBodyBytes →
    req.xSignature.map latin1 = some (signaturePrefix ++ rest) → isascii rest = true →
    Encodes settings.ingestHmacSecret

def TokensCompare (settings : Settings) (req : Request) : Prop :=
  ∀ token, settings.adminToken ≠ [] →
    partitionSpace ((req.authorization.map latin1).getD []) = (str "Bearer", token) →
    isascii token = true ∧ isascii settings.adminToken = true

theorem digit_small {c : Nat} (digit : isDigit c = true) : 0x30 ≤ c ∧ c ≤ 0x39 := by
  simpa only [isDigit, Bool.and_eq_true, decide_eq_true_eq] using digit

theorem isdigit_of_length {text : PyStr} (length : IsLength text) : isdigit text = true := by
  obtain ⟨some, digits⟩ := length
  simp only [isdigit, Bool.and_eq_true, List.all_eq_true, Bool.or_eq_true, Bool.not_eq_true',
    List.isEmpty_eq_false_iff]
  exact ⟨some, fun c member => .inl (digits c member)⟩

theorem isdigit_plain {text : PyStr} (digits : isdigit text = true) :
    text ≠ [] ∧ ∀ c ∈ text, (isDigit c = true ∨ c ∈ superscripts) ∧ unicodeSpace c = false ∧
      c ≠ 0x2D ∧ c ≠ 0x2B ∧ c ≠ 0x5F := by
  simp only [isdigit, Bool.and_eq_true, List.all_eq_true, Bool.or_eq_true, Bool.not_eq_true',
    List.isEmpty_eq_false_iff, List.contains_iff_mem] at digits
  refine ⟨digits.1, fun c member => ⟨digits.2 c member, ?_⟩⟩
  rcases digits.2 c member with ascii | raised
  · have small := digit_small ascii
    refine ⟨?_, by omega, by omega, by omega⟩
    simp only [unicodeSpace, asciiSpace, Bool.or_eq_false_iff, Bool.and_eq_false_iff,
      decide_eq_false_iff_not, beq_eq_false_iff_ne]
    omega
  · simp only [superscripts, List.mem_cons, List.not_mem_nil, or_false] at raised
    rcases raised with rfl | rfl | rfl <;> decide

theorem lengthValue_eq (text : PyStr) :
    (text.map fun c => c - 0x30).foldl (fun n d => n * 10 + d) 0 = lengthValue text := by
  rw [lengthValue, List.foldl_map]

theorem pyInt_isdigit {text : PyStr} (digits : isdigit text = true) :
    pyInt text = if IsLength text ∧ text.length ≤ intMaxStrDigits then some (lengthValue text : Int)
      else none := by
  obtain ⟨some, each⟩ := isdigit_plain digits
  rw [pyInt_plain (fun c member => (each c member).2.1)
    (fun c member => ⟨(each c member).2.2.1, (each c member).2.2.2.1⟩)]
  by_cases length : IsLength text
  · rw [groups_ascii length.2 (.inr some)]
    by_cases long : intMaxStrDigits < text.length
    · simp [long, length, Nat.not_le.mpr long]
    · simp only [List.length_map, long, if_false, lengthValue_eq]
      rw [if_pos ⟨length, Nat.not_lt.mp long⟩]
  · obtain ⟨c, member, other⟩ : ∃ c ∈ text, ¬ isDigit c = true := by
      by_contra all
      exact length ⟨some, by simpa using all⟩
    obtain ⟨digit, _, _, _, plain⟩ := each c member
    have raised := digit.resolve_left other
    have none : digitOf c = none := by
      simp only [superscripts, List.mem_cons, List.not_mem_nil, or_false] at raised
      rcases raised with rfl | rfl | rfl <;> decide
    rw [groups_refuses member plain none, if_neg fun both => length both.1]

variable {hmac : Bytes → Bytes → Bytes} {settings : Settings} {req : Request}

theorem requireContentLength_raises (stuck : ¬ LengthConverts req) :
    requireContentLength settings req = .error .valueError := by
  simp only [LengthConverts, not_forall] at stuck
  obtain ⟨text, length, digits, none⟩ := stuck
  rw [requireContentLength, length]
  simp [digits, pyInt_isdigit digits, none]

theorem requireContentLength_eq (settings : Settings) {text : PyStr} (length : req.contentLength.map latin1 = some text)
    (digits : IsLength text) (short : text.length ≤ intMaxStrDigits) :
    requireContentLength settings req =
      if settings.ingestMaxBodyBytes < lengthValue text then .error (tooLarge settings)
      else .ok () := by
  have shown := isdigit_of_length digits
  rw [requireContentLength, length]
  simp [shown, pyInt_isdigit shown, digits, short]

theorem hexdigest_ascii (digest : Bytes) : isascii (hexdigest digest) = true := by
  have digit : ∀ n, n < 16 → hexDigit n < 0x80 := by
    intro n small
    unfold hexDigit
    split <;> omega
  simp only [isascii, List.all_eq_true, decide_eq_true_eq, hexdigest, List.mem_flatMap, hexOctet,
    List.mem_cons, List.not_mem_nil, or_false]
  rintro c ⟨b, _, rfl | rfl⟩
  · have := b.toNat_lt
    exact digit _ (by omega)
  · exact digit _ (Nat.mod_lt _ (by decide))

theorem verifySignature_exact (hmac : Bytes → Bytes → Bytes) (encodes : ∀ rest,
      req.xSignature.map latin1 = some (signaturePrefix ++ rest) → isascii rest = true →
        Encodes settings.ingestHmacSecret) :
    ∃ verified, verifySignature hmac settings.ingestHmacSecret req.body
        (req.xSignature.map latin1) = .ok verified ∧
      (verified = true ↔ Signed hmac settings req) := by
  cases header : req.xSignature.map latin1 with
  | none => exact ⟨false, rfl, by simp [Signed, header]⟩
  | some text =>
    simp only [verifySignature]
    by_cases empty : settings.ingestHmacSecret = []
    · exact ⟨false, by simp [empty], by simp [Signed, empty]⟩
    by_cases starts : signaturePrefix <+: text
    · obtain ⟨rest, rfl⟩ := starts
      have front : signaturePrefix.isPrefixOf (signaturePrefix ++ rest) = true := by simp
      rw [List.drop_left]
      cases ascii : isascii rest with
      | false =>
        refine ⟨false, by simp, by simp, fun signed => ?_⟩
        obtain ⟨_, signature, signs, same⟩ := signed
        obtain ⟨key, _, rfl⟩ := Option.map_eq_some_iff.mp signs
        rw [header, Option.some.injEq, List.append_cancel_left_eq] at same
        rw [same, hexdigest_ascii] at ascii
        cases ascii
      | true =>
        have scalar := encodes rest header ascii
        obtain ⟨key, found⟩ := Option.isSome_iff_exists.mp ((encode_isSome_iff _).mpr scalar)
        refine ⟨rest == hexdigest (hmac key req.body), ?_, ?_⟩
        · simp [empty, front, ascii, found, compareDigest, hexdigest_ascii]
        · simp [Signed, empty, header, signBody, found]
    · have apart : signaturePrefix.isPrefixOf text = false := by
        rw [← Bool.not_eq_true, List.isPrefixOf_iff_prefix]
        exact starts
      refine ⟨false, by simp [apart], by simp, fun signed => ?_⟩
      obtain ⟨_, signature, signs, same⟩ := signed
      obtain ⟨key, _, rfl⟩ := Option.map_eq_some_iff.mp signs
      rw [header, Option.some.injEq] at same
      exact absurd (same ▸ List.prefix_append _ _) starts

theorem signedRoute_length {e : Raised} (failed : requireContentLength settings req = .error e) :
    signedRoute hmac settings req = .error e := by
  simp [signedRoute, failed]

theorem signedRoute_exact (length : LengthConverts req) (secret : SecretEncodes settings req) :
    SignedGate hmac settings req (signedRoute hmac settings req) := by
  by_cases known : ∃ text, req.contentLength.map latin1 = some text ∧ IsLength text
  · obtain ⟨text, header, digits⟩ := known
    have short := (length text header (isdigit_of_length digits)).2
    have checked := requireContentLength_eq settings header digits short
    by_cases above : settings.ingestMaxBodyBytes < lengthValue text
    · rw [if_pos above] at checked
      rw [signedRoute_length checked]
      exact .tooLarge header digits above
    · rw [if_neg above] at checked
      have below := Int.not_lt.mp above
      obtain ⟨verified, outcome, signed⟩ := verifySignature_exact hmac
        fun rest => secret text rest header digits below
      simp only [signedRoute, checked, requireSignature, outcome]
      cases verified with
      | true => exact .through header digits below (signed.mp rfl)
      | false => exact .unsigned header digits below fun yes => nomatch signed.mpr yes
  · have refused : requireContentLength settings req = .error lengthRequired := by
      rw [requireContentLength]
      cases header : req.contentLength.map latin1 with
      | none => rfl
      | some text =>
        have other : isdigit text = false := by
          by_contra digits
          have digits : isdigit text = true := by simpa using digits
          exact known ⟨text, header, (length text header digits).1⟩
        simp [other]
    rw [signedRoute_length refused]
    exact .noLength fun text header digits => known ⟨text, header, digits⟩

theorem signedRoute_encodes (length : LengthConverts req) (secret : ¬ SecretEncodes settings req) :
    signedRoute hmac settings req = .error .unicodeEncodeError := by
  simp only [SecretEncodes, not_forall] at secret
  obtain ⟨text, rest, header, digits, below, signature, ascii, lone⟩ := secret
  have checked := requireContentLength_eq settings header digits
    (length text header (isdigit_of_length digits)).2
  rw [if_neg (Int.not_lt.mpr below)] at checked
  have some : settings.ingestHmacSecret ≠ [] := by
    intro empty
    exact lone (by simp [empty, Encodes])
  have none : encode settings.ingestHmacSecret = none := if_neg lone
  have front : signaturePrefix.isPrefixOf (signaturePrefix ++ rest) = true := by simp
  simp [signedRoute, checked, requireSignature, verifySignature, signature, some, front, ascii, none]

theorem signedGate_iff : SignedGate hmac settings req (signedRoute hmac settings req) ↔
    LengthConverts req ∧ SecretEncodes settings req := by
  constructor
  · intro gate
    by_cases length : LengthConverts req
    · refine ⟨length, ?_⟩
      by_contra secret
      rw [signedRoute_encodes length secret] at gate
      generalize result : Except.error Raised.unicodeEncodeError = r at gate
      cases gate <;> cases result
    · rw [signedRoute_length (requireContentLength_raises length)] at gate
      generalize result : Except.error Raised.valueError = r at gate
      cases gate <;> cases result
  · exact fun both => signedRoute_exact both.1 both.2

theorem partitionSpace_iff {text scheme token : PyStr} (some : token ≠ []) :
    partitionSpace text = (scheme, token) ↔ text = scheme ++ 0x20 :: token ∧ 0x20 ∉ scheme := by
  constructor
  · intro parts
    obtain ⟨rfl, later⟩ := Prod.mk.inj parts
    have free : 0x20 ∉ text.takeWhile (· ≠ 0x20) := by
      intro member
      simpa using List.mem_takeWhile_imp member
    refine ⟨?_, free⟩
    cases found : text.dropWhile (· ≠ 0x20) with
    | nil =>
      rw [found] at later
      exact absurd later.symm some
    | cons c rest =>
      have space : c = 0x20 := by
        have head := List.head_dropWhile_not (fun c : Nat => decide (c ≠ 0x20)) (l := text)
          (by rw [found]; simp)
        simp only [found, List.head_cons] at head
        simpa using head
      rw [found, List.drop_one, List.tail_cons] at later
      rw [space] at found
      rw [← later, ← found, List.takeWhile_append_dropWhile]
  · rintro ⟨rfl, free⟩
    have each : ∀ c ∈ scheme, decide (c ≠ 0x20) = true := by
      intro c member
      simpa using fun same : c = 0x20 => free (same ▸ member)
    simp only [partitionSpace]
    rw [List.takeWhile_append_of_pos each, List.dropWhile_append_of_pos each]
    simp

theorem bears_iff : Bears settings req ↔ settings.adminToken ≠ [] ∧
    partitionSpace ((req.authorization.map latin1).getD []) =
      (str "Bearer", settings.adminToken) := by
  have space : str "Bearer " ++ settings.adminToken =
      str "Bearer" ++ 0x20 :: settings.adminToken := rfl
  have free : 0x20 ∉ str "Bearer" := by decide
  rw [Bears, and_congr_right_iff]
  intro some
  rw [partitionSpace_iff some, space]
  cases req.authorization.map latin1 with
  | none => simp [show str "Bearer" ≠ [] by decide]
  | some text => simp [free]

theorem adminGate_iff : AdminGate settings req (requireAdminToken settings req) ↔
    TokensCompare settings req := by
  simp only [requireAdminToken]
  generalize found : partitionSpace ((req.authorization.map latin1).getD []) = parts
  obtain ⟨scheme, token⟩ := parts
  by_cases idle : settings.adminToken = [] ∨ scheme ≠ str "Bearer"
  · have refused : (settings.adminToken.isEmpty || decide (scheme ≠ str "Bearer")) = true := by
      simpa using idle
    rw [if_pos refused]
    constructor
    · intro _ token' some same
      rw [found, Prod.mk.injEq] at same
      rcases idle with empty | other
      · exact absurd empty some
      · exact absurd same.1 other
    · intro _
      refine .refused fun bears => ?_
      obtain ⟨some, same⟩ := bears_iff.mp bears
      rw [found, Prod.mk.injEq] at same
      rcases idle with empty | other
      · exact some empty
      · exact other same.1
  · obtain ⟨some, rfl⟩ : settings.adminToken ≠ [] ∧ scheme = str "Bearer" := by
      simpa using not_or.mp idle
    have tried : (settings.adminToken.isEmpty || decide (str "Bearer" ≠ str "Bearer")) = false := by
      simp [some]
    have compares : TokensCompare settings req ↔
        (isascii token && isascii settings.adminToken) = true := by
      rw [TokensCompare, Bool.and_eq_true]
      constructor
      · exact fun all => all token some found
      · intro both token' _ same
        rw [found, Prod.mk.injEq] at same
        exact same.2 ▸ both
    rw [if_neg (by simp [some]), compares, compareDigest]
    cases ascii : isascii token && isascii settings.adminToken with
    | false =>
      simp only [Bool.false_eq_true, if_false, iff_false]
      generalize result : Except.error Raised.typeError = r
      intro gate
      cases gate <;> cases result
    | true =>
      simp only [if_true, iff_true]
      cases same : token == settings.adminToken with
      | true =>
        refine .through (bears_iff.mpr ⟨some, ?_⟩)
        rw [found, beq_iff_eq.mp same]
      | false =>
        refine .refused fun bears => ?_
        have again := (bears_iff.mp bears).2
        rw [found, Prod.mk.injEq] at again
        simp [again.2] at same

/-- Both gates do what is documented exactly when their library calls are given what these take. -/
theorem gates_exact_iff (hmac : Bytes → Bytes → Bytes) (settings : Settings) (req : Request) :
    (SignedGate hmac settings req (signedRoute hmac settings req) ↔
      LengthConverts req ∧ SecretEncodes settings req) ∧
    (AdminGate settings req (requireAdminToken settings req) ↔ TokensCompare settings req) :=
  ⟨signedGate_iff, adminGate_iff⟩

def sampleSettings : Settings := ⟨2000000, str "k", 0xE9 :: str "x", by decide⟩

/-- `Content-Length: ²` and an `Authorization` whose token is the configured one. -/
def latin1Request : Request :=
  { contentLength := some [0xB2], xSignature := none, body := [],
    authorization := some [0x42, 0x65, 0x61, 0x72, 0x65, 0x72, 0x20, 0xE9, 0x78] }

theorem latin1_request_raises :
    (∀ hmac, ¬ SignedGate hmac sampleSettings latin1Request
      (signedRoute hmac sampleSettings latin1Request)) ∧
    ¬ AdminGate sampleSettings latin1Request (requireAdminToken sampleSettings latin1Request) := by
  constructor
  · intro hmac gate
    have convert := (signedGate_iff.mp gate).1 [0xB2] rfl (by decide)
    exact absurd convert.1 (by decide)
  · intro gate
    have compare := adminGate_iff.mp gate (0xE9 :: str "x") (by decide) (by decide)
    exact absurd compare.1 (by decide)

end ApiGates
