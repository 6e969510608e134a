import SentinelBrief.Library.Json

/-!
`json.loads` of a byte string: the encoding is guessed from the first octets and
lone surrogates are let through (`surrogatepass`).
-/
namespace JsonText
open Utf8Text

inductive Encoding where
  | utf8
  | utf8Sig
  | utf16
  | utf16le
  | utf16be
  | utf32
  | utf32le
  | utf32be
  deriving DecidableEq

def detectEncoding (b : Bytes) : Encoding :=
  if [0x00, 0x00, 0xFE, 0xFF].isPrefixOf b || [0xFF, 0xFE, 0x00, 0x00].isPrefixOf b then .utf32
  else if [0xFE, 0xFF].isPrefixOf b || [0xFF, 0xFE].isPrefixOf b then .utf16
  else if [0xEF, 0xBB, 0xBF].isPrefixOf b then .utf8Sig
  else match b with
    | b0 :: b1 :: b2 :: b3 :: _ =>
      if b0 = 0 then if b1 ≠ 0 then .utf16be else .utf32be
      else if b1 = 0 then if b2 ≠ 0 ∨ b3 ≠ 0 then .utf16le else .utf32le
      else .utf8
    | [b0, b1] => if b0 = 0 then .utf16be else if b1 = 0 then .utf16le else .utf8
    | _ => .utf8

/-- UTF-8 in which surrogates are characters of three octets. -/
def leadingPass (b : Nat) : Option (Nat × Nat × Nat × Nat) :=
  if b = 0xED then some (2, 0x80, 0xBF, 0xD) else leading b

def decodePassFrom : Nat → Nat → Nat → Nat → Bytes → Option PyStr
  | 0, _, _, _, [] => some []
  | _ + 1, _, _, _, [] => none
  | 0, _, _, _, b :: bs =>
    if b.toNat < 0x80 then (decodePassFrom 0 0 0 0 bs).map (b.toNat :: ·)
    else match leadingPass b.toNat with
      | some (n, lo, hi, acc) => decodePassFrom n lo hi acc bs
      | none => none
  | n + 1, lo, hi, acc, b :: bs =>
    if lo ≤ b.toNat ∧ b.toNat ≤ hi then
      let point := acc * 64 + (b.toNat - 0x80)
      if n = 0 then (decodePassFrom 0 0 0 0 bs).map (point :: ·)
      else decodePassFrom n 0x80 0xBF point bs
    else none

/-- Code units of two octets; an odd octet is left over in no valid text. -/
def units16 (big : Bool) : Bytes → Option (List Nat)
  | [] => some []
  | [_] => none
  | a :: b :: bs =>
    (units16 big bs).map
      ((if big then a.toNat * 256 + b.toNat else b.toNat * 256 + a.toNat) :: ·)

def joinUnits : List Nat → PyStr
  | u :: v :: us =>
    if 0xD800 ≤ u ∧ u ≤ 0xDBFF ∧ 0xDC00 ≤ v ∧ v ≤ 0xDFFF then
      (0x10000 + (u - 0xD800) * 1024 + (v - 0xDC00)) :: joinUnits us
    else u :: joinUnits (v :: us)
  | us => us

def units32 (big : Bool) : Bytes → Option PyStr
  | [] => some []
  | a :: b :: c :: d :: bs =>
    let value := if big then ((a.toNat * 256 + b.toNat) * 256 + c.toNat) * 256 + d.toNat
      else ((d.toNat * 256 + c.toNat) * 256 + b.toNat) * 256 + a.toNat
    if value < 0x110000 then (units32 big bs).map (value :: ·) else none
  | _ => none

/-- `bytes.decode(encoding, "surrogatepass")`; `none` is `UnicodeDecodeError`. -/
def decodePass (b : Bytes) : Encoding → Option PyStr
  | .utf8 => decodePassFrom 0 0 0 0 b
  | .utf8Sig => decodePassFrom 0 0 0 0 (b.drop 3)
  | .utf16 => (units16 ([0xFE, 0xFF].isPrefixOf b) (b.drop 2)).map joinUnits
  | .utf16le => (units16 false b).map joinUnits
  | .utf16be => (units16 true b).map joinUnits
  | .utf32 => units32 ([0x00, 0x00, 0xFE, 0xFF].isPrefixOf b) (b.drop 4)
  | .utf32le => units32 false b
  | .utf32be => units32 true b

inductive RawJson where
  | text (s : PyStr)
  | bytes (b : Bytes)

inductive RawJsonError where
  | json (e : LoadError)
  | unicode
  deriving DecidableEq

def RawJson.loads (limit : Nat) : RawJson → Except RawJsonError Json
  | .text s => (JsonText.loads limit s).mapError .json
  | .bytes b => match decodePass b (detectEncoding b) with
    | none => .error .unicode
    | some s => (JsonText.loads limit s).mapError .json

theorem decodePass_ascii (s : PyStr) (ascii : ∀ c ∈ s, c < 0x80) :
    decodePass (s.flatMap encodePoint) .utf8 = some s := by
  induction s with
  | nil => rfl
  | cons c s ih =>
    have small := ascii c (by simp)
    have tail := ih fun d member => ascii d (by simp [member])
    have value : (UInt8.ofNat c).toNat = c := by
      simp only [UInt8.toNat_ofNat']
      omega
    simp only [decodePass] at tail ⊢
    simp [encodePoint, small, decodePassFrom, value, tail]

theorem detectEncoding_plain (b : Bytes)
    (plain : ∀ x ∈ b, x ≠ 0x00 ∧ x ≠ 0xEF ∧ x ≠ 0xFE ∧ x ≠ 0xFF) : detectEncoding b = .utf8 := by
  rcases b with _ | ⟨b0, _ | ⟨b1, b⟩⟩
  · rfl
  · obtain ⟨zero, mark, big, little⟩ := plain b0 (by simp)
    simp [detectEncoding, List.isPrefixOf]
  · obtain ⟨zero, mark, big, little⟩ := plain b0 (by simp)
    have second := (plain b1 (by simp)).1
    unfold detectEncoding
    rcases b with _ | ⟨b2, _ | ⟨b3, b⟩⟩ <;>
      simp [List.isPrefixOf, zero, Ne.symm zero, Ne.symm mark, Ne.symm big, Ne.symm little, second]

theorem loads_ascii_bytes (limit : Nat) (s : PyStr) (ascii : ∀ c ∈ s, 0 < c ∧ c < 0x80) :
    RawJson.loads limit (.bytes (s.flatMap encodePoint)) = RawJson.loads limit (.text s) := by
  have plain : ∀ x ∈ s.flatMap encodePoint, x ≠ 0x00 ∧ x ≠ 0xEF ∧ x ≠ 0xFE ∧ x ≠ 0xFF := by
    intro x member
    obtain ⟨c, inside, octet⟩ := List.mem_flatMap.mp member
    obtain ⟨positive, small⟩ := ascii c inside
    rw [encodePoint, if_pos small, List.mem_singleton] at octet
    have value : x.toNat = c := by
      rw [octet]
      simp only [UInt8.toNat_ofNat']
      omega
    refine ⟨?_, ?_, ?_, ?_⟩ <;> rintro rfl <;> simp at value <;> omega
  simp only [RawJson.loads, detectEncoding_plain _ plain,
    decodePass_ascii s fun c member => (ascii c member).2]

end JsonText
