import SentinelBrief.Library.Json
import SentinelBrief.Library.UrlQuery

/-!
`application/x-www-form-urlencoded`: its serializer, and its parser, which takes any octets.
-/
namespace FormUrlEncoded
open Utf8Text JsonText
open UrlQueryText (hexUpper)

def plain (b : Nat) : Bool :=
  (0x30 ≤ b && b ≤ 0x39) || (0x41 ≤ b && b ≤ 0x5A) || (0x61 ≤ b && b ≤ 0x7A) || b == 0x2A ||
    b == 0x2D || b == 0x2E || b == 0x5F

def encodeOctet (b : UInt8) : Bytes :=
  if plain b.toNat then [b]
  else if b = 0x20 then [0x2B]
  else [0x25, UInt8.ofNat (hexUpper (b.toNat / 16)), UInt8.ofNat (hexUpper (b.toNat % 16))]

def encodeText (s : PyStr) : Bytes := (s.flatMap encodePoint).flatMap encodeOctet

def pairText (p : PyStr × PyStr) : Bytes := encodeText p.1 ++ 0x3D :: encodeText p.2

def serialize (pairs : List (PyStr × PyStr)) : Bytes := [0x26].intercalate (pairs.map pairText)

def plusToSpace (b : UInt8) : UInt8 := if b = 0x2B then 0x20 else b

def percentDecode : Bytes → Bytes
  | p :: a :: b :: bs =>
    if p = 0x25 then match hexValue a.toNat, hexValue b.toNat with
      | some high, some low => UInt8.ofNat (high * 16 + low) :: percentDecode bs
      | _, _ => p :: percentDecode (a :: b :: bs)
    else p :: percentDecode (a :: b :: bs)
  | b :: bs => b :: percentDecode bs
  | [] => []

def start (b : UInt8) : PyStr × Nat × Nat × Nat × Nat :=
  if b.toNat < 0x80 then ([b.toNat], 0, 0, 0, 0)
  else match leading b.toNat with
    | some owed => ([], owed)
    | none => ([0xFFFD], 0, 0, 0, 0)

/-- Every ill-formed part becomes U+FFFD. -/
def decodeLossyFrom : Nat → Nat → Nat → Nat → Bytes → PyStr
  | 0, _, _, _, [] => []
  | _ + 1, _, _, _, [] => [0xFFFD]
  | 0, _, _, _, b :: bs =>
    (start b).1 ++ decodeLossyFrom (start b).2.1 (start b).2.2.1 (start b).2.2.2.1 (start b).2.2.2.2 bs
  | n + 1, lo, hi, acc, b :: bs =>
    if lo ≤ b.toNat ∧ b.toNat ≤ hi then
      let point := acc * 64 + (b.toNat - 0x80)
      if n = 0 then point :: decodeLossyFrom 0 0 0 0 bs else decodeLossyFrom n 0x80 0xBF point bs
    else
      0xFFFD :: (start b).1 ++
        decodeLossyFrom (start b).2.1 (start b).2.2.1 (start b).2.2.2.1 (start b).2.2.2.2 bs

def decodeLossy (bs : Bytes) : PyStr := decodeLossyFrom 0 0 0 0 bs

def decodeOctets (bs : Bytes) : Bytes := percentDecode (bs.map plusToSpace)

def decodeText (bs : Bytes) : PyStr := decodeLossy (decodeOctets bs)

/-- The name ends before the first `=`; without one it is the whole. -/
def parsePair (bs : Bytes) : PyStr × PyStr :=
  (decodeText (bs.takeWhile (· ≠ 0x3D)), decodeText ((bs.dropWhile (· ≠ 0x3D)).drop 1))

def parse (bs : Bytes) : List (PyStr × PyStr) :=
  ((bs.splitOn 0x26).filter (· ≠ [])).map parsePair

def setPair (name value : PyStr) : List (PyStr × PyStr) → List (PyStr × PyStr)
  | [] => [(name, value)]
  | p :: ps => if p.1 = name then (name, value) :: ps.filter (·.1 ≠ name) else p :: setPair name value ps

theorem decodeLossyFrom_eq {n lo hi acc : Nat} {bs : Bytes} {s : PyStr}
    (found : decodeFrom n lo hi acc bs = some s) : decodeLossyFrom n lo hi acc bs = s := by
  induction n, lo, hi, acc, bs using decodeFrom.induct generalizing s with
  | case1 => simpa [decodeFrom, decodeLossyFrom] using found
  | case2 => simp [decodeFrom] at found
  | case3 lo hi acc b bs ascii ih =>
    rw [decodeFrom, if_pos ascii] at found
    obtain ⟨t, rest, rfl⟩ := Option.map_eq_some_iff.mp found
    simp [decodeLossyFrom, start, ascii, ih rest]
  | case4 lo hi acc b bs above n lo' hi' acc' owed ih =>
    rw [decodeFrom, if_neg above, owed] at found
    simp [decodeLossyFrom, start, above, owed, ih found]
  | case5 lo hi acc b bs above none =>
    rw [decodeFrom, if_neg above, none] at found
    cases found
  | case6 lo hi acc b bs inside ih =>
    rw [decodeFrom, if_pos inside] at found
    obtain ⟨t, rest, rfl⟩ := Option.map_eq_some_iff.mp found
    rw [decodeLossyFrom, if_pos inside, ← ih rest]
    rfl
  | case7 n lo hi acc b bs inside point more =>
    rename_i ih
    rw [decodeFrom, if_pos inside] at found
    dsimp only at found
    rw [if_neg more] at found
    rw [decodeLossyFrom, if_pos inside]
    dsimp only
    rw [if_neg more, ih found]
  | case8 n lo hi acc b bs outside =>
    rw [decodeFrom, if_neg outside] at found
    cases found

theorem decodeLossy_encoded {s : PyStr} (encodes : Encodes s) : decodeLossy (s.flatMap encodePoint) = s :=
  decodeLossyFrom_eq (decode_encoded encodes)

theorem hexUpper_digit {n : Nat} (small : n < 16) :
    hexUpper n < 0x80 ∧ hexValue (hexUpper n) = some n ∧ hexUpper n ≠ 0x2B ∧ hexUpper n ≠ 0x26 ∧
      hexUpper n ≠ 0x3D := by
  unfold hexUpper hexValue
  split <;> grind

theorem percentDecode_plain {b : UInt8} (other : b ≠ 0x25) (bs : Bytes) :
    percentDecode (b :: bs) = b :: percentDecode bs := by
  rcases bs with _ | ⟨c, _ | ⟨d, bs⟩⟩
  · rfl
  · rfl
  · rw [percentDecode, if_neg other]

theorem percentDecode_digits (b : UInt8) (bs : Bytes) :
    percentDecode (0x25 :: UInt8.ofNat (hexUpper (b.toNat / 16)) ::
      UInt8.ofNat (hexUpper (b.toNat % 16)) :: bs) = b :: percentDecode bs := by
  have small := b.toNat_lt
  obtain ⟨high_small, high, -⟩ := @hexUpper_digit (b.toNat / 16) (by omega)
  obtain ⟨low_small, low, -⟩ := @hexUpper_digit (b.toNat % 16) (by omega)
  have whole : b.toNat / 16 * 16 + b.toNat % 16 = b.toNat := by omega
  rw [percentDecode, if_pos rfl, toNat_octet (by omega), toNat_octet (by omega), high, low]
  dsimp only
  rw [whole, UInt8.ofNat_toNat]

theorem plain_other {b : UInt8} (kept : plain b.toNat = true) :
    b ≠ 0x2B ∧ b ≠ 0x25 ∧ b ≠ 0x26 ∧ b ≠ 0x3D := by
  refine ⟨?_, ?_, ?_, ?_⟩
  all_goals
    rintro rfl
    revert kept
    decide

theorem decodeOctets_cons (b : UInt8) (bs : Bytes) :
    decodeOctets (encodeOctet b ++ bs) = b :: decodeOctets bs := by
  unfold decodeOctets encodeOctet
  split
  · rename_i kept
    obtain ⟨plus, percent, -⟩ := plain_other kept
    rw [List.singleton_append, List.map_cons, plusToSpace, if_neg plus, percentDecode_plain percent]
  · split
    · rename_i space
      rw [List.singleton_append, List.map_cons, plusToSpace, if_pos rfl, space,
        percentDecode_plain (by decide)]
    · have small := b.toNat_lt
      have digit {n : Nat} (bound : n < 16) :
          plusToSpace (UInt8.ofNat (hexUpper n)) = UInt8.ofNat (hexUpper n) := by
        obtain ⟨ascii, -, plus, -⟩ := hexUpper_digit bound
        refine if_neg fun same => plus ?_
        rw [← @toNat_octet (hexUpper n) (by omega), same]
        rfl
      have high := @digit (b.toNat / 16) (by omega)
      have low := @digit (b.toNat % 16) (by omega)
      simp only [List.cons_append, List.nil_append, List.map_cons]
      rw [high, low]
      exact percentDecode_digits b _

theorem decodeOctets_encoded (bs : Bytes) : decodeOctets (bs.flatMap encodeOctet) = bs := by
  induction bs with
  | nil => rfl
  | cons b bs ih => rw [List.flatMap_cons, decodeOctets_cons, ih]

theorem decodeText_encoded {s : PyStr} (encodes : Encodes s) : decodeText (encodeText s) = s := by
  rw [decodeText, encodeText, decodeOctets_encoded, decodeLossy_encoded encodes]

theorem encodeOctet_free (b c : UInt8) (member : c ∈ encodeOctet b) :
    c ≠ 0x26 ∧ c ≠ 0x3D ∧ (plain c.toNat = true ∨ c = 0x2B ∨ c = 0x25) := by
  have small := b.toNat_lt
  have digit : ∀ n < 16, plain (hexUpper n) = true := by decide
  have octet {n : Nat} (bound : n < 16) : plain (UInt8.ofNat (hexUpper n)).toNat = true := by
    rw [toNat_octet (by have := (hexUpper_digit bound).1; omega)]
    exact digit n bound
  unfold encodeOctet at member
  split at member
  · rename_i kept
    obtain rfl := List.mem_singleton.mp member
    exact ⟨(plain_other kept).2.2.1, (plain_other kept).2.2.2, Or.inl kept⟩
  · split at member
    · obtain rfl := List.mem_singleton.mp member
      exact ⟨by decide, by decide, Or.inr (Or.inl rfl)⟩
    · simp only [List.mem_cons, List.not_mem_nil, or_false] at member
      rcases member with rfl | rfl | rfl
      · exact ⟨by decide, by decide, Or.inr (Or.inr rfl)⟩
      · have kept := @octet (b.toNat / 16) (by omega)
        exact ⟨(plain_other kept).2.2.1, (plain_other kept).2.2.2, Or.inl kept⟩
      · have kept := @octet (b.toNat % 16) (by omega)
        exact ⟨(plain_other kept).2.2.1, (plain_other kept).2.2.2, Or.inl kept⟩

theorem encodeText_free {s : PyStr} {c : UInt8} (member : c ∈ encodeText s) :
    c ≠ 0x26 ∧ c ≠ 0x3D ∧ (plain c.toNat = true ∨ c = 0x2B ∨ c = 0x25) := by
  obtain ⟨b, _, inside⟩ := List.mem_flatMap.mp member
  exact encodeOctet_free b c inside

theorem parsePair_text {p : PyStr × PyStr} (encodes : Encodes p.1 ∧ Encodes p.2) :
    parsePair (pairText p) = p := by
  have free : ∀ c ∈ encodeText p.1, decide (c ≠ 0x3D) = true :=
    fun c member => decide_eq_true (encodeText_free member).2.1
  have name : (pairText p).takeWhile (· ≠ 0x3D) = encodeText p.1 := by
    rw [pairText, List.takeWhile_append_of_pos free]
    simp
  have value : ((pairText p).dropWhile (· ≠ 0x3D)).drop 1 = encodeText p.2 := by
    rw [pairText, List.dropWhile_append_of_pos free]
    simp
  rw [parsePair, name, value, decodeText_encoded encodes.1, decodeText_encoded encodes.2]

theorem parse_serialize {pairs : List (PyStr × PyStr)} (encodes : ∀ p ∈ pairs, Encodes p.1 ∧ Encodes p.2) :
    parse (serialize pairs) = pairs := by
  by_cases none : pairs = []
  · subst none
    rfl
  · have free : ∀ bs ∈ pairs.map pairText, (0x26 : UInt8) ∉ bs := by
      intro bs member inside
      obtain ⟨p, _, rfl⟩ := List.mem_map.mp member
      rw [pairText, List.mem_append, List.mem_cons] at inside
      rcases inside with name | equals | value
      · exact (encodeText_free name).1 rfl
      · revert equals
        decide
      · exact (encodeText_free value).1 rfl
    have full : (pairs.map pairText).filter (· ≠ []) = pairs.map pairText := by
      rw [List.filter_eq_self]
      intro bs member
      obtain ⟨p, _, rfl⟩ := List.mem_map.mp member
      simp [pairText]
    rw [parse, serialize, List.splitOn_intercalate 0x26 free (by simpa using none), full, List.map_map]
    exact (List.map_congr_left fun p member => parsePair_text (encodes p member)).trans (List.map_id _)

theorem serialize_octets {pairs : List (PyStr × PyStr)} {c : UInt8} (member : c ∈ serialize pairs) :
    plain c.toNat = true ∨ c = 0x2B ∨ c = 0x25 ∨ c = 0x26 ∨ c = 0x3D := by
  unfold serialize at member
  induction pairs with
  | nil => simp at member
  | cons p ps ih =>
    have pair {c : UInt8} (inside : c ∈ pairText p) :
        plain c.toNat = true ∨ c = 0x2B ∨ c = 0x25 ∨ c = 0x26 ∨ c = 0x3D := by
      rw [pairText, List.mem_append, List.mem_cons] at inside
      rcases inside with name | equals | value
      · rcases (encodeText_free name).2.2 with kept | plus | percent
        · exact Or.inl kept
        · exact Or.inr (Or.inl plus)
        · exact Or.inr (Or.inr (Or.inl percent))
      · exact Or.inr (Or.inr (Or.inr (Or.inr equals)))
      · rcases (encodeText_free value).2.2 with kept | plus | percent
        · exact Or.inl kept
        · exact Or.inr (Or.inl plus)
        · exact Or.inr (Or.inr (Or.inl percent))
    cases ps with
    | nil => exact pair (by simpa using member)
    | cons q ps =>
      simp only [List.map_cons, List.intercalate_cons_cons, List.mem_append, List.mem_singleton] at member ih
      rcases member with (inside | mark) | later
      · exact pair inside
      · exact Or.inr (Or.inr (Or.inr (Or.inl mark)))
      · exact ih later

theorem setPair_new {name value : PyStr} {pairs : List (PyStr × PyStr)} (new : ∀ p ∈ pairs, p.1 ≠ name) :
    setPair name value pairs = pairs ++ [(name, value)] := by
  induction pairs with
  | nil => rfl
  | cons p ps ih =>
    rw [setPair, if_neg (new p (by simp)), ih fun q member => new q (by simp [member])]
    rfl

theorem foldl_setPair {pairs set : List (PyStr × PyStr)} (distinct : ((set ++ pairs).map Prod.fst).Nodup) :
    pairs.foldl (fun ps p => setPair p.1 p.2 ps) set = set ++ pairs := by
  induction pairs generalizing set with
  | nil => simp
  | cons p pairs ih =>
    have new : ∀ q ∈ set, q.1 ≠ p.1 := by
      intro q member same
      rw [List.map_append, List.nodup_append] at distinct
      exact distinct.2.2 q.1 (List.mem_map_of_mem member) p.1 (by simp) same
    rw [List.foldl_cons, setPair_new new, ih (by simpa using distinct)]
    simp

end FormUrlEncoded
