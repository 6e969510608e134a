import Mathlib.Data.List.Infix

/-!
Strict UTF-8. A text is a list of code points in which lone surrogates may
occur, as in a Python `str`; a byte string is a list of octets. The decoder is
a machine that owes `n` continuation octets, the next one between `lo` and
`hi`; it refuses overlong forms, surrogates and code points past U+10FFFF.
-/
namespace Utf8Text

abbrev Bytes := List UInt8

abbrev PyStr := List Nat

instance : LawfulBEq PyStr := inferInstance

def str (s : String) : PyStr := s.toList.map Char.toNat

/-- What the first octet of a character owes: continuation count, bounds of the
    next octet, and its own payload bits. -/
def leading (b : Nat) : Option (Nat × Nat × Nat × Nat) :=
  if 0xC2 ≤ b ∧ b ≤ 0xDF then some (1, 0x80, 0xBF, b - 0xC0)
  else if b = 0xE0 then some (2, 0xA0, 0xBF, 0)
  else if b = 0xED then some (2, 0x80, 0x9F, 0xD)
  else if 0xE1 ≤ b ∧ b ≤ 0xEF then some (2, 0x80, 0xBF, b - 0xE0)
  else if b = 0xF0 then some (3, 0x90, 0xBF, 0)
  else if 0xF1 ≤ b ∧ b ≤ 0xF3 then some (3, 0x80, 0xBF, b - 0xF0)
  else if b = 0xF4 then some (3, 0x80, 0x8F, 4)
  else none

def decodeFrom : Nat → Nat → Nat → Nat → Bytes → Option PyStr
  | 0, _, _, _, [] => some []
  | _ + 1, _, _, _, [] => none
  | 0, _, _, _, b :: bs =>
    if b.toNat < 0x80 then (decodeFrom 0 0 0 0 bs).map (b.toNat :: ·)
    else match leading b.toNat with
      | some (n, lo, hi, acc) => decodeFrom n lo hi acc bs
      | none => none
  | n + 1, lo, hi, acc, b :: bs =>
    if lo ≤ b.toNat ∧ b.toNat ≤ hi then
      let point := acc * 64 + (b.toNat - 0x80)
      if n = 0 then (decodeFrom 0 0 0 0 bs).map (point :: ·)
      else decodeFrom n 0x80 0xBF point bs
    else none

/-- `bytes.decode("utf-8")`; `none` is `UnicodeDecodeError`. -/
def decode (bs : Bytes) : Option PyStr := decodeFrom 0 0 0 0 bs

def Scalar (cp : Nat) : Prop := cp < 0xD800 ∨ (0xDFFF < cp ∧ cp < 0x110000)

instance (cp : Nat) : Decidable (Scalar cp) :=
  inferInstanceAs (Decidable (cp < 0xD800 ∨ (0xDFFF < cp ∧ cp < 0x110000)))

def encodePoint (cp : Nat) : Bytes :=
  if cp < 0x80 then [UInt8.ofNat cp]
  else if cp < 0x800 then [UInt8.ofNat (0xC0 + cp / 64), UInt8.ofNat (0x80 + cp % 64)]
  else if cp < 0x10000 then
    [UInt8.ofNat (0xE0 + cp / 4096), UInt8.ofNat (0x80 + cp / 64 % 64),
      UInt8.ofNat (0x80 + cp % 64)]
  else
    [UInt8.ofNat (0xF0 + cp / 262144), UInt8.ofNat (0x80 + cp / 4096 % 64),
      UInt8.ofNat (0x80 + cp / 64 % 64), UInt8.ofNat (0x80 + cp % 64)]

def Encodes (s : PyStr) : Prop := ∀ cp ∈ s, Scalar cp

instance (s : PyStr) : Decidable (Encodes s) :=
  inferInstanceAs (Decidable (∀ cp ∈ s, Scalar cp))

/-- `str.encode("utf-8")`; `none` is `UnicodeEncodeError`. -/
def encode (s : PyStr) : Option Bytes :=
  if Encodes s then some (s.flatMap encodePoint) else none

theorem encode_isSome_iff (s : PyStr) : (encode s).isSome ↔ Encodes s := by
  unfold encode
  split <;> simp_all

theorem encodes_append (s t : PyStr) : Encodes (s ++ t) ↔ Encodes s ∧ Encodes t := by
  simp [Encodes, or_imp, forall_and]

theorem encodes_cons (c : Nat) (t : PyStr) : Encodes (c :: t) ↔ Scalar c ∧ Encodes t := by
  simp [Encodes]

theorem encodes_str (s : String) : Encodes (str s) := by
  intro cp member
  simp only [str, List.mem_map] at member
  obtain ⟨c, _, rfl⟩ := member
  have valid := c.valid
  simp only [Scalar, Char.toNat, UInt32.isValidChar, Nat.isValidChar] at valid ⊢
  omega

theorem leading_above {b n lo hi acc : Nat} (found : leading b = some (n, lo, hi, acc)) :
    0x80 ≤ lo ∧ 0 < n := by
  unfold leading at found
  repeat' split at found
  all_goals first
    | (simp only [Option.some.injEq, Prod.mk.injEq] at found; omega)
    | exact absurd found (by simp)

/-- An ASCII octet is read only between characters, so both sides of it decode. -/
theorem decode_ascii_split {a : UInt8} (ascii : a.toNat < 0x80) (ys : Bytes) :
    ∀ (xs : Bytes) (n lo hi acc : Nat), (0 < n → 0x80 ≤ lo) →
      (decodeFrom n lo hi acc (xs ++ a :: ys)).isSome →
      (decodeFrom n lo hi acc xs).isSome ∧ (decode ys).isSome := by
  intro xs
  induction xs with
  | nil =>
    intro n lo hi acc above some
    cases n with
    | zero =>
      simp only [List.nil_append, decodeFrom, ascii, if_true, Option.isSome_map] at some
      exact ⟨by simp [decodeFrom], some⟩
    | succ n =>
      have low := above (by omega)
      have refused : ¬ (lo ≤ a.toNat ∧ a.toNat ≤ hi) := by omega
      simp [decodeFrom, refused] at some
  | cons b xs ih =>
    intro n lo hi acc above some
    cases n with
    | zero =>
      simp only [List.cons_append, decodeFrom] at some ⊢
      split at some
      · rename_i small
        simp only [small, if_true, Option.isSome_map] at some ⊢
        exact ih 0 0 0 0 (by omega) some
      · rename_i large
        simp only [large, if_false]
        cases found : leading b.toNat with
        | none => simp [found] at some
        | some q =>
          obtain ⟨n, lo, hi, acc⟩ := q
          simp only [found] at some ⊢
          exact ih n lo hi acc (fun _ => (leading_above found).1) some
    | succ n =>
      simp only [List.cons_append, decodeFrom] at some ⊢
      split at some
      · rename_i inside
        simp only [inside, and_self, if_true] at some ⊢
        by_cases last : n = 0
        · simp only [last, if_true, Option.isSome_map] at some ⊢
          exact ih 0 0 0 0 (by omega) some
        · simp only [last, if_false] at some ⊢
          exact ih n 0x80 0xBF _ (fun _ => Nat.le_refl _) some
      · simp at some

theorem decode_ascii (s : PyStr) (ascii : ∀ c ∈ s, c < 0x80) :
    decode (s.flatMap encodePoint) = some s := by
  induction s with
  | nil => rfl
  | cons c s ih =>
    have small := ascii c (by simp)
    have tail := ih fun d member => ascii d (by simp [member])
    have value : (UInt8.ofNat c).toNat = c := by
      simp only [UInt8.toNat_ofNat']
      omega
    unfold decode at tail ⊢
    simp [encodePoint, small, decodeFrom, value, tail]

theorem leading_bounds {b n lo hi acc : Nat} (found : leading b = some (n, lo, hi, acc)) :
    0x80 ≤ lo ∧ hi ≤ 0xBF ∧
    (n = 1 ∧ 0xC2 ≤ b ∧ b ≤ 0xDF ∧ acc = b - 0xC0 ∨
      n = 2 ∧ 0xE0 ≤ b ∧ b ≤ 0xEF ∧ acc = b - 0xE0 ∧ (b = 0xE0 → 0xA0 ≤ lo) ∨
      n = 3 ∧ 0xF0 ≤ b ∧ b ≤ 0xF4 ∧ acc = b - 0xF0 ∧ (b = 0xF0 → 0x90 ≤ lo)) := by
  unfold leading at found
  repeat' split at found
  all_goals first
    | (simp only [Option.some.injEq, Prod.mk.injEq] at found; omega)
    | exact absurd found (by simp)

theorem decodeFrom_owed {n lo hi acc : Nat} {bs : Bytes} {s : PyStr}
    (found : decodeFrom (n + 1) lo hi acc bs = some s) :
    ∃ b bs', bs = b :: bs' ∧ lo ≤ b.toNat ∧ b.toNat ≤ hi ∧
      if n = 0 then ∃ s', decode bs' = some s' ∧ s = (acc * 64 + (b.toNat - 0x80)) :: s'
      else decodeFrom n 0x80 0xBF (acc * 64 + (b.toNat - 0x80)) bs' = some s := by
  cases bs with
  | nil => cases found
  | cons b bs =>
    simp only [decodeFrom] at found
    split at found
    · rename_i inside
      refine ⟨b, bs, rfl, inside.1, inside.2, ?_⟩
      by_cases last : n = 0
      · simp only [last, if_true, Option.map_eq_some_iff] at found ⊢
        obtain ⟨s', rest, rfl⟩ := found
        exact ⟨s', rest, rfl⟩
      · simpa only [last, if_false] using found
    · cases found

theorem ofNat_octet {n : Nat} {b : UInt8} (eq : n = b.toNat) : UInt8.ofNat n = b := by
  rw [eq, UInt8.ofNat_toNat]

theorem decode_cons {b : UInt8} {bs : Bytes} {s : PyStr} (found : decode (b :: bs) = some s) :
    ∃ c s' bs', s = c :: s' ∧ b :: bs = encodePoint c ++ bs' ∧ decode bs' = some s' := by
  simp only [decode, decodeFrom] at found
  split at found
  · rename_i small
    obtain ⟨s', rest, rfl⟩ := Option.map_eq_some_iff.mp found
    exact ⟨b.toNat, s', bs, rfl, by simp [encodePoint, small], rest⟩
  · cases first : leading b.toNat with
    | none => simp [first] at found
    | some q =>
      obtain ⟨n, lo, hi, acc⟩ := q
      simp only [first] at found
      obtain ⟨low, high, cases⟩ := leading_bounds first
      rcases cases with ⟨one, above, below, bits⟩ | ⟨two, above, below, bits, least⟩ |
        ⟨three, above, below, bits, least⟩
      · subst one
        obtain ⟨x, bs₁, rfl, x_low, x_high, later⟩ := decodeFrom_owed found
        obtain ⟨s', rest, rfl⟩ := later
        refine ⟨_, s', bs₁, rfl, ?_, rest⟩
        rw [encodePoint, if_neg (by omega), if_pos (by omega), ofNat_octet (b := b) (by omega),
          ofNat_octet (b := x) (by omega)]
        rfl
      · subst two
        obtain ⟨x, bs₁, rfl, x_low, x_high, later⟩ := decodeFrom_owed found
        obtain ⟨y, bs₂, rfl, y_low, y_high, later⟩ := decodeFrom_owed later
        obtain ⟨s', rest, rfl⟩ := later
        refine ⟨_, s', bs₂, rfl, ?_, rest⟩
        rw [encodePoint, if_neg (by omega), if_neg (by omega), if_pos (by omega),
          ofNat_octet (b := b) (by omega), ofNat_octet (b := x) (by omega),
          ofNat_octet (b := y) (by omega)]
        rfl
      · subst three
        obtain ⟨x, bs₁, rfl, x_low, x_high, later⟩ := decodeFrom_owed found
        obtain ⟨y, bs₂, rfl, y_low, y_high, later⟩ := decodeFrom_owed later
        obtain ⟨z, bs₃, rfl, z_low, z_high, later⟩ := decodeFrom_owed later
        obtain ⟨s', rest, rfl⟩ := later
        refine ⟨_, s', bs₃, rfl, ?_, rest⟩
        rw [encodePoint, if_neg (by omega), if_neg (by omega), if_neg (by omega),
          ofNat_octet (b := b) (by omega), ofNat_octet (b := x) (by omega),
          ofNat_octet (b := y) (by omega), ofNat_octet (b := z) (by omega)]
        rfl

theorem decode_eq {bs : Bytes} {s : PyStr} (found : decode bs = some s) :
    bs = s.flatMap encodePoint := by
  induction s generalizing bs with
  | nil =>
    cases bs with
    | nil => rfl
    | cons b bs =>
      obtain ⟨c, s', bs', eq, _⟩ := decode_cons found
      cases eq
  | cons c s ih =>
    cases bs with
    | nil => cases found
    | cons b bs =>
      obtain ⟨d, s', bs', eq, octets, rest⟩ := decode_cons found
      cases eq
      rw [octets, ih rest, List.flatMap_cons]

theorem decode_injective {as bs : Bytes} (valid : (decode as).isSome)
    (same : decode as = decode bs) : as = bs := by
  obtain ⟨s, found⟩ := Option.isSome_iff_exists.mp valid
  exact (decode_eq found).trans (decode_eq (same.symm.trans found)).symm

theorem toNat_octet {n : Nat} (small : n < 256) : (UInt8.ofNat n).toNat = n :=
  Nat.mod_eq_of_lt small

theorem decode_leading {b n lo hi acc : Nat} (octet : b < 256) (above : 0x80 ≤ b)
    (found : leading b = some (n, lo, hi, acc)) (bs : Bytes) :
    decode (UInt8.ofNat b :: bs) = decodeFrom n lo hi acc bs := by
  rw [decode, decodeFrom, toNat_octet octet, if_neg (Nat.not_lt.mpr above), found]

theorem decodeFrom_more {lo hi acc x : Nat} (n : Nat) (octet : x < 256) (inside : lo ≤ x ∧ x ≤ hi)
    (bs : Bytes) : decodeFrom (n + 2) lo hi acc (UInt8.ofNat x :: bs) =
      decodeFrom (n + 1) 0x80 0xBF (acc * 64 + (x - 0x80)) bs := by
  rw [decodeFrom, toNat_octet octet, if_pos inside]
  exact if_neg (Nat.succ_ne_zero n)

theorem decodeFrom_last {lo hi acc x : Nat} (octet : x < 256) (inside : lo ≤ x ∧ x ≤ hi)
    (bs : Bytes) : decodeFrom 1 lo hi acc (UInt8.ofNat x :: bs) =
      (decode bs).map ((acc * 64 + (x - 0x80)) :: ·) := by
  rw [decodeFrom, toNat_octet octet, if_pos inside]
  rfl

theorem leading_three {cp : Nat} (above : 0x800 ≤ cp) (below : cp < 0x10000) (scalar : Scalar cp) :
    ∃ lo hi, leading (0xE0 + cp / 4096) = some (2, lo, hi, cp / 4096) ∧
      lo ≤ 0x80 + cp / 64 % 64 ∧ 0x80 + cp / 64 % 64 ≤ hi := by
  unfold Scalar at scalar
  unfold leading
  rw [if_neg (by omega)]
  by_cases zero : 0xE0 + cp / 4096 = 0xE0
  · exact ⟨0xA0, 0xBF, by rw [if_pos zero]; simp; omega, by omega, by omega⟩
  · rw [if_neg zero]
    by_cases surrogates : 0xE0 + cp / 4096 = 0xED
    · exact ⟨0x80, 0x9F, by rw [if_pos surrogates]; simp; omega, by omega, by omega⟩
    · rw [if_neg surrogates, if_pos (by omega)]
      exact ⟨0x80, 0xBF, by rw [Nat.add_sub_cancel_left], by omega, by omega⟩

theorem leading_four {cp : Nat} (above : 0x10000 ≤ cp) (below : cp < 0x110000) :
    ∃ lo hi, leading (0xF0 + cp / 262144) = some (3, lo, hi, cp / 262144) ∧
      lo ≤ 0x80 + cp / 4096 % 64 ∧ 0x80 + cp / 4096 % 64 ≤ hi := by
  unfold leading
  rw [if_neg (by omega), if_neg (by omega), if_neg (by omega), if_neg (by omega)]
  by_cases zero : 0xF0 + cp / 262144 = 0xF0
  · exact ⟨0x90, 0xBF, by rw [if_pos zero]; simp; omega, by omega, by omega⟩
  · rw [if_neg zero]
    by_cases last : 0xF0 + cp / 262144 = 0xF4
    · exact ⟨0x80, 0x8F, by rw [if_neg (by omega), if_pos last]; simp; omega, by omega, by omega⟩
    · rw [if_pos (by omega)]
      exact ⟨0x80, 0xBF, by rw [Nat.add_sub_cancel_left], by omega, by omega⟩

theorem decode_point {cp : Nat} (scalar : Scalar cp) (bs : Bytes) :
    decode (encodePoint cp ++ bs) = (decode bs).map (cp :: ·) := by
  have bounds := scalar
  unfold Scalar at bounds
  by_cases one : cp < 0x80
  · rw [encodePoint, if_pos one, List.singleton_append, decode, decodeFrom, toNat_octet (by omega),
      if_pos one]
    rfl
  by_cases two : cp < 0x800
  · have first : leading (0xC0 + cp / 64) = some (1, 0x80, 0xBF, cp / 64) := by
      rw [leading, if_pos (by omega), Nat.add_sub_cancel_left]
    rw [encodePoint, if_neg one, if_pos two, List.cons_append, List.singleton_append,
      decode_leading (by omega) (by omega) first, decodeFrom_last (by omega) (by omega),
      show cp / 64 * 64 + (0x80 + cp % 64 - 0x80) = cp by omega]
  by_cases three : cp < 0x10000
  · obtain ⟨lo, hi, first, inside⟩ := leading_three (by omega) three scalar
    rw [encodePoint, if_neg one, if_neg two, if_pos three, List.cons_append, List.cons_append,
      List.singleton_append, decode_leading (by omega) (by omega) first,
      decodeFrom_more 0 (by omega) inside, decodeFrom_last (by omega) (by omega),
      show (cp / 4096 * 64 + (0x80 + cp / 64 % 64 - 0x80)) * 64 + (0x80 + cp % 64 - 0x80) = cp by
        omega]
  · obtain ⟨lo, hi, first, inside⟩ := leading_four (by omega) (by omega : cp < 0x110000)
    rw [encodePoint, if_neg one, if_neg two, if_neg three, List.cons_append, List.cons_append,
      List.cons_append, List.singleton_append, decode_leading (by omega) (by omega) first,
      decodeFrom_more 1 (by omega) inside, decodeFrom_more 0 (by omega) (by omega),
      decodeFrom_last (by omega) (by omega),
      show ((cp / 262144 * 64 + (0x80 + cp / 4096 % 64 - 0x80)) * 64 +
        (0x80 + cp / 64 % 64 - 0x80)) * 64 + (0x80 + cp % 64 - 0x80) = cp by omega]

theorem decode_encoded {s : PyStr} (encodable : Encodes s) : decode (s.flatMap encodePoint) = some s := by
  induction s with
  | nil => rfl
  | cons c s ih =>
    obtain ⟨scalar, rest⟩ := (encodes_cons c s).mp encodable
    rw [List.flatMap_cons, decode_point scalar, ih rest, Option.map_some]

theorem leading_scalar {b n lo hi acc x : Nat} (found : leading b = some (n, lo, hi, acc))
    (low : lo ≤ x) (high : x ≤ hi) (y z : Nat) (second : 0x80 ≤ y ∧ y ≤ 0xBF)
    (third : 0x80 ≤ z ∧ z ≤ 0xBF) :
    (n = 1 → Scalar (acc * 64 + (x - 0x80))) ∧
    (n = 2 → Scalar ((acc * 64 + (x - 0x80)) * 64 + (y - 0x80))) ∧
    (n = 3 → Scalar (((acc * 64 + (x - 0x80)) * 64 + (y - 0x80)) * 64 + (z - 0x80))) := by
  unfold leading at found
  unfold Scalar
  repeat' split at found
  all_goals first
    | (simp only [Option.some.injEq, Prod.mk.injEq] at found; omega)
    | exact absurd found (by simp)

theorem decode_scalar {b : UInt8} {bs : Bytes} {c : Nat} {s : PyStr}
    (found : decode (b :: bs) = some (c :: s)) : Scalar c := by
  simp only [decode, decodeFrom] at found
  split at found
  · rename_i small
    obtain ⟨s', rest, eq⟩ := Option.map_eq_some_iff.mp found
    cases eq
    exact Or.inl (by omega)
  · cases first : leading b.toNat with
    | none => simp [first] at found
    | some q =>
      obtain ⟨n, lo, hi, acc⟩ := q
      simp only [first] at found
      obtain ⟨_, _, cases⟩ := leading_bounds first
      rcases cases with ⟨rfl, _⟩ | ⟨rfl, _⟩ | ⟨rfl, _⟩
      · obtain ⟨x, bs₁, rfl, x_low, x_high, s', rest, eq⟩ := decodeFrom_owed found
        rw [(List.cons.inj eq).1]
        exact (leading_scalar first x_low x_high 0x80 0x80 (by omega) (by omega)).1 rfl
      · obtain ⟨x, bs₁, rfl, x_low, x_high, later⟩ := decodeFrom_owed found
        obtain ⟨y, bs₂, rfl, y_low, y_high, s', rest, eq⟩ := decodeFrom_owed later
        rw [(List.cons.inj eq).1]
        exact (leading_scalar first x_low x_high y.toNat 0x80 ⟨y_low, y_high⟩ (by omega)).2.1 rfl
      · obtain ⟨x, bs₁, rfl, x_low, x_high, later⟩ := decodeFrom_owed found
        obtain ⟨y, bs₂, rfl, y_low, y_high, later⟩ := decodeFrom_owed later
        obtain ⟨z, bs₃, rfl, z_low, z_high, s', rest, eq⟩ := decodeFrom_owed later
        rw [(List.cons.inj eq).1]
        exact (leading_scalar first x_low x_high y.toNat z.toNat ⟨y_low, y_high⟩
          ⟨z_low, z_high⟩).2.2 rfl

theorem decode_encodes {bs : Bytes} {s : PyStr} (found : decode bs = some s) : Encodes s := by
  induction s generalizing bs with
  | nil => simp [Encodes]
  | cons c s ih =>
    cases bs with
    | nil => cases found
    | cons b bs =>
      have scalar := decode_scalar found
      obtain ⟨d, s', bs', eq, _, rest⟩ := decode_cons found
      cases eq
      exact (encodes_cons c s).mpr ⟨scalar, ih rest⟩

theorem decode_append {bs cs : Bytes} {s t : PyStr} (found : decode bs = some s) (encoded : encode t = some cs) :
    decode (bs ++ cs) = some (s ++ t) := by
  unfold encode at encoded
  split at encoded
  · rename_i encodes
    cases encoded
    rw [decode_eq found, ← List.flatMap_append]
    exact decode_encoded ((encodes_append s t).mpr ⟨decode_encodes found, encodes⟩)
  · cases encoded

theorem mapM_eq_some_iff {α β : Type} {f : α → Option β} {xs : List α} {ys : List β} :
    xs.mapM f = some ys ↔ xs.map f = ys.map some := by
  induction xs generalizing ys with
  | nil =>
    simp only [List.mapM_nil, List.map_nil, Option.pure_def, Option.some.injEq]
    exact ⟨fun h => by simp [← h], fun h => (List.map_eq_nil_iff.mp h.symm).symm⟩
  | cons x xs ih =>
    simp only [List.mapM_cons, List.map_cons, Option.bind_eq_bind, Option.bind_eq_some_iff,
      Option.pure_def, Option.some.injEq]
    constructor
    · rintro ⟨y, hy, zs, hzs, rfl⟩
      rw [List.map_cons, hy, ih.mp hzs]
    · intro h
      cases ys with
      | nil => simp at h
      | cons y ys =>
        simp only [List.map_cons, List.cons.injEq] at h
        exact ⟨y, h.1, ys, ih.mpr h.2, rfl⟩

end Utf8Text
