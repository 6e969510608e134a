import SentinelBrief.Library.Lines
import SentinelBrief.Library.Utf8

/-!
`urllib.parse.quote_plus` and `urlencode` on texts free of lone surrogates.
Written so, ASCII names and values can be told apart again.
-/
namespace UrlQueryText
open SeparatedLines Utf8Text

def unreserved (c : Nat) : Bool :=
  (0x30 ≤ c && c ≤ 0x39) || (0x41 ≤ c && c ≤ 0x5A) || (0x61 ≤ c && c ≤ 0x7A) || c == 0x5F ||
    c == 0x2E || c == 0x2D || c == 0x7E

def hexUpper (n : Nat) : Nat := if n < 10 then 0x30 + n else 0x37 + n

def quoteOctet (b : UInt8) : PyStr :=
  if unreserved b.toNat then [b.toNat]
  else if b.toNat = 0x20 then [0x2B]
  else [0x25, hexUpper (b.toNat / 16), hexUpper (b.toNat % 16)]

def quotePlus (text : PyStr) : PyStr := (text.flatMap encodePoint).flatMap quoteOctet

def join (sep : Nat) : List PyStr → PyStr
  | [] => []
  | [x] => x
  | x :: xs => x ++ sep :: join sep xs

def ampersand : Nat := 0x26

def equals : Nat := 0x3D

def pairText (p : PyStr × PyStr) : PyStr := quotePlus p.1 ++ equals :: quotePlus p.2

def urlencode (pairs : List (PyStr × PyStr)) : PyStr := join ampersand (pairs.map pairText)

def Ascii (text : PyStr) : Prop := ∀ c ∈ text, c < 0x80

theorem hexUpper_injective {m n : Nat} (m_small : m < 16) (n_small : n < 16)
    (same : hexUpper m = hexUpper n) : m = n := by
  unfold hexUpper at same
  split at same <;> split at same <;> omega

theorem quoteOctet_append_inj {a b : UInt8} {s t : PyStr}
    (same : quoteOctet a ++ s = quoteOctet b ++ t) : a = b ∧ s = t := by
  have a_small := a.toNat_lt
  have b_small := b.toNat_lt
  have marks : unreserved 0x25 = false ∧ unreserved 0x2B = false := by decide
  rw [← UInt8.toNat_inj]
  unfold quoteOctet at same
  split at same
  · rename_i plain
    split at same
    · simpa using same
    · split at same
      · simp only [List.cons_append, List.nil_append, List.cons.injEq] at same
        rw [same.1, marks.2] at plain
        cases plain
      · simp only [List.cons_append, List.nil_append, List.cons.injEq] at same
        rw [same.1, marks.1] at plain
        cases plain
  · split at same
    · rename_i space
      split at same
      · rename_i plain
        simp only [List.cons_append, List.nil_append, List.cons.injEq] at same
        rw [← same.1, marks.2] at plain
        cases plain
      · split at same
        · rename_i space'
          simp only [List.cons_append, List.nil_append, List.cons.injEq, true_and] at same
          exact ⟨space.trans space'.symm, same⟩
        · simp at same
    · split at same
      · rename_i plain
        simp only [List.cons_append, List.nil_append, List.cons.injEq] at same
        rw [← same.1, marks.1] at plain
        cases plain
      · split at same
        · simp at same
        · simp only [List.cons_append, List.nil_append, List.cons.injEq, true_and] at same
          have high := hexUpper_injective (by omega) (by omega) same.1
          have low := hexUpper_injective (by omega) (by omega) same.2.1
          exact ⟨by omega, same.2.2⟩

theorem quoteOctet_some (b : UInt8) : quoteOctet b ≠ [] := by
  unfold quoteOctet
  split
  · simp
  · split <;> simp

theorem quoteOctets_injective {as bs : Bytes}
    (same : as.flatMap quoteOctet = bs.flatMap quoteOctet) : as = bs := by
  induction as generalizing bs with
  | nil =>
    cases bs with
    | nil => rfl
    | cons b bs => exact absurd (List.append_eq_nil_iff.mp same.symm).1 (quoteOctet_some b)
  | cons a as ih =>
    cases bs with
    | nil => exact absurd (List.append_eq_nil_iff.mp same).1 (quoteOctet_some a)
    | cons b bs =>
      obtain ⟨rfl, rest⟩ := quoteOctet_append_inj same
      rw [ih rest]

theorem quotePlus_injective {a b : PyStr} (a_ascii : Ascii a) (b_ascii : Ascii b)
    (same : quotePlus a = quotePlus b) : a = b := by
  have octets := quoteOctets_injective same
  have first := decode_ascii a a_ascii
  rw [octets, decode_ascii b b_ascii, Option.some.injEq] at first
  exact first.symm

theorem quotePlus_free (text : PyStr) : ampersand ∉ quotePlus text ∧ equals ∉ quotePlus text := by
  have digit : ∀ n, n < 16 → hexUpper n ≠ ampersand ∧ hexUpper n ≠ equals := by
    intro n small
    unfold hexUpper ampersand equals
    split <;> omega
  have octet : ∀ b, ampersand ∉ quoteOctet b ∧ equals ∉ quoteOctet b := by
    intro b
    have small := b.toNat_lt
    have high := digit (b.toNat / 16) (by omega)
    have low := digit (b.toNat % 16) (by omega)
    unfold quoteOctet
    split
    · rename_i plain
      have marks : unreserved ampersand = false ∧ unreserved equals = false := by decide
      simp only [List.mem_singleton]
      constructor
      · intro same
        rw [← same, marks.1] at plain
        cases plain
      · intro same
        rw [← same, marks.2] at plain
        cases plain
    · split
      · decide
      · simp only [List.mem_cons, List.not_mem_nil, or_false, not_or]
        exact ⟨⟨by decide, high.1.symm, low.1.symm⟩, by decide, high.2.symm, low.2.symm⟩
  constructor
  · intro member
    obtain ⟨b, _, inside⟩ := List.mem_flatMap.mp member
    exact (octet b).1 inside
  · intro member
    obtain ⟨b, _, inside⟩ := List.mem_flatMap.mp member
    exact (octet b).2 inside

theorem join_unlines {sep : Nat} {xs : List PyStr} (some : xs ≠ []) :
    join sep xs ++ [sep] = unlines sep xs := by
  induction xs with
  | nil => exact absurd rfl some
  | cons x xs ih =>
    cases xs with
    | nil => simp [join]
    | cons y ys =>
      have later := ih (by simp)
      simp only [join, unlines_cons, List.append_assoc, List.cons_append] at later ⊢
      rw [later]

theorem join_injective {sep : Nat} {xs ys : List PyStr} (xs_some : xs ≠ []) (ys_some : ys ≠ [])
    (xs_free : ∀ x ∈ xs, sep ∉ x) (ys_free : ∀ y ∈ ys, sep ∉ y)
    (same : join sep xs = join sep ys) : xs = ys := by
  have first := complete_unlines xs [] xs_free
  have second := complete_unlines ys [] ys_free
  rw [← join_unlines xs_some, same, join_unlines ys_some, second] at first
  simpa using first.symm

theorem pairText_injective {p q : PyStr × PyStr} (p_ascii : Ascii p.1 ∧ Ascii p.2)
    (q_ascii : Ascii q.1 ∧ Ascii q.2) (same : pairText p = pairText q) : p = q := by
  obtain ⟨names, values⟩ := sep_append_inj (quotePlus_free p.1).2 (quotePlus_free q.1).2 same
  exact Prod.ext (quotePlus_injective p_ascii.1 q_ascii.1 names)
    (quotePlus_injective p_ascii.2 q_ascii.2 values)

theorem urlencode_injective {ps qs : List (PyStr × PyStr)} (ps_some : ps ≠ []) (qs_some : qs ≠ [])
    (ps_ascii : ∀ p ∈ ps, Ascii p.1 ∧ Ascii p.2) (qs_ascii : ∀ q ∈ qs, Ascii q.1 ∧ Ascii q.2)
    (same : urlencode ps = urlencode qs) : ps = qs := by
  have free : ∀ l : List (PyStr × PyStr), ∀ x ∈ l.map pairText, ampersand ∉ x := by
    intro l x member
    obtain ⟨p, _, rfl⟩ := List.mem_map.mp member
    rw [pairText, List.mem_append, List.mem_cons, not_or, not_or]
    exact ⟨(quotePlus_free p.1).1, by decide, (quotePlus_free p.2).1⟩
  have texts := join_injective (by simpa using ps_some) (by simpa using qs_some) (free ps) (free qs)
    same
  have pointwise : ∀ (l m : List (PyStr × PyStr)), (∀ p ∈ l, Ascii p.1 ∧ Ascii p.2) →
      (∀ q ∈ m, Ascii q.1 ∧ Ascii q.2) → l.map pairText = m.map pairText → l = m := by
    intro l
    induction l with
    | nil => exact fun m _ _ eq => (List.map_eq_nil_iff.mp eq.symm).symm
    | cons p l ih =>
      intro m l_ascii m_ascii eq
      cases m with
      | nil => cases eq
      | cons q m =>
        simp only [List.map_cons, List.cons.injEq] at eq
        rw [pairText_injective (l_ascii p (by simp)) (m_ascii q (by simp)) eq.1,
          ih m (fun x member => l_ascii x (by simp [member]))
            (fun x member => m_ascii x (by simp [member])) eq.2]
  exact pointwise ps qs ps_ascii qs_ascii texts

end UrlQueryText
