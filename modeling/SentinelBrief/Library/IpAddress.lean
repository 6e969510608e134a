import Mathlib.Data.List.TakeWhile
import SentinelBrief.Library.JsonRoundTrip
import SentinelBrief.Library.Lines

/-!
`ipaddress.ip_address` of a text and `str` of an address. The text of an address is one
that no other address has.
-/
namespace IpAddressText
open Utf8Text JsonText SeparatedLines

def dot : Nat := 0x2E

def colon : Nat := 0x3A

def percent : Nat := 0x25

/-- `IPv4Address` and `IPv6Address`, the second with its scope id. -/
inductive Address where
  | v4 (value : Nat) (bound : value < 256 ^ 4)
  | v6 (value : Nat) (scopeId : Option PyStr) (bound : value < 65536 ^ 8)
  deriving DecidableEq

def bigEndian (base : Nat) : Nat → Nat → List Nat
  | 0, _ => []
  | width + 1, n => bigEndian base width (n / base) ++ [n % base]

def fromBigEndian (base : Nat) (digits : List Nat) : Nat :=
  digits.foldl (fun n d => n * base + d) 0

def parseOctet (s : PyStr) : Option Nat :=
  if s ≠ [] ∧ (∀ c ∈ s, isDigit c = true) ∧ s.length ≤ 3 ∧ (s = [0x30] ∨ s.head? ≠ some 0x30) ∧
      digitsValue s ≤ 255 then some (digitsValue s)
  else none

def parseIPv4 (s : PyStr) : Option Nat :=
  if 0x2F ∈ s then none
  else match fields dot s with
    | [a, b, c, d] => do
      let octets ← [a, b, c, d].mapM parseOctet
      some (fromBigEndian 256 octets)
    | _ => none

def hexText (n : Nat) : PyStr :=
  if n < 16 then [hexDigit n]
  else if n < 256 then [hexDigit (n / 16), hexDigit (n % 16)]
  else if n < 4096 then [hexDigit (n / 256), hexDigit (n / 16 % 16), hexDigit (n % 16)]
  else [hexDigit (n / 4096), hexDigit (n / 256 % 16), hexDigit (n / 16 % 16), hexDigit (n % 16)]

def parseHextet (s : PyStr) : Option Nat :=
  if s ≠ [] ∧ s.length ≤ 4 then (s.mapM hexValue).map (fromBigEndian 16) else none

/-- A last part with dots stands for two hextets. -/
def embedIPv4 (parts : List PyStr) : Option (List PyStr) :=
  let last := parts.getLast?.getD []
  if dot ∈ last then
    (parseIPv4 last).map fun v => parts.dropLast ++ [hexText (v / 65536), hexText (v % 65536)]
  else some parts

/-- The parts on one side of `::`; an empty part may only stand alone, at the outer end. -/
def side (outer : Option PyStr) (parts : List PyStr) : Option (List PyStr) :=
  if outer = some [] then if parts.length = 1 then some [] else none else some parts

/-- `_ip_int_from_string`. -/
def parseHextets (s : PyStr) : Option Nat := do
  let parts := fields colon s
  if parts.length < 3 then none
  else
    let parts ← embedIPv4 parts
    if 9 < parts.length then none
    else
      let inner := (parts.drop 1).dropLast
      let hextets ←
        if inner.count [] = 0 then
          if parts.length = 8 ∧ parts.head? ≠ some [] ∧ parts.getLast? ≠ some [] then some parts else none
        else if inner.count [] = 1 then do
          let skip := 1 + inner.idxOf []
          let high ← side parts.head? (parts.take skip)
          let low ← side parts.getLast? (parts.drop (skip + 1))
          if 8 ≤ high.length + low.length then none
          else some (high ++ List.replicate (8 - (high.length + low.length)) [0x30] ++ low)
        else none
      (hextets.mapM parseHextet).map (fromBigEndian 65536)

def splitScopeId (s : PyStr) : Option (PyStr × Option PyStr) :=
  match s.dropWhile (· ≠ percent) with
  | [] => some (s, none)
  | _ :: scope =>
    if scope = [] ∨ percent ∈ scope then none else some (s.takeWhile (· ≠ percent), some scope)

/-- `ipaddress.ip_address`; none is `ValueError`. -/
def ipAddress (s : PyStr) : Option Address :=
  match parseIPv4 s with
  | some v => if bound : v < 256 ^ 4 then some (.v4 v bound) else none
  | none =>
    if 0x2F ∈ s then none
    else do
      let (addr, scope) ← splitScopeId s
      let v ← parseHextets addr
      if bound : v < 65536 ^ 8 then some (.v6 v scope bound) else none

/-- The longest run of zeros so far, and the run at the end. -/
structure ZeroRuns where
  best : Nat × Nat := (0, 0)
  current : Nat := 0
  index : Nat := 0

def ZeroRuns.next (r : ZeroRuns) (hextet : PyStr) : ZeroRuns :=
  if hextet = [0x30] then
    { best := if r.best.2 < r.current + 1 then (r.index - r.current, r.current + 1) else r.best,
      current := r.current + 1, index := r.index + 1 }
  else { best := r.best, current := 0, index := r.index + 1 }

def compressHextets (hextets : List PyStr) : List PyStr :=
  let run := (hextets.foldl ZeroRuns.next {}).best
  if 1 < run.2 then
    (if run.1 = 0 then [[]] else []) ++ hextets.take run.1 ++ [[]] ++
      hextets.drop (run.1 + run.2) ++ (if run.1 + run.2 = hextets.length then [[]] else [])
  else hextets

def Address.text : Address → PyStr
  | .v4 value _ => joinWith dot ((bigEndian 256 4 value).map digitsText)
  | .v6 value scope _ =>
    joinWith colon (compressHextets ((bigEndian 65536 8 value).map hexText)) ++
      match scope with
      | some s => percent :: s
      | none => []

theorem bigEndian_length (base width n : Nat) : (bigEndian base width n).length = width := by
  induction width generalizing n with
  | zero => rfl
  | succ width ih => rw [bigEndian, List.length_append, ih, List.length_singleton]

theorem bigEndian_lt {base : Nat} (positive : 0 < base) (width n : Nat) :
    ∀ d ∈ bigEndian base width n, d < base := by
  induction width generalizing n with
  | zero => simp [bigEndian]
  | succ width ih =>
    intro d member
    rcases List.mem_append.mp member with front | last
    · exact ih (n / base) d front
    · rw [List.mem_singleton.mp last]
      exact Nat.mod_lt n positive

theorem fromBigEndian_bigEndian (base width n : Nat) :
    fromBigEndian base (bigEndian base width n) = n % base ^ width := by
  induction width generalizing n with
  | zero => simp [bigEndian, fromBigEndian, Nat.mod_one]
  | succ width ih =>
    have front := ih (n / base)
    unfold fromBigEndian at front ⊢
    rw [bigEndian, List.foldl_append, front, List.foldl_cons, List.foldl_nil, Nat.pow_succ,
      Nat.mul_comm (base ^ width) base, Nat.mod_mul, Nat.mul_comm base, Nat.add_comm]

theorem bigEndian_injective {base width m n : Nat} (m_bound : m < base ^ width)
    (n_bound : n < base ^ width) (same : bigEndian base width m = bigEndian base width n) : m = n := by
  have values := congrArg (fromBigEndian base) same
  rwa [fromBigEndian_bigEndian, fromBigEndian_bigEndian, Nat.mod_eq_of_lt m_bound,
    Nat.mod_eq_of_lt n_bound] at values

theorem parseHextet_hexText {n : Nat} (small : n < 65536) : parseHextet (hexText n) = some n := by
  have digit (k : Nat) (inside : k < 16) : hexValue (hexDigit k) = some k := hexValue_hexDigit k inside
  unfold hexText
  split
  · rename_i one
    simp [parseHextet, fromBigEndian, digit n one]
  split
  · rename_i two
    simp [parseHextet, fromBigEndian, digit (n / 16) (by omega), digit (n % 16) (by omega)]
    omega
  split
  · simp [parseHextet, fromBigEndian, digit (n / 256) (by omega), digit (n / 16 % 16) (by omega),
      digit (n % 16) (by omega)]
    omega
  · simp [parseHextet, fromBigEndian, digit (n / 4096) (by omega), digit (n / 256 % 16) (by omega),
      digit (n / 16 % 16) (by omega), digit (n % 16) (by omega)]
    omega

theorem hexDigit_cases (n : Nat) (small : n < 16) : 0x30 ≤ hexDigit n ∧ hexDigit n ≠ colon ∧
    hexDigit n ≤ 0x66 := by
  unfold hexDigit colon
  split <;> omega

theorem hexText_chars {n : Nat} (small : n < 65536) :
    ∀ c ∈ hexText n, 0x30 ≤ c ∧ c ≠ colon ∧ c ≤ 0x66 := by
  unfold hexText
  split
  · simp only [List.forall_mem_singleton]
    exact hexDigit_cases n (by omega)
  split
  · simp only [List.forall_mem_cons]
    exact ⟨hexDigit_cases _ (by omega), hexDigit_cases _ (by omega), by simp⟩
  split
  · simp only [List.forall_mem_cons]
    exact ⟨hexDigit_cases _ (by omega), hexDigit_cases _ (by omega), hexDigit_cases _ (by omega),
      by simp⟩
  · simp only [List.forall_mem_cons]
    exact ⟨hexDigit_cases _ (by omega), hexDigit_cases _ (by omega), hexDigit_cases _ (by omega),
      hexDigit_cases _ (by omega), by simp⟩

theorem hexText_some (n : Nat) : hexText n ≠ [] := by
  unfold hexText
  repeat' split
  all_goals simp

structure RunsOf (hextets : List PyStr) (r : ZeroRuns) : Prop where
  index : r.index = hextets.length
  inside : r.current ≤ hextets.length
  current : hextets.drop (hextets.length - r.current) = List.replicate r.current [0x30]
  best_inside : r.best.1 + r.best.2 ≤ hextets.length
  best : (hextets.drop r.best.1).take r.best.2 = List.replicate r.best.2 [0x30]

theorem runsOf_next {hextets : List PyStr} {r : ZeroRuns} (runs : RunsOf hextets r) (hextet : PyStr) :
    RunsOf (hextets ++ [hextet]) (r.next hextet) := by
  have later : ((hextets ++ [hextet]).drop r.best.1).take r.best.2 =
      List.replicate r.best.2 [0x30] := by
    have room := runs.best_inside
    rw [List.drop_append_of_le_length (by omega), List.take_append_of_le_length, runs.best]
    rw [List.length_drop]
    omega
  unfold ZeroRuns.next
  split
  · rename_i zero
    have ending : (hextets ++ [hextet]).drop (hextets.length - r.current) =
        List.replicate (r.current + 1) [0x30] := by
      rw [List.drop_append_of_le_length (by omega), runs.current, zero, List.replicate_succ']
    have shorter : (hextets ++ [hextet]).length - (r.current + 1) = hextets.length - r.current := by
      rw [List.length_append, List.length_singleton]
      omega
    have inside := runs.inside
    constructor
    · simp [runs.index]
    · simp only [List.length_append, List.length_singleton]
      omega
    · rw [shorter]
      exact ending
    · dsimp only
      have room := runs.best_inside
      rw [runs.index]
      split <;> simp only [List.length_append, List.length_singleton] <;> omega
    · dsimp only
      split
      · dsimp only
        rw [runs.index, ending, List.take_of_length_le (by simp)]
      · exact later
  · constructor
    · simp [runs.index]
    · exact Nat.zero_le _
    · simp
    · have room := runs.best_inside
      simp only [List.length_append, List.length_singleton]
      omega
    · exact later

theorem runsOf_fold (hextets : List PyStr) : RunsOf hextets (hextets.foldl ZeroRuns.next {}) := by
  induction hextets using List.reverseRecOn with
  | nil => constructor <;> simp
  | append_singleton hextets hextet ih =>
    rw [List.foldl_append, List.foldl_cons, List.foldl_nil]
    exact runsOf_next ih hextet

def expandHextets (parts : List PyStr) : List PyStr :=
  let rest := parts.filter (· ≠ [])
  let start := (parts.takeWhile (· ≠ [])).length
  rest.take start ++ (List.replicate (8 - rest.length) [0x30] ++ rest.drop start)

theorem filter_filled {parts : List PyStr} (filled : ∀ p ∈ parts, p ≠ []) :
    parts.filter (· ≠ []) = parts :=
  List.filter_eq_self.mpr fun p member => decide_eq_true (filled p member)

theorem takeWhile_filled {parts rest : List PyStr} (filled : ∀ p ∈ parts, p ≠ []) :
    (parts ++ [] :: rest).takeWhile (· ≠ []) = parts := by
  rw [List.takeWhile_append_of_pos fun p member => decide_eq_true (filled p member)]
  simp

/-- A run of zeros replaced by an empty part, with one more at an end that it reaches. -/
theorem expand_marked {front back : List PyStr} {n : Nat} (eight : front.length + n + back.length = 8)
    (front_filled : ∀ p ∈ front, p ≠ []) (back_filled : ∀ p ∈ back, p ≠ []) :
    expandHextets ((if front.length = 0 then [[]] else []) ++ front ++ [[]] ++ back ++
      (if back.length = 0 then [[]] else [])) = front ++ (List.replicate n [0x30] ++ back) := by
  have kept (parts : List PyStr) : (if parts.length = 0 then [([] : PyStr)] else []).filter
      (· ≠ []) = [] := by
    split <;> simp
  have rest : ((if front.length = 0 then [[]] else []) ++ front ++ [[]] ++ back ++
      (if back.length = 0 then [[]] else [])).filter (· ≠ []) = front ++ back := by
    simp only [List.filter_append, kept, filter_filled front_filled, filter_filled back_filled]
    simp
  have start : ((if front.length = 0 then [[]] else []) ++ front ++ [[]] ++ back ++
      (if back.length = 0 then [[]] else [])).takeWhile (· ≠ []) = front := by
    split
    · rename_i none
      rw [List.length_eq_zero_iff.mp none]
      simp
    · simp only [List.append_assoc, List.nil_append, List.singleton_append]
      exact takeWhile_filled front_filled
  have skipped : 8 - (front ++ back).length = n := by
    rw [List.length_append]
    omega
  simp only [expandHextets, rest, start, skipped, List.take_left', List.drop_left']

theorem expand_compress {hextets : List PyStr} (eight : hextets.length = 8)
    (filled : ∀ p ∈ hextets, p ≠ []) : expandHextets (compressHextets hextets) = hextets := by
  have runs := runsOf_fold hextets
  unfold compressHextets
  dsimp only
  generalize hextets.foldl ZeroRuns.next {} = r at runs
  have inside := runs.best_inside
  split
  · have parts := @expand_marked (hextets.take r.best.1) (hextets.drop (r.best.1 + r.best.2))
      r.best.2 (by rw [List.length_take, List.length_drop]; omega)
      (fun p member => filled p (List.mem_of_mem_take member))
      (fun p member => filled p (List.mem_of_mem_drop member))
    have front : (hextets.take r.best.1).length = r.best.1 := by
      rw [List.length_take]
      omega
    have back : (hextets.drop (r.best.1 + r.best.2)).length = 0 ↔
        r.best.1 + r.best.2 = hextets.length := by
      rw [List.length_drop]
      omega
    simp only [front, back] at parts
    rw [parts, ← runs.best, ← List.drop_drop, List.take_append_drop, List.take_append_drop]
  · have all : hextets.takeWhile (· ≠ []) = hextets :=
      List.takeWhile_eq_self_iff.mpr fun p member => decide_eq_true (filled p member)
    simp only [expandHextets, filter_filled filled, all, eight]
    simp

theorem mem_compress {hextets : List PyStr} {p : PyStr} (member : p ∈ compressHextets hextets) :
    p = [] ∨ p ∈ hextets := by
  unfold compressHextets at member
  dsimp only at member
  split at member
  · simp only [List.mem_append, List.mem_singleton] at member
    rcases member with (((start | front) | marked) | back) | ending
    · split at start
      · exact Or.inl (List.mem_singleton.mp start)
      · cases start
    · exact Or.inr (List.mem_of_mem_take front)
    · exact Or.inl marked
    · exact Or.inr (List.mem_of_mem_drop back)
    · split at ending
      · exact Or.inl (List.mem_singleton.mp ending)
      · cases ending
  · exact Or.inr member

theorem compress_some {hextets : List PyStr} (some : hextets ≠ []) : compressHextets hextets ≠ [] := by
  unfold compressHextets
  dsimp only
  split
  · simp
  · exact some

def v4Text (value : Nat) : PyStr := joinWith dot ((bigEndian 256 4 value).map digitsText)

def v6Text (value : Nat) : PyStr :=
  joinWith colon (compressHextets ((bigEndian 65536 8 value).map hexText))

theorem v4Text_chars (value : Nat) : ∀ c ∈ v4Text value, 0x2E ≤ c ∧ c ≤ 0x39 := by
  intro c member
  rcases mem_joinWith member with rfl | ⟨part, listed, inside⟩
  · decide
  · obtain ⟨octet, -, rfl⟩ := List.mem_map.mp listed
    have digit := digitsText_digits octet c inside
    rw [isDigit, Bool.and_eq_true, decide_eq_true_eq, decide_eq_true_eq] at digit
    omega

theorem v6Text_chars (value : Nat) : ∀ c ∈ v6Text value, 0x30 ≤ c ∧ c ≤ 0x66 := by
  intro c member
  rcases mem_joinWith member with rfl | ⟨part, listed, inside⟩
  · decide
  · rcases mem_compress listed with rfl | hextet
    · cases inside
    · obtain ⟨n, digit, rfl⟩ := List.mem_map.mp hextet
      have chars := hexText_chars (bigEndian_lt (by decide) 8 value n digit) c inside
      exact ⟨chars.1, chars.2.2⟩

theorem v4Text_injective {m n : Nat} (m_bound : m < 256 ^ 4) (n_bound : n < 256 ^ 4)
    (same : v4Text m = v4Text n) : m = n := by
  have parts (v : Nat) : fields dot (v4Text v) = (bigEndian 256 4 v).map digitsText := by
    apply fields_joinWith
    · have four := bigEndian_length 256 4 v
      intro none
      rw [List.map_eq_nil_iff.mp none] at four
      cases four
    · intro part listed inside
      obtain ⟨octet, -, rfl⟩ := List.mem_map.mp listed
      exact absurd (digitsText_digits octet dot inside) (by decide)
  have octets := congrArg (fields dot) same
  rw [parts, parts] at octets
  have values := congrArg (List.map digitsValue) octets
  rw [List.map_map, List.map_map] at values
  have back : digitsValue ∘ digitsText = id := funext digitsText_value
  rw [back, List.map_id, List.map_id] at values
  exact bigEndian_injective m_bound n_bound values

theorem v6Text_injective {m n : Nat} (m_bound : m < 65536 ^ 8) (n_bound : n < 65536 ^ 8)
    (same : v6Text m = v6Text n) : m = n := by
  have eight (v : Nat) : ((bigEndian 65536 8 v).map hexText).length = 8 := by
    rw [List.length_map, bigEndian_length]
  have filled (v : Nat) : ∀ p ∈ (bigEndian 65536 8 v).map hexText, p ≠ [] := by
    intro p listed
    obtain ⟨k, -, rfl⟩ := List.mem_map.mp listed
    exact hexText_some k
  have parts (v : Nat) : expandHextets (fields colon (v6Text v)) =
      (bigEndian 65536 8 v).map hexText := by
    rw [v6Text, fields_joinWith, expand_compress (eight v) (filled v)]
    · apply compress_some
      intro none
      have short := eight v
      rw [none] at short
      cases short
    · intro part listed inside
      rcases mem_compress listed with rfl | hextet
      · cases inside
      · obtain ⟨k, digit, rfl⟩ := List.mem_map.mp hextet
        exact (hexText_chars (bigEndian_lt (by decide) 8 v k digit) colon inside).2.1 rfl
  have hextets := congrArg (fun s => expandHextets (fields colon s)) same
  simp only [parts] at hextets
  apply bigEndian_injective m_bound n_bound
  have values := congrArg (List.map parseHextet) hextets
  have back (v : Nat) : ((bigEndian 65536 8 v).map hexText).map parseHextet =
      (bigEndian 65536 8 v).map some := by
    rw [List.map_map]
    apply List.map_congr_left
    intro k digit
    exact parseHextet_hexText (bigEndian_lt (by decide) 8 v k digit)
  rw [back, back] at values
  exact (List.map_injective_iff.mpr (Option.some_injective Nat)) values

theorem Address.text_v4 (value : Nat) (bound : value < 256 ^ 4) :
    (Address.v4 value bound).text = v4Text value := rfl

theorem Address.text_v6 (value : Nat) (bound : value < 65536 ^ 8) (scope : Option PyStr) :
    (Address.v6 value scope bound).text = v6Text value ++
      match scope with
      | some s => percent :: s
      | none => [] := rfl

theorem compress_two {hextets : List PyStr} (eight : hextets.length = 8) :
    2 ≤ (compressHextets hextets).length := by
  unfold compressHextets
  dsimp only
  split
  · simp only [List.length_append, List.length_take, List.length_singleton]
    split
    · simp only [List.length_singleton]
      omega
    · simp only [List.length_nil]
      omega
  · omega

theorem mem_v4Text (value : Nat) : dot ∈ v4Text value := by
  apply sep_mem_joinWith
  rw [List.length_map, bigEndian_length]
  decide

theorem mem_v6Text (value : Nat) : colon ∈ v6Text value := by
  apply sep_mem_joinWith
  apply compress_two
  rw [List.length_map, bigEndian_length]

theorem text_injective {a b : Address} (same : a.text = b.text) : a = b := by
  have four_six {m n : Nat} {scope : PyStr} (equal : v4Text m = v6Text n ++ scope) : False := by
    have colons : colon ∈ v4Text m := equal ▸ List.mem_append_left _ (mem_v6Text n)
    exact absurd (v4Text_chars m colon colons).2 (by decide)
  have free (v : Nat) : percent ∉ v6Text v := fun inside =>
    absurd (v6Text_chars v percent inside).1 (by decide)
  cases a with
  | v4 m m_bound =>
    cases b with
    | v4 n n_bound =>
      rw [Address.text_v4, Address.text_v4] at same
      cases v4Text_injective m_bound n_bound same
      rfl
    | v6 n scope n_bound =>
      rw [Address.text_v4, Address.text_v6] at same
      exact (four_six same).elim
  | v6 m scope m_bound =>
    cases b with
    | v4 n n_bound =>
      rw [Address.text_v4, Address.text_v6] at same
      exact (four_six same.symm).elim
    | v6 n scope' n_bound =>
      rw [Address.text_v6, Address.text_v6] at same
      have parts : v6Text m = v6Text n ∧ scope = scope' := by
        cases scope with
        | none =>
          cases scope' with
          | none => exact ⟨by simpa using same, rfl⟩
          | some t =>
            rw [List.append_nil] at same
            exact absurd (same ▸ List.mem_append_right _ List.mem_cons_self) (free m)
        | some s =>
          cases scope' with
          | none =>
            rw [List.append_nil] at same
            exact absurd (same ▸ List.mem_append_right _ List.mem_cons_self) (free n)
          | some t =>
            obtain ⟨texts, scopes⟩ := sep_append_inj (free m) (free n) same
            exact ⟨texts, congrArg some scopes⟩
      cases v6Text_injective m_bound n_bound parts.1
      cases parts.2
      rfl

theorem text_head (a : Address) : ∃ c s, a.text = c :: s ∧ c ≤ 0x66 := by
  cases a with
  | v4 value bound =>
    obtain ⟨c, s, parts⟩ := List.exists_cons_of_ne_nil (List.ne_nil_of_mem (mem_v4Text value))
    have chars := v4Text_chars value c (parts ▸ List.mem_cons_self)
    exact ⟨c, s, parts, by omega⟩
  | v6 value scope bound =>
    obtain ⟨c, s, parts⟩ := List.exists_cons_of_ne_nil (List.ne_nil_of_mem (mem_v6Text value))
    have chars := v6Text_chars value c (parts ▸ List.mem_cons_self)
    rw [Address.text_v6, parts]
    exact ⟨c, _, rfl, chars.2⟩

example : (ipAddress (str "2001:0DB8:0:0:0:0:0:1")).map Address.text = some (str "2001:db8::1") := by
  decide +kernel

example : (ipAddress (str "192.0.2.010")).isNone := by decide +kernel

theorem text_points {s : PyStr} {a : Address} (read : ipAddress s = some a)
    (points : ∀ c ∈ s, c < 0x110000) : ∀ c ∈ a.text, c < 0x110000 := by
  unfold ipAddress at read
  split at read
  · split at read
    · cases read
      intro c member
      have := v4Text_chars _ c member
      omega
    · cases read
  · split at read
    · cases read
    · obtain ⟨⟨addr, scope⟩, split, read⟩ := Option.bind_eq_some_iff.mp read
      obtain ⟨v, -, read⟩ := Option.bind_eq_some_iff.mp read
      have inside : ∀ t ∈ scope, ∀ c ∈ t, c ∈ s := by
        unfold splitScopeId at split
        split at split
        · cases split
          simp
        · rename_i mark rest found
          split at split
          · cases split
          · cases split
            rintro t ⟨⟩ c member
            have later : c ∈ s.dropWhile (· ≠ percent) := found ▸ List.mem_cons_of_mem _ member
            exact (List.dropWhile_suffix _).subset later
      split at read
      · cases read
        intro c member
        rw [Address.text_v6, List.mem_append] at member
        rcases member with text | tail
        · have := v6Text_chars v c text
          omega
        · cases scope with
          | none => cases tail
          | some t =>
            rcases List.mem_cons.mp tail with rfl | later
            · decide
            · exact points c (inside t rfl c later)
      · cases read

end IpAddressText
