import SentinelBrief.Shipper.Tail

/-!
The position written to `tail.json` and read back. The writer is
`json.dumps`, the reader `json.loads` followed by `int`; the one way in which
they differ is a number with more digits than the interpreter converts, which
the reader treats as an unreadable file.
-/
namespace ShipperTail
open Utf8Text JsonText

theorem stateText_nat (inode offset : Nat) :
    stateText ⟨inode, offset⟩ = 0x7B :: (quote (str "inode") ++ [0x3A, 0x20] ++ digitsText inode ++
      0x2C :: 0x20 :: (quote (str "offset") ++ [0x3A, 0x20] ++ digitsText offset ++ [0x7D])) := by
  simp [stateText, intText_natCast]

theorem stateText_ascii (inode offset : Nat) : ∀ c ∈ stateText ⟨inode, offset⟩, c < 0x80 := by
  have digits : ∀ n, ∀ c ∈ digitsText n, c < 0x80 := by
    intro n c member
    have digit := digitsText_digits n c member
    simp only [isDigit, Bool.and_eq_true, decide_eq_true_eq] at digit
    omega
  have names : (∀ c ∈ quote (str "inode"), c < 0x80) ∧ ∀ c ∈ quote (str "offset"), c < 0x80 := by
    decide
  intro c member
  simp only [stateText_nat, List.mem_cons, List.mem_append, List.not_mem_nil, or_false] at member
  rcases member with rfl | ((h | rfl | rfl) | h) | rfl | rfl | ((h | rfl | rfl) | h) | rfl
  all_goals first
    | omega
    | exact digits _ c h
    | exact names.1 c h
    | exact names.2 c h

theorem loads_stateText {limit : Nat} (positive : 0 < limit) (inode offset : Nat) :
    loads limit (stateText ⟨inode, offset⟩) =
      if intMaxStrDigits < (digitsText inode).length ∨
          intMaxStrDigits < (digitsText offset).length then .error .value
      else .ok (.obj [(str "inode", .int inode), (str "offset", .int offset)]) := by
  obtain ⟨limit, rfl⟩ : ∃ k, limit = k + 1 := ⟨limit - 1, by omega⟩
  have comma : Stops (0x2C :: 0x20 :: (quote (str "offset") ++ [0x3A, 0x20] ++
      digitsText offset ++ [0x7D])) := by
    intro c head
    simp only [List.head?_cons, Option.some.injEq] at head
    subst head
    decide
  have brace : Stops [0x7D] := by
    intro c head
    simp only [List.head?_cons, Option.some.injEq] at head
    subst head
    decide
  have room : 10 < (stateText ⟨inode, offset⟩).length := by
    simp only [stateText_nat, quote, List.length_cons, List.length_append]
    have : (str "inode").length = 5 ∧ ((str "inode").flatMap escapePoint).length = 5 := by decide
    have : ((str "offset").flatMap escapePoint).length = 6 := by decide
    omega
  have first : (str "inode").length < (stateText ⟨inode, offset⟩).length - 1 := by
    have : (str "inode").length = 5 := by decide
    omega
  have second : (str "offset").length < (stateText ⟨inode, offset⟩).length - 1 - 1 := by
    have : (str "offset").length = 6 := by decide
    omega
  have fuel : (stateText ⟨inode, offset⟩).length + 1 =
      (stateText ⟨inode, offset⟩).length - 1 + 1 + 1 := by omega
  have fuel' : (stateText ⟨inode, offset⟩).length - 1 =
      (stateText ⟨inode, offset⟩).length - 1 - 1 + 1 := by omega
  rw [loads, fuel]
  generalize (stateText ⟨inode, offset⟩).length - 1 = k at *
  have fields := scanFields_digitsText limit [] (str "inode") inode
    comma first
  have comma_kept : ∀ t : PyStr, skipSpace (0x2C :: t) = 0x2C :: t := fun _ => rfl
  have blank : ∀ s t : PyStr, skipSpace (0x20 :: (quote s ++ t)) = quote s ++ t := fun _ _ => rfl
  have brace_kept : skipSpace [0x7D] = [0x7D] := rfl
  have later := scanFields_digitsText limit
    (setField (str "inode") (.int inode) []) (str "offset") offset brace second
  rw [← fuel'] at later
  simp only [comma_kept, List.append_assoc, blank] at fields
  simp only [brace_kept, List.append_assoc] at later
  rw [stateText_nat, if_neg (by simp)]
  have value : scanValue (k + 1 + 1) (limit + 1) (skipSpace (0x7B :: (quote (str "inode") ++
      [0x3A, 0x20] ++ digitsText inode ++ 0x2C :: 0x20 :: (quote (str "offset") ++ [0x3A, 0x20] ++
      digitsText offset ++ [0x7D])))) =
      (scanFields (k + 1) limit [] (quote (str "inode") ++ ([0x3A, 0x20] ++ (digitsText inode ++
        0x2C :: 0x20 :: (quote (str "offset") ++ ([0x3A, 0x20] ++ (digitsText offset ++
          [0x7D]))))))).map fun r => (.obj r.1, r.2) := by
    simp only [List.append_assoc]
    rfl
  rw [value, fields, later]
  by_cases big : intMaxStrDigits < (digitsText inode).length
  · simp [big, Except.map]
  · by_cases big' : intMaxStrDigits < (digitsText offset).length
    · simp [big, big', Except.map]
    · simp only [big, big', if_false, or_self]
      rfl

theorem loadState_persistState (cfg : TailConfig) (disk : Disk) (inode offset : Nat) :
    loadState cfg (persistState ⟨inode, offset⟩ disk).stateFile = .ok (some ⟨inode, offset⟩) ∨
    loadState cfg (persistState ⟨inode, offset⟩ disk).stateFile = .ok none := by
  simp only [persistState, loadState, decode_ascii _ (stateText_ascii inode offset),
    loads_stateText cfg.limit_pos]
  by_cases long : intMaxStrDigits < (digitsText inode).length ∨
      intMaxStrDigits < (digitsText offset).length
  · exact .inr (by rw [if_pos long])
  · exact .inl (by rw [if_neg long]; rfl)

theorem loadState_persistState_exact (cfg : TailConfig) (disk : Disk) {inode offset : Nat}
    (small : inode < 2 ^ 64) (short : offset < 2 ^ 64) :
    loadState cfg (persistState ⟨inode, offset⟩ disk).stateFile = .ok (some ⟨inode, offset⟩) := by
  have digits : ∀ n, n < 2 ^ 64 → ¬ intMaxStrDigits < (digitsText n).length := by
    intro n lt
    have few : (Nat.toDigits 10 n).length ≤ 20 :=
      (Nat.length_toDigits_le_iff (by decide) (by decide)).mpr (Nat.lt_trans lt (by decide))
    simp only [intMaxStrDigits, digitsText, List.length_map]
    omega
  simp only [persistState, loadState, decode_ascii _ (stateText_ascii inode offset),
    loads_stateText cfg.limit_pos]
  rw [if_neg (by simp [digits inode small, digits offset short])]
  rfl

end ShipperTail
