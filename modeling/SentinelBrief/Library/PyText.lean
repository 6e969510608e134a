import SentinelBrief.Library.PyInt

/-!
Methods of Python's `str` on code points.
-/
namespace PyText
open Utf8Text PyIntText

def lineBreak (c : Nat) : Bool :=
  (0x0A ≤ c && c ≤ 0x0D) || (0x1C ≤ c && c ≤ 0x1E) || c == 0x85 || c == 0x2028 || c == 0x2029

def splitlinesFrom : PyStr → PyStr → List PyStr
  | line, [] => if line = [] then [] else [line]
  | line, 0x0D :: 0x0A :: s => line :: splitlinesFrom [] s
  | line, c :: s => if lineBreak c then line :: splitlinesFrom [] s else splitlinesFrom (line ++ [c]) s

def splitlines (s : PyStr) : List PyStr := splitlinesFrom [] s

def stripBy (p : Nat → Bool) (s : PyStr) : PyStr :=
  ((s.dropWhile p).reverse.dropWhile p).reverse

def strip (s : PyStr) : PyStr := stripBy unicodeSpace s

def join (separator : PyStr) (parts : List PyStr) : PyStr := separator.intercalate parts

def universalNewlines : PyStr → PyStr
  | 0x0D :: 0x0A :: s => 0x0A :: universalNewlines s
  | 0x0D :: s => 0x0A :: universalNewlines s
  | c :: s => c :: universalNewlines s
  | [] => []

theorem universalNewlines_eq {s : PyStr} (clean : 0x0D ∉ s) : universalNewlines s = s := by
  induction s with
  | nil => rfl
  | cons c s ih =>
    rw [List.mem_cons, not_or] at clean
    rw [universalNewlines, ih clean.2]
    · exact fun rest same => absurd same.symm clean.1
    · exact fun same => absurd same.symm clean.1

theorem universalNewlines_append (t : PyStr) {c : Nat} (other : c ≠ 0x0A) (s : PyStr) :
    universalNewlines (t ++ c :: s) = universalNewlines t ++ universalNewlines (c :: s) := by
  fun_induction universalNewlines t with
  | case1 t ih => rw [List.cons_append, List.cons_append, universalNewlines, ih, List.cons_append]
  | case2 t short ih =>
    rw [List.cons_append, List.cons_append, universalNewlines, ih]
    rintro rest same
    cases t with
    | nil => exact other (List.cons.inj same).1
    | cons d t => exact short t (by rw [(List.cons.inj same).1])
  | case3 d t _ _ ih =>
    rw [List.cons_append, List.cons_append, universalNewlines, ih]
    · rintro rest rfl
      simp_all
    · rintro rfl
      simp_all
  | case4 => rfl

theorem universalNewlines_clean (t : PyStr) : 0x0D ∉ universalNewlines t := by
  fun_induction universalNewlines t with
  | case1 t ih => simp [ih]
  | case2 t _ ih => simp [ih]
  | case3 c t _ other ih => simpa [ih] using fun same => other same.symm
  | case4 => simp

theorem mem_universalNewlines {c : Nat} {t : PyStr} (member : c ∈ universalNewlines t) :
    c ∈ t ∨ c = 0x0A := by
  fun_induction universalNewlines t with
  | case1 t ih =>
    rcases List.mem_cons.mp member with rfl | later
    · exact .inr rfl
    · exact (ih later).imp (fun inside => by simp [inside]) id
  | case2 t _ ih =>
    rcases List.mem_cons.mp member with rfl | later
    · exact .inr rfl
    · exact (ih later).imp (List.mem_cons_of_mem _) id
  | case3 d t _ _ ih =>
    rcases List.mem_cons.mp member with rfl | later
    · exact .inl List.mem_cons_self
    · exact (ih later).imp (List.mem_cons_of_mem _) id
  | case4 => cases member

theorem last_tail {c d : Nat} {u : PyStr} (ended : (d :: u).getLast? ≠ some c) : u.getLast? ≠ some c := by
  cases u with
  | nil => simp
  | cons e u => rwa [List.getLast?_cons_cons] at ended

theorem universalNewlines_newline {t : PyStr} (ended : (universalNewlines t).getLast? ≠ some 0x0A) :
    universalNewlines (t ++ [0x0A]) = universalNewlines t ++ [0x0A] := by
  fun_induction universalNewlines t with
  | case1 t ih =>
    rw [List.cons_append, List.cons_append, universalNewlines, ih (last_tail ended), List.cons_append]
  | case2 t short ih =>
    have filled : t ≠ [] := by
      rintro rfl
      exact ended rfl
    obtain ⟨d, u, rfl⟩ := List.exists_cons_of_ne_nil filled
    rw [List.cons_append, universalNewlines, ih (last_tail ended), List.cons_append]
    rintro rest same
    exact short u (by rw [(List.cons.inj same).1])
  | case3 d t pair other ih =>
    rw [List.cons_append, universalNewlines, ih (last_tail ended), List.cons_append]
    · exact fun _ same => absurd same other
    · exact other
  | case4 => rfl

theorem splitlinesFrom_clean {l : PyStr} (clean : ∀ c ∈ l, lineBreak c = false) (line s : PyStr) :
    splitlinesFrom line (l ++ 0x0A :: s) = (line ++ l) :: splitlinesFrom [] s := by
  induction l generalizing line with
  | nil =>
    rw [List.nil_append, splitlinesFrom, if_pos (by decide), List.append_nil]
    simp
  | cons c l ih =>
    have ordinary : lineBreak c = false := clean c List.mem_cons_self
    have rest : ∀ d ∈ l, lineBreak d = false := fun d member => clean d (List.mem_cons_of_mem _ member)
    rw [List.cons_append, splitlinesFrom]
    · rw [ordinary, if_neg (by simp), ih rest]
      simp
    · rintro t rfl
      cases ordinary

theorem splitlinesFrom_newline {u : PyStr} (clean : 0x0D ∉ u) (line s : PyStr) :
    splitlinesFrom line (u ++ 0x0A :: s) = splitlinesFrom line (u ++ [0x0A]) ++ splitlinesFrom [] s := by
  induction u generalizing line with
  | nil =>
    rw [List.nil_append, List.nil_append, splitlinesFrom, splitlinesFrom, if_pos (by decide), if_pos (by decide)]
    · rfl
    all_goals simp
  | cons c u ih =>
    rw [List.mem_cons, not_or] at clean
    rw [List.cons_append, List.cons_append, splitlinesFrom, splitlinesFrom]
    · split
      · rw [ih clean.2, List.cons_append]
      · exact ih clean.2 _
    · exact fun _ same => absurd same.symm clean.1
    · exact fun _ same => absurd same.symm clean.1

theorem mem_splitlinesFrom {c : Nat} {l line u : PyStr} (listed : l ∈ splitlinesFrom line u) (member : c ∈ l) :
    c ∈ line ∨ c ∈ u := by
  fun_induction splitlinesFrom line u with
  | case1 => cases listed
  | case2 line _ =>
    cases List.mem_singleton.mp listed
    exact .inl member
  | case3 line u ih =>
    rcases List.mem_cons.mp listed with rfl | later
    · exact .inl member
    · have inside := (ih later).resolve_left (by simp)
      simp [inside]
  | case4 line d u _ _ ih =>
    rcases List.mem_cons.mp listed with rfl | later
    · exact .inl member
    · exact .inr (List.mem_cons_of_mem _ ((ih later).resolve_left (by simp)))
  | case5 line d u _ _ ih =>
    rcases ih listed with before | after
    · rcases List.mem_append.mp before with old | new
      · exact .inl old
      · exact .inr (List.mem_singleton.mp new ▸ List.mem_cons_self)
    · exact .inr (List.mem_cons_of_mem _ after)

def filledLines (s : PyStr) : List PyStr := (splitlines s).filter fun line => strip line ≠ []

theorem mem_filledLines {c : Nat} {l u : PyStr} (listed : l ∈ filledLines u) (member : c ∈ l) : c ∈ u :=
  (mem_splitlinesFrom (List.mem_of_mem_filter listed) member).resolve_left (by simp)

theorem filledLines_newline {u : PyStr} (clean : 0x0D ∉ u) : filledLines (u ++ [0x0A]) = filledLines u := by
  have same (line : PyStr) : (splitlinesFrom line (u ++ [0x0A])).filter (fun line => strip line ≠ []) =
      (splitlinesFrom line u).filter fun line => strip line ≠ [] := by
    induction u generalizing line with
    | nil =>
      have newline : splitlinesFrom line [0x0A] = [line] := by simp [splitlinesFrom, lineBreak]
      rw [List.nil_append, newline, splitlinesFrom]
      split
      · rename_i empty
        subst empty
        rfl
      · rfl
    | cons c u ih =>
      rw [List.mem_cons, not_or] at clean
      have single : c = 0x0D → False := fun same => clean.1 same.symm
      rw [List.cons_append, splitlinesFrom, splitlinesFrom]
      · split
        · rw [List.filter_cons, List.filter_cons, ih clean.2]
        · exact ih clean.2 _
      · exact fun _ same => absurd same single
      · exact fun _ same => absurd same single
  exact same []

theorem filledLines_row {u row : PyStr} (clean : 0x0D ∉ u) (ended : u = [] ∨ u.getLast? = some 0x0A)
    (single : ∀ c ∈ row, lineBreak c = false) (filled : strip row ≠ []) :
    filledLines (u ++ (row ++ [0x0A])) = filledLines u ++ [row] := by
  have last : splitlinesFrom [] (row ++ [0x0A]) = [row] := by
    rw [splitlinesFrom_clean single, List.nil_append, splitlinesFrom, if_pos rfl]
  rcases ended with rfl | ended
  · rw [List.nil_append, filledLines, splitlines, last]
    simp [filled, filledLines, splitlines, splitlinesFrom]
  · obtain ⟨v, rfl⟩ := List.getLast?_eq_some_iff.mp ended
    have before : 0x0D ∉ v := fun member => clean (List.mem_append_left _ member)
    rw [filledLines, splitlines, List.append_assoc, List.singleton_append, splitlinesFrom_newline before, last,
      List.filter_append]
    simp [filled, filledLines, splitlines]

theorem stripBy_head {p : Nat → Bool} {c : Nat} (kept : p c = false) (s : PyStr) :
    (stripBy p (c :: s)).head? = some c := by
  have reversed : (c :: s).dropWhile p = c :: s := by simp [kept]
  rw [stripBy, reversed, List.head?_reverse, List.reverse_cons, List.dropWhile_append]
  split
  · simp [kept]
  · rw [List.getLast?_append]
    rfl

end PyText
