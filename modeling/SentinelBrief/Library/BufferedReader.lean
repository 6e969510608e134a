import Mathlib.Data.List.Infix

/-!
Reading through a buffer of a fixed size, over a file that may change behind it. The
reader holds what it has read ahead; a read takes that first, passes by the buffer for
as many whole buffers as are still wanted, and fills the buffer for what is then missing.
-/
namespace BufferedReading
variable {α : Type}

structure Reader (α : Type) where
  pos : Nat
  ahead : List α
  deriving DecidableEq, Repr

/-- What reading on from here gives: what was read ahead, then the file behind it. -/
def pending (r : Reader α) (file : List α) : List α :=
  r.ahead ++ file.drop (r.pos + r.ahead.length)

def readAhead (size n : Nat) (file : List α) (r : Reader α) : List α :=
  if n ≤ r.ahead.length then r.ahead.drop n
  else match (n - r.ahead.length) % size with
    | 0 => []
    | last + 1 => (file.drop (r.pos + n)).take (size - (last + 1))

def read (size n : Nat) (file : List α) (r : Reader α) : List α × Reader α :=
  let chunk := (pending r file).take n
  (chunk, ⟨r.pos + chunk.length, readAhead size n file r⟩)

/-- What was read ahead still stands in the file. -/
def Fresh (r : Reader α) (file : List α) : Prop := r.ahead <+: file.drop r.pos

variable {size n : Nat} {file more : List α} {r : Reader α}

theorem read_pos (size n : Nat) (file : List α) (r : Reader α) :
    (read size n file r).2.pos = r.pos + (read size n file r).1.length := rfl

theorem read_length (size n : Nat) (file : List α) (r : Reader α) :
    (read size n file r).1.length ≤ n := List.length_take_le _ _

theorem pending_fresh (fresh : Fresh r file) : pending r file = file.drop r.pos := by
  obtain ⟨behind, split⟩ := fresh
  rw [pending, ← List.drop_drop, ← split, List.drop_left]

theorem pending_length (fresh : Fresh r file) : (pending r file).length ≤ file.length := by
  rw [pending_fresh fresh, List.length_drop]
  exact Nat.sub_le _ _

theorem pending_grow (more : List α) : pending r file <+: pending r (file ++ more) :=
  (List.prefix_append_right_inj _).mpr ((List.prefix_append _ _).drop _)

theorem fresh_grow (fresh : Fresh r file) (more : List α) : Fresh r (file ++ more) :=
  fresh.trans ((List.prefix_append _ _).drop _)

theorem fresh_nil (pos : Nat) (file : List α) : Fresh ⟨pos, []⟩ file := List.nil_prefix

theorem fresh_beyond (size : Nat) (file : List α) (beyond : r.ahead.length < n) :
    Fresh (read size n file r).2 file := by
  have reads : readAhead size n file r <+: file.drop (r.pos + n) := by
    rw [readAhead, if_neg (by omega)]
    split
    · exact List.nil_prefix
    · exact List.take_prefix _ _
  change readAhead size n file r <+: file.drop (r.pos + (read size n file r).1.length)
  rw [read, List.length_take]
  rcases Nat.le_total n (pending r file).length with le | ge
  · rw [min_eq_left le]
    exact reads
  · have ended : file.drop (r.pos + n) = [] := by
      rw [pending, List.length_append, List.length_drop] at ge
      exact List.drop_eq_nil_of_le (by omega)
    rw [ended, List.prefix_nil] at reads
    rw [reads]
    exact List.nil_prefix

/-- Nothing is lost or read twice, also when the file grows after the read. -/
theorem read_pending (size n : Nat) (file more : List α) (r : Reader α) :
    (read size n file r).1 ++ pending (read size n file r).2 (file ++ more) =
      pending r (file ++ more) := by
  by_cases inside : n ≤ r.ahead.length
  · have taken : (read size n file r).1 = r.ahead.take n := by
      rw [read, pending, List.take_append_of_le_length inside]
    have moved : r.pos + (r.ahead.take n).length + (r.ahead.drop n).length =
        r.pos + r.ahead.length := by
      rw [List.length_take, List.length_drop]
      omega
    rw [pending, read_pos, taken]
    change r.ahead.take n ++ (readAhead size n file r ++ (file ++ more).drop
      (r.pos + (r.ahead.take n).length + (readAhead size n file r).length)) = _
    rw [readAhead, if_pos inside, moved, ← List.append_assoc, List.take_append_drop, pending]
  · have beyond : r.ahead.length < n := by omega
    have taken : (read size n file r).1 =
        r.ahead ++ (file.drop (r.pos + r.ahead.length)).take (n - r.ahead.length) := by
      rw [read, pending, List.take_append, List.take_of_length_le beyond.le]
    generalize here : (file.drop (r.pos + r.ahead.length)).take (n - r.ahead.length) = chunk at taken
    have behind : chunk <+: (file ++ more).drop (r.pos + r.ahead.length) := by
      rw [← here]
      exact (List.take_prefix _ _).trans ((List.prefix_append _ _).drop _)
    obtain ⟨later, split⟩ := behind
    rw [pending_fresh (fresh_grow (fresh_beyond size file beyond) more), read_pos, taken,
      List.length_append, ← Nat.add_assoc, ← List.drop_drop, ← split, List.drop_left, pending, ← split,
      List.append_assoc]

theorem read_rest (size n : Nat) (file : List α) (r : Reader α) :
    (read size n file r).1 ++ pending (read size n file r).2 file = pending r file := by
  simpa using read_pending size n file [] r

theorem fresh_read (size n : Nat) (fresh : Fresh r file) :
    Fresh (read size n file r).2 file := by
  by_cases inside : n ≤ r.ahead.length
  · change readAhead size n file r <+: file.drop (r.pos + (read size n file r).1.length)
    rw [readAhead, if_pos inside, read, pending, List.length_take, List.length_append,
      min_eq_left (by omega), ← List.drop_drop]
    exact fresh.drop n
  · exact fresh_beyond size file (by omega)

theorem read_nil (size : Nat) (wants : 0 < n) (none : (read size n file r).1 = []) :
    pending r file = [] := by
  rcases List.take_eq_nil_iff.mp none with zero | empty
  · omega
  · exact empty

end BufferedReading
