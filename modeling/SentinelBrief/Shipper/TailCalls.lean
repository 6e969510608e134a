import SentinelBrief.Shipper.TailDrain
import SentinelBrief.Shipper.TailState

/-!
`read_new_lines` call by call. A call that has a file open is a drain followed
by closing and committing; a call without one opens the path first. A call
during which nothing is written returns. Between calls `Settled` says where
the tailer stands in its file.
-/
namespace ShipperTail
open SeparatedLines Utf8Text BufferedReading

@[simp] theorem setContent_entry (disk : Disk) (i : Nat) (c : Bytes) :
    (disk.setContent i c).entry = disk.entry := rfl

@[simp] theorem setContent_stateFile (disk : Disk) (i : Nat) (c : Bytes) :
    (disk.setContent i c).stateFile = disk.stateFile := rfl

@[simp] theorem setContent_same (disk : Disk) (i : Nat) (c : Bytes) :
    (disk.setContent i c).content i = c := by
  simp [Disk.setContent]

theorem setContent_other (disk : Disk) {i j : Nat} (c : Bytes) (ne : j ≠ i) :
    (disk.setContent i c).content j = disk.content j := by
  simp [Disk.setContent, ne]

section
variable {cfg : TailConfig} {growth : List Bytes} {base : Nat} {done front : List Bytes}
  {left added : Bytes} {f f' : OpenFile} {disk disk' : Disk} {t t' : LogTailer}

theorem drained_content {r : Except Raised (List PyStr)}
    (out : Drained cfg growth base done front left added f f' disk disk' t t' r) :
    disk'.content f.inode = disk.content f.inode ++ added := by
  rw [out.after, setContent_same]

theorem drained_decoded {lines : List PyStr}
    (out : Drained cfg growth base done front left added f f' disk disk' t t' (.ok lines)) :
    (usable cfg.maxLineBytes front).mapM decode = some lines := by
  have outcome := out.outcome
  split at outcome
  · cases outcome
  · rename_i found
    cases outcome
    exact found

end

def settleCall (persist rotated : Bool) (t : LogTailer) (disk : Disk) : LogTailer × Disk :=
  let t := if rotated && t.atEof then t.closeFile else t
  if persist then commitOffset t disk else (t, disk)

theorem finishCall_eq (persist : Bool) (lines : List PyStr) (t : LogTailer) (disk : Disk) :
    finishCall persist lines t disk =
      (.ok lines, if persist then commitOffset t disk else (t, disk)) := by
  cases persist <;> rfl

theorem readNewLines_open {cfg : TailConfig} {persist : Bool} {growth : List Bytes}
    {disk disk' : Disk} {t t' : LogTailer} {f : OpenFile} {r : Except Raised (List PyStr)}
    (file : t.file = some f)
    (call : readNewLines cfg persist growth disk t = some (r, t', disk')) :
    ∃ t₁ disk₁, drainOpenFile cfg growth f disk (statInode disk t).2 = some (r, t₁, disk₁) ∧
      ((∃ e, r = .error e ∧ t' = t₁ ∧ disk' = disk₁) ∨
        ∃ lines, r = .ok lines ∧
          (t', disk') = settleCall persist ((statInode disk t).1 ≠ t.inode) t₁ disk₁) := by
  simp only [readNewLines, file] at call
  cases drained : drainOpenFile cfg growth f disk (statInode disk t).2 with
  | none =>
    simp only [drained] at call
    split at call <;> cases call
  | some out =>
    obtain ⟨r₁, t₁, disk₁⟩ := out
    simp only [drained] at call
    cases r₁ with
    | error e =>
      have same : (r, t', disk') = (.error e, t₁, disk₁) := by
        split at call <;> cases call <;> rfl
      simp only [Prod.mk.injEq] at same
      obtain ⟨rfl, rfl, rfl⟩ := same
      exact ⟨t', disk', rfl, .inl ⟨e, rfl, rfl, rfl⟩⟩
    | ok lines =>
      refine ⟨t₁, disk₁, ?_⟩
      by_cases rotated : (statInode disk t).1 ≠ t.inode
      · rw [if_pos rotated, Option.some.injEq, finishCall_eq, Prod.mk.injEq] at call
        obtain ⟨rfl, after⟩ := call
        exact ⟨rfl, .inr ⟨lines, rfl, by simp [settleCall, rotated, ← after]⟩⟩
      · rw [if_neg rotated, Option.some.injEq, finishCall_eq, Prod.mk.injEq] at call
        obtain ⟨rfl, after⟩ := call
        exact ⟨rfl, .inr ⟨lines, rfl, by simp [settleCall, rotated, ← after]⟩⟩

theorem readNewLines_closed {cfg : TailConfig} {persist : Bool} {growth : List Bytes}
    {disk disk' : Disk} {t t' : LogTailer} {r : Except Raised (List PyStr)}
    (file : t.file = none)
    (call : readNewLines cfg persist growth disk t = some (r, t', disk')) :
    (∃ e, openAtSavedOffset cfg disk t = .raised e ∧ r = .error e ∧ t' = t ∧ disk' = disk) ∨
    (∃ errno, openAtSavedOffset cfg disk t = .osError errno ∧ r = .ok [] ∧ disk' = disk ∧
      t' = if errno = enoent then t else warnOncePerErrno errno t) ∨
    ∃ t₀ f t₁ disk₁, openAtSavedOffset cfg disk t = .opened t₀ ∧ t₀.file = some f ∧
      drainOpenFile cfg growth f disk { t₀ with lastOpenErrno := none } = some (r, t₁, disk₁) ∧
      ((∃ e, r = .error e ∧ t' = t₁ ∧ disk' = disk₁) ∨
        ∃ lines, r = .ok lines ∧ (t', disk') = settleCall persist false t₁ disk₁) := by
  simp only [readNewLines, file] at call
  cases opening : openAtSavedOffset cfg disk t with
  | raised e =>
    simp only [opening] at call
    cases call
    exact .inl ⟨e, rfl, rfl, rfl, rfl⟩
  | osError errno =>
    simp only [opening] at call
    cases call
    exact .inr (.inl ⟨errno, rfl, rfl, rfl, rfl⟩)
  | opened t₀ =>
    simp only [opening] at call
    obtain ⟨file₀, inode, buffer, errno, pending, atEof, dropping, dropped⟩ := t₀
    cases file₀ with
    | none => cases call
    | some f =>
      simp only at call
      cases drained : drainOpenFile cfg growth f disk
          ⟨some f, inode, buffer, none, pending, atEof, dropping, dropped⟩ with
      | none =>
        simp only [drained] at call
        cases call
      | some out =>
        obtain ⟨r₁, t₁, disk₁⟩ := out
        simp only [drained] at call
        cases r₁ with
        | error e =>
          cases call
          exact .inr (.inr ⟨_, f, _, _, rfl, rfl, drained, .inl ⟨e, rfl, rfl, rfl⟩⟩)
        | ok lines =>
          simp only [Option.some.injEq, finishCall_eq, Prod.mk.injEq] at call
          obtain ⟨rfl, after⟩ := call
          exact .inr (.inr ⟨_, f, t₁, disk₁, rfl, rfl, drained,
            .inr ⟨lines, rfl, by simp [settleCall, ← after]⟩⟩)

variable {cfg : TailConfig}

theorem statInode_frame (disk : Disk) (t : LogTailer) :
    ∃ errno, (statInode disk t).2 = { t with lastOpenErrno := errno } := by
  unfold statInode
  split
  · exact ⟨t.lastOpenErrno, rfl⟩
  · exact ⟨_, rfl⟩
  · exact ⟨_, rfl⟩

theorem statInode_eq {disk : Disk} {t : LogTailer} {f : OpenFile} (inode : t.inode = some f.inode) :
    (statInode disk t).1 ≠ t.inode ↔ disk.entry ≠ .file f.inode := by
  unfold statInode
  split <;> rename_i entry <;> simp [inode, entry]

theorem drainLoop_returns (cfg : TailConfig) (k : Nat) {d : Drain}
    (enough : (pending d.toReader d.content).length < k) :
    ∃ d', drainLoop cfg (List.replicate k []) d = some d' := by
  induction k generalizing d with
  | zero => omega
  | succ k ih =>
    simp only [List.replicate_succ, drainLoop, List.append_nil]
    split
    · split
      · exact ⟨_, rfl⟩
      · rename_i some
        obtain ⟨reader, content, _, _⟩ := takeChunk_frame cfg (readChunk cfg d).1 (readChunk cfg d).2
        have size : 0 < (readChunk cfg d).1.length := by
          rw [List.length_pos_iff]
          simpa using some
        have shorter : (readChunk cfg d).1 ++ pending (readChunk cfg d).2.toReader d.content =
            pending d.toReader d.content := read_rest ..
        apply ih
        rw [reader, content]
        change (pending (readChunk cfg d).2.toReader d.content).length < k
        rw [← shorter, List.length_append] at enough
        omega
    · exact ⟨_, rfl⟩

theorem drainOpenFile_returns (cfg : TailConfig) {k : Nat} {f : OpenFile} {disk : Disk} (t : LogTailer)
    (enough : (pending f.toReader (disk.content f.inode)).length < k) :
    ∃ out, drainOpenFile cfg (List.replicate k []) f disk t = some out := by
  obtain ⟨d, loop⟩ := drainLoop_returns cfg (d := beginDrain disk f t) k
    enough
  simp only [drainOpenFile, loop]
  split <;> exact ⟨_, rfl⟩

theorem openAtSavedOffset_opened {disk : Disk} {t t₀ : LogTailer}
    (opened : openAtSavedOffset cfg disk t = .opened t₀) :
    ∃ inode target state, disk.entry = .file inode ∧
      t₀ = { t with file := some ⟨⟨target, []⟩, inode⟩, inode := some inode } ∧
      loadState cfg disk.stateFile = .ok state ∧
      (target : Int) = seekTarget state inode (disk.content inode).length := by
  unfold openAtSavedOffset at opened
  split at opened
  · cases opened
  · cases opened
  · rename_i inode entry
    split at opened
    · cases opened
    · rename_i state loaded
      simp only at opened
      split at opened
      · cases opened
      · split at opened
        · cases opened
        · cases opened
          exact ⟨inode, _, state, entry, rfl, loaded, Int.toNat_of_nonneg (by omega)⟩

theorem readNewLines_returns (cfg : TailConfig) {k : Nat} {disk : Disk} (persist : Bool)
    (t : LogTailer)
    (held : ∀ f, t.file = some f → (pending f.toReader (disk.content f.inode)).length < k)
    (named : ∀ i, disk.entry = .file i → (disk.content i).length < k) :
    ∃ out, readNewLines cfg persist (List.replicate k []) disk t = some out := by
  unfold readNewLines
  split
  · rename_i f file
    obtain ⟨⟨r, out⟩, drained⟩ := drainOpenFile_returns cfg (statInode disk t).2
      (held f file)
    simp only [drained]
    cases r <;> split <;> exact ⟨_, rfl⟩
  · split
    · exact ⟨_, rfl⟩
    · exact ⟨_, rfl⟩
    · rename_i t₀ opened
      obtain ⟨inode, target, _, entry, rfl, _⟩ := openAtSavedOffset_opened opened
      obtain ⟨⟨r, out⟩, drained⟩ := drainOpenFile_returns cfg
        { t with file := some ⟨⟨target, []⟩, inode⟩, inode := some inode, lastOpenErrno := none }
        ((pending_length (fresh_nil target _)).trans_lt (named inode entry))
        (f := ⟨⟨target, []⟩, inode⟩)
      simp only [drained]
      cases r <;> exact ⟨_, rfl⟩

theorem drainLoop_quiet {growth : List Bytes} {d d' : Drain} (quiet : growth.flatten = [])
    (done : drainLoop cfg growth d = some d') : d'.content = d.content := by
  induction growth generalizing d with
  | nil =>
    simp only [drainLoop] at done
    split at done <;> cases done
    rfl
  | cons g gs ih =>
    simp only [List.flatten_cons, List.append_eq_nil_iff] at quiet
    obtain ⟨rfl, quiet⟩ := quiet
    simp only [drainLoop, List.append_nil] at done
    split at done
    · split at done
      · cases done
        rfl
      · rw [ih quiet done, (takeChunk_frame cfg _ _).2.1]
        rfl
    · cases done
      rfl

theorem drainOpenFile_quiet {growth : List Bytes} {f : OpenFile} {disk disk' : Disk}
    {t t' : LogTailer} {r : Except Raised (List PyStr)} (quiet : growth.flatten = [])
    (call : drainOpenFile cfg growth f disk t = some (r, t', disk')) :
    disk'.content = disk.content ∧ disk'.entry = disk.entry := by
  simp only [drainOpenFile] at call
  cases loop : drainLoop cfg growth (beginDrain disk f t) with
  | none => simp [loop] at call
  | some d =>
    have content : d.content = disk.content f.inode := drainLoop_quiet quiet loop
    have after : disk' = disk.setContent f.inode d.content := by
      simp only [loop] at call
      split at call <;> cases call <;> rfl
    rw [after, content]
    exact ⟨Function.update_eq_self _ _, rfl⟩

theorem settleCall_disk (persist rotated : Bool) (t : LogTailer) (disk : Disk) :
    (settleCall persist rotated t disk).2.content = disk.content ∧
    (settleCall persist rotated t disk).2.entry = disk.entry := by
  cases persist with
  | false => exact ⟨rfl, rfl⟩
  | true =>
    simp only [settleCall, if_true, commitOffset]
    split <;> exact ⟨rfl, rfl⟩

section
variable {persist rotated : Bool} {t₁ t' : LogTailer} {disk₁ disk' : Disk} {r : Except Raised (List PyStr)}

theorem ended_keeps {P : LogTailer → Disk → Prop}
    (ended : (∃ e, r = .error e ∧ t' = t₁ ∧ disk' = disk₁) ∨
      ∃ lines, r = .ok lines ∧ (t', disk') = settleCall persist rotated t₁ disk₁)
    (drained : P t₁ disk₁)
    (settled : P (settleCall persist rotated t₁ disk₁).1 (settleCall persist rotated t₁ disk₁).2) :
    P t' disk' := by
  rcases ended with ⟨e, _, rfl, rfl⟩ | ⟨lines, _, eq⟩
  · exact drained
  · rwa [← eq] at settled

theorem ended_disk
    (ended : (∃ e, r = .error e ∧ t' = t₁ ∧ disk' = disk₁) ∨
      ∃ lines, r = .ok lines ∧ (t', disk') = settleCall persist rotated t₁ disk₁) :
    disk'.content = disk₁.content ∧ disk'.entry = disk₁.entry :=
  ended_keeps (P := fun _ disk => disk.content = disk₁.content ∧ disk.entry = disk₁.entry) ended ⟨rfl, rfl⟩
    (settleCall_disk persist rotated t₁ disk₁)

end

theorem readNewLines_quiet {persist : Bool} {growth : List Bytes} {disk disk' : Disk}
    {t t' : LogTailer} {r : Except Raised (List PyStr)} (quiet : growth.flatten = [])
    (call : readNewLines cfg persist growth disk t = some (r, t', disk')) :
    disk'.content = disk.content ∧ disk'.entry = disk.entry := by
  cases file : t.file with
  | some f =>
    obtain ⟨t₁, disk₁, drained, ended⟩ := readNewLines_open file call
    obtain ⟨content, entry⟩ := ended_disk ended
    obtain ⟨same, still⟩ := drainOpenFile_quiet quiet drained
    exact ⟨content.trans same, entry.trans still⟩
  | none =>
    obtain ⟨_, _, _, _, rfl⟩ | ⟨_, _, _, rfl, _⟩ | ⟨_, _, _, _, _, _, drained, ended⟩ :=
      readNewLines_closed file call
    · exact ⟨rfl, rfl⟩
    · exact ⟨rfl, rfl⟩
    · obtain ⟨content, entry⟩ := ended_disk ended
      obtain ⟨same, still⟩ := drainOpenFile_quiet quiet drained
      exact ⟨content.trans same, entry.trans still⟩

variable {content : Bytes} {base : Nat} {done : List Bytes} {left buffer : Bytes}
  {reader : Reader UInt8} {dropping : Option Nat}

theorem settled_length (inv : Settled cfg content base done left reader buffer dropping) :
    reader.pos = base + (unlines newline done).length + left.length ∧ buffer.length ≤ left.length := by
  have read := congrArg List.length inv.read
  have := inv.from_base
  have := inv.within
  simp only [List.length_append, List.length_take] at read
  refine ⟨by omega, ?_⟩
  cases state : dropping with
  | none => rw [(inv.whole state).1]
  | some n => rw [(inv.lost n state).1]; simp

/-- From the start of the process on, the file is what was dealt with, what is left of the bytes
    read, and what is ahead. -/
theorem settled_parts (inv : Settled cfg content base done left reader buffer dropping)
    (more : Bytes) : (content ++ more).drop base =
      unlines newline done ++ (left ++ (content ++ more).drop reader.pos) := by
  have inside : base ≤ content.length := inv.from_base.trans inv.within
  have front : (content.take base).length = base := by simp [inside]
  have whole := List.take_append_drop reader.pos (content ++ more)
  rw [List.take_append_of_le_length inv.within, inv.read] at whole
  conv => lhs; rw [← whole]
  rw [List.append_assoc, List.append_assoc, List.drop_append_of_le_length (by omega),
    List.drop_eq_nil_of_le (by omega), List.nil_append]

theorem settled_done (inv : Settled cfg content base done left reader buffer dropping) :
    done <+: complete newline (content.drop base) := by
  have parts := settled_parts inv []
  rw [List.append_nil] at parts
  rw [parts, complete_unlines _ _ inv.lines]
  exact List.prefix_append _ _

theorem settled_eof (inv : Settled cfg content base done left reader buffer dropping)
    (ended : reader.pos = content.length) (none : newline ∉ left) :
    complete newline (content.drop base) = done ∧ rest newline (content.drop base) = left := by
  have parts := settled_parts inv []
  rw [List.append_nil, ended, List.drop_length, List.append_nil] at parts
  rw [parts, complete_unlines _ _ inv.lines, rest_unlines _ _ inv.lines, complete_free _ none,
    rest_free _ none]
  simp

theorem settled_start (cfg : TailConfig) (inside : base ≤ content.length) :
    Settled cfg content base [] [] ⟨base, []⟩ [] none where
  read := by simp
  from_base := Nat.le_refl _
  within := inside
  lines := by simp
  whole _ := by simp
  lost n eq := by cases eq
  fresh := fresh_nil base content

theorem settled_grow (inv : Settled cfg content base done left reader buffer dropping) (more : Bytes) :
    Settled cfg (content ++ more) base done left reader buffer dropping where
  read := by
    rw [List.take_append_of_le_length inv.within,
      List.take_append_of_le_length (inv.from_base.trans inv.within)]
    exact inv.read
  from_base := inv.from_base
  within := by
    have := inv.within
    rw [List.length_append]
    omega
  lines := inv.lines
  whole := inv.whole
  lost := inv.lost
  fresh := fresh_grow inv.fresh more

theorem decode_lines {stream : Bytes} (valid : (decode stream).isSome) (le : content <+: stream) :
    ∀ l ∈ complete newline content, (decode l).isSome := by
  have all : ∀ ls : List Bytes, ∀ tail, (decode (unlines newline ls ++ tail)).isSome →
      ∀ l ∈ ls, (decode l).isSome := by
    intro ls
    induction ls with
    | nil => simp
    | cons m ls ih =>
      intro tail some
      rw [unlines_cons, List.append_assoc, List.cons_append] at some
      obtain ⟨head, later⟩ := decode_ascii_split (by decide) _ m 0 0 0 0 (by omega) some
      intro l member
      rcases List.mem_cons.mp member with rfl | member
      · exact head
      · exact ih tail later l member
  intro l member
  obtain ⟨more, rfl⟩ := le
  rw [← unlines_rest (c := newline) content, List.append_assoc] at valid
  exact all _ _ valid l member

theorem mapM_decode_isSome {ls : List Bytes} (valid : ∀ l ∈ ls, (decode l).isSome) :
    ∃ lines, ls.mapM decode = some lines := by
  induction ls with
  | nil => exact ⟨[], rfl⟩
  | cons l ls ih =>
    obtain ⟨x, eq⟩ := Option.isSome_iff_exists.mp (valid l (by simp))
    obtain ⟨xs, later⟩ := ih fun m member => valid m (by simp [member])
    exact ⟨x :: xs, by simp [eq, later]⟩

end ShipperTail
