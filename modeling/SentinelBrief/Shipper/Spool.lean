import SentinelBrief.Library.Decimal

/-!
`Spool` (`spool.py`) and `Poster.post` (`post.py`). The directory is the list
of its `*.json` entries; `digest` stands for the first eight hexadecimal digits
of the payload's SHA-256, which only have to make a name.
-/
namespace ShipperSpool
open Utf8Text FixedDecimal

structure SpoolFile where
  name : PyStr
  payload : Bytes
  deriving DecidableEq, Repr

structure Spool where
  files : List SpoolFile := []
  deadDir : List SpoolFile := []
  deriving Repr

/-- `SHIPPER_SPOOL_MAX_FILES`, positive. -/
structure SpoolConfig where
  maxFiles : Nat
  digest : Bytes → PyStr
  files_pos : 0 < maxFiles

def Spool.pending (s : Spool) : List SpoolFile :=
  s.files.insertionSort fun f g => f.name ≤ g.name

/-- What `time.time_ns()` returns fits 63 bits. -/
def clockLimit : Nat := 2 ^ 63

def spoolName (cfg : SpoolConfig) (now : Nat) (payload : Bytes) : PyStr :=
  padded 20 now ++ str "-" ++ cfg.digest payload ++ str ".json"

def Spool.unlink (s : Spool) (name : PyStr) : Spool :=
  { s with files := s.files.filter fun f => f.name ≠ name }

def Spool.evicted (cfg : SpoolConfig) (s : Spool) : Option SpoolFile :=
  if cfg.maxFiles ≤ s.pending.length then s.pending.head? else none

def Spool.put (cfg : SpoolConfig) (now : Nat) (payload : Bytes) (s : Spool) : Spool :=
  let s := match s.evicted cfg with
    | some oldest => s.unlink oldest.name
    | none => s
  let name := spoolName cfg now payload
  let s := s.unlink name
  { s with files := s.files ++ [⟨name, payload⟩] }

def Spool.remove (f : SpoolFile) (s : Spool) : Spool := s.unlink f.name

def Spool.dead (f : SpoolFile) (s : Spool) : Spool :=
  { s.unlink f.name with deadDir := s.deadDir.filter (fun g => g.name ≠ f.name) ++ [f] }

structure PostResult where
  status : Option Nat
  retry : Bool
  deriving DecidableEq, Repr

def retryableStatuses : List Nat := [408, 425, 429]

/-- `Poster.post`: the answer's status, or none when the transport failed. -/
def post (answer : Option Nat) : PostResult :=
  match answer with
  | none => ⟨none, true⟩
  | some status =>
    if status = 200 ∨ status = 202 then ⟨some status, false⟩
    else if status ∈ retryableStatuses ∨ 500 ≤ status then ⟨some status, true⟩
    else ⟨some status, false⟩

theorem spoolName_lt (cfg : SpoolConfig) {t u : Nat} (lt : t < u) (small : u < clockLimit)
    (p q : Bytes) : spoolName cfg t p < spoolName cfg u q := by
  simp only [spoolName, List.append_assoc]
  refine padded_lt lt (Nat.lt_trans small ?_) _ _
  decide

def Spool.Ordered (s : Spool) : Prop := s.files.Pairwise fun f g => f.name < g.name

theorem pending_eq {s : Spool} (ordered : s.Ordered) : s.pending = s.files := by
  apply List.Pairwise.insertionSort_eq
  exact ordered.imp fun lt => le_of_lt lt

theorem name_ne {a b : PyStr} (lt : a < b) : a ≠ b := by
  rintro rfl
  exact lt_irrefl a lt

theorem put_files {cfg : SpoolConfig} {s : Spool} {now : Nat} (payload : Bytes)
    (ordered : s.Ordered) (later : ∀ f ∈ s.files, f.name < spoolName cfg now payload) :
    (s.put cfg now payload).files =
      (if cfg.maxFiles ≤ s.files.length then s.files.tail else s.files) ++
        [⟨spoolName cfg now payload, payload⟩] ∧
    (s.put cfg now payload).deadDir = s.deadDir ∧
    s.evicted cfg = if cfg.maxFiles ≤ s.files.length then s.files.head? else none := by
  have fresh : ∀ fs : List SpoolFile, fs.Sublist s.files →
      fs.filter (fun f => f.name ≠ spoolName cfg now payload) = fs := by
    intro fs sub
    rw [List.filter_eq_self]
    intro f member
    simpa using name_ne (later f (sub.subset member))
  have gone : s.evicted cfg = if cfg.maxFiles ≤ s.files.length then s.files.head? else none := by
    rw [Spool.evicted, pending_eq ordered]
  refine ⟨?_, ?_, gone⟩
  · simp only [Spool.put, gone]
    by_cases full : cfg.maxFiles ≤ s.files.length
    · have positive := cfg.files_pos
      cases files : s.files with
      | nil =>
        rw [files, List.length_nil] at full
        omega
      | cons f fs =>
        rw [if_pos (files ▸ full), if_pos (files ▸ full)]
        have apart : fs.filter (fun g => g.name ≠ f.name) = fs := by
          rw [List.filter_eq_self]
          intro g member
          have before := ordered
          rw [Spool.Ordered, files, List.pairwise_cons] at before
          simpa using (name_ne (before.1 g member)).symm
        simp only [List.head?_cons, Spool.unlink, files, List.tail_cons]
        rw [List.filter_cons_of_neg (by simp), apart,
          fresh fs (by rw [files]; exact List.sublist_cons_self _ _)]
    · rw [if_neg full, if_neg full]
      simp only [Spool.unlink]
      rw [fresh _ (List.Sublist.refl _)]
  · simp only [Spool.put]
    split <;> rfl

end ShipperSpool
