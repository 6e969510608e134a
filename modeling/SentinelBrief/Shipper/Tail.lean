import Mathlib.Algebra.GroupWithZero.Nat
import Mathlib.Logic.Function.Basic
import SentinelBrief.Library.BufferedReader
import SentinelBrief.Library.JsonRoundTrip
import SentinelBrief.Library.Lines
import SentinelBrief.Library.PyInt

/-!
`LogTailer` (`sentinelbrief_shipper/tail.py`). A call sees the open file grow
while it reads: its schedule lists the bytes appended before each `read`. A
schedule that is too short for the call gives no result; what is left of a
longer one was not appended during the call, and a file that grows within one
`read` is taken to have grown before it. Log records are left out, the counter
they print is kept.
-/
namespace ShipperTail
open SeparatedLines Utf8Text JsonText PyIntText BufferedReading

def newline : UInt8 := 0x0A

/-- `SHIPPER_READ_CHUNK_BYTES` and `SHIPPER_MAX_BATCH_LINES`, positive since
    `ShipperConfig.from_env` refuses others, the buffer that `open` gives a file, and the
    interpreter's nesting limit. -/
structure TailConfig where
  readChunkBytes : Nat
  maxBatchLines : Nat
  bufferBytes : Nat
  recursionLimit : Nat
  chunk_pos : 0 < readChunkBytes
  batch_pos : 0 < maxBatchLines
  limit_pos : 0 < recursionLimit

def maxLineBytesFactor : Nat := 4

def TailConfig.maxLineBytes (cfg : TailConfig) : Nat := maxLineBytesFactor * cfg.readChunkBytes

structure TailState where
  inode : Int
  offset : Int
  deriving DecidableEq, Repr

inductive Raised where
  | unicodeDecodeError
  | typeError
  | overflowError
  | valueError
  | recursionError
  deriving DecidableEq, Repr

inductive PathEntry where
  | missing
  | denied (errno : Int)
  | file (inode : Nat)
  deriving DecidableEq, Repr

structure Disk where
  entry : PathEntry
  content : Nat → Bytes
  stateFile : Option Bytes

structure OpenFile extends Reader UInt8 where
  inode : Nat
  deriving DecidableEq, Repr

structure LogTailer where
  file : Option OpenFile := none
  inode : Option Nat := none
  buffer : Bytes := []
  lastOpenErrno : Option Int := none
  pendingState : Option TailState := none
  atEof : Bool := false
  droppingBytes : Option Nat := none
  droppedLines : Nat := 0
  deriving DecidableEq, Repr

/-- What `_drain_open_file` works on: the open file, the fields it changes and
    its local count of dropped bytes. -/
structure Drain extends Reader UInt8 where
  content : Bytes
  buffer : Bytes
  droppingBytes : Option Nat
  droppedLines : Nat
  droppedBytes : Nat
  atEof : Bool
  deriving DecidableEq, Repr

def warnOversizeLine (d : Drain) : Drain := { d with droppedLines := d.droppedLines + 1 }

/-- The chunk without its share of a line being dropped, and the size of that share. -/
def skipDroppedLine (chunk : Bytes) (d : Drain) : Bytes × Nat × Drain :=
  match d.droppingBytes with
  | none => (chunk, 0, d)
  | some n => match chunk.findIdx? (· == newline) with
    | none => ([], chunk.length, { d with droppingBytes := some (n + chunk.length) })
    | some i => (chunk.drop (i + 1), i + 1, warnOversizeLine { d with droppingBytes := none })

/-- `buffer.rfind(b"\n") + 1`. -/
def partialStart (buffer : Bytes) : Nat := buffer.length - (rest newline buffer).length

def dropOversizePartial (cfg : TailConfig) (d : Drain) : Nat × Drain :=
  let partialLen := d.buffer.length - partialStart d.buffer
  if partialLen ≤ cfg.maxLineBytes then (0, d)
  else (partialLen, { d with buffer := d.buffer.take (partialStart d.buffer),
                             droppingBytes := some partialLen })

def takeChunk (cfg : TailConfig) (chunk : Bytes) (d : Drain) : Drain :=
  let skipped := skipDroppedLine chunk d
  let d := skipped.2.2
  let d := { d with droppedBytes := d.droppedBytes + skipped.2.1, buffer := d.buffer ++ skipped.1 }
  let cutOff := dropOversizePartial cfg d
  { cutOff.2 with droppedBytes := cutOff.2.droppedBytes + cutOff.1 }

/-- `file.read(read_chunk_bytes)`. -/
def readChunk (cfg : TailConfig) (d : Drain) : Bytes × Drain :=
  let found := read cfg.bufferBytes cfg.readChunkBytes d.content d.toReader
  (found.1, { d with toReader := found.2 })

def drainLoop (cfg : TailConfig) : List Bytes → Drain → Option Drain
  | [], d => if d.buffer.count newline < cfg.maxBatchLines then none else some d
  | g :: gs, d =>
    if d.buffer.count newline < cfg.maxBatchLines then
      let found := readChunk cfg { d with content := d.content ++ g }
      if found.1.isEmpty then some { found.2 with atEof := true }
      else drainLoop cfg gs (takeChunk cfg found.1 found.2)
    else some d

def keptParts (cfg : TailConfig) (d : Drain) : List Bytes :=
  (complete newline d.buffer).filter fun part => part.length ≤ cfg.maxLineBytes

def oversizeParts (cfg : TailConfig) (d : Drain) : List Bytes :=
  (complete newline d.buffer).filter fun part => cfg.maxLineBytes < part.length

def splitBuffer (cfg : TailConfig) (d : Drain) : List Bytes × Drain :=
  let oversize := oversizeParts cfg d
  let heldBack := (keptParts cfg d).drop cfg.maxBatchLines
  ((keptParts cfg d).take cfg.maxBatchLines,
    { d with droppedBytes := d.droppedBytes + (oversize.map fun part => part.length + 1).sum,
             droppedLines := d.droppedLines + oversize.length,
             buffer := unlines newline heldBack ++ rest newline d.buffer })

def beginDrain (disk : Disk) (f : OpenFile) (t : LogTailer) : Drain :=
  { toReader := f.toReader, content := disk.content f.inode, buffer := t.buffer,
    droppingBytes := t.droppingBytes, droppedLines := t.droppedLines, droppedBytes := 0,
    atEof := false }

def LogTailer.afterDrain (t : LogTailer) (f : OpenFile) (d : Drain) : LogTailer :=
  { t with file := some { f with toReader := d.toReader }, buffer := d.buffer, atEof := d.atEof,
           droppingBytes := d.droppingBytes, droppedLines := d.droppedLines }

def Disk.setContent (disk : Disk) (inode : Nat) (content : Bytes) : Disk :=
  { disk with content := Function.update disk.content inode content }

/-- The position that covers what was handed out, kept until it is committed. -/
def LogTailer.setPending (t : LogTailer) (d : Drain) : LogTailer :=
  let state : TailState :=
    { inode := (t.inode.getD 0 : Nat), offset := (d.pos : Int) - d.buffer.length }
  { t with pendingState := some state }

/-- `_drain_open_file`. The buffer is rewritten before the lines are decoded, the
    position only after. -/
def drainOpenFile (cfg : TailConfig) (growth : List Bytes) (f : OpenFile) (disk : Disk)
    (t : LogTailer) : Option (Except Raised (List PyStr) × LogTailer × Disk) :=
  match drainLoop cfg growth (beginDrain disk f t) with
  | none => none
  | some d =>
    let handed := splitBuffer cfg d
    let t := t.afterDrain f handed.2
    let disk := disk.setContent f.inode d.content
    match handed.1.mapM decode with
    | none => some (.error .unicodeDecodeError, t, disk)
    | some lines =>
      some (.ok lines,
        if lines ≠ [] ∨ handed.2.droppedBytes ≠ 0 then t.setPending handed.2 else t, disk)

/-- `int(value)` of a JSON value; inner `none` is `ValueError`. -/
def intOfJson : Json → Except Raised (Option Int)
  | .int i => .ok (some i)
  | .bool b => .ok (some (if b then 1 else 0))
  | .float .nan => .ok none
  | .float (.inf _) => .error .overflowError
  | .float f => .ok (DoubleText.truncate f)
  | .str s => .ok (pyInt s)
  | _ => .error .typeError

/-- `int(data[key])`; inner `none` is `KeyError` or `ValueError`. -/
def intField (key : PyStr) : Json → Except Raised (Option Int)
  | .obj fs => match Json.get? key (.obj fs) with
    | some v => intOfJson v
    | none => .ok none
  | _ => .error .typeError

def stateOfJson (data : Json) : Except Raised (Option TailState) :=
  match intField (str "inode") data with
  | .error e => .error e
  | .ok none => .ok none
  | .ok (some inode) => match intField (str "offset") data with
    | .error e => .error e
    | .ok none => .ok none
    | .ok (some offset) => .ok (some { inode := inode, offset := offset })

def loadState (cfg : TailConfig) (stateFile : Option Bytes) : Except Raised (Option TailState) :=
  match stateFile with
  | none => .ok none
  | some bytes => match decode bytes with
    | none => .ok none
    | some text => match loads cfg.recursionLimit text with
      | .error .recursion => .error .recursionError
      | .error _ => .ok none
      | .ok data => stateOfJson data

inductive Opened where
  | opened (t : LogTailer)
  | osError (errno : Int)
  | raised (e : Raised)

def enoent : Int := 2

def einval : Int := 22

/-- The smallest value that fits a C `off_t`. -/
def offTMin : Int := -9223372036854775808

/-- Where to start reading: a position saved for this file that lies within it, else its start. -/
def seekTarget (state : Option TailState) (inode size : Nat) : Int :=
  match state with
  | some st => if st.inode = inode then (if st.offset ≤ size then st.offset else 0) else 0
  | none => 0

/-- `_open_at_saved_offset`. A negative offset is refused by `lseek` or, past the
    range of `off_t`, by the conversion in front of it. -/
def openAtSavedOffset (cfg : TailConfig) (disk : Disk) (t : LogTailer) : Opened :=
  match disk.entry with
  | .missing => .osError enoent
  | .denied errno => .osError errno
  | .file inode => match loadState cfg disk.stateFile with
    | .error e => .raised e
    | .ok state =>
      let target := seekTarget state inode (disk.content inode).length
      if target < offTMin then .raised .valueError
      else if target < 0 then .osError einval
      else .opened { t with file := some { inode := inode, pos := target.toNat, ahead := [] },
                            inode := some inode }

def stateText (st : TailState) : PyStr :=
  0x7B :: quote (str "inode") ++ [0x3A, 0x20] ++ intText st.inode ++ [0x2C, 0x20] ++
    quote (str "offset") ++ [0x3A, 0x20] ++ intText st.offset ++ [0x7D]

def persistState (st : TailState) (disk : Disk) : Disk :=
  { disk with stateFile := some ((stateText st).flatMap encodePoint) }

def commitOffset (t : LogTailer) (disk : Disk) : LogTailer × Disk :=
  match t.pendingState with
  | none => (t, disk)
  | some st => ({ t with pendingState := none }, persistState st disk)

/-- `_warn_once_per_errno`, up to the log record. -/
def warnOncePerErrno (errno : Int) (t : LogTailer) : LogTailer :=
  { t with lastOpenErrno := some errno }

/-- `os.stat(path).st_ino`; an error leaves no inode. -/
def statInode (disk : Disk) (t : LogTailer) : Option Nat × LogTailer :=
  match disk.entry with
  | .file inode => (some inode, t)
  | .missing => (none, warnOncePerErrno enoent t)
  | .denied errno => (none, warnOncePerErrno errno t)

def LogTailer.closeFile (t : LogTailer) : LogTailer :=
  { t with file := none, inode := none, buffer := [], droppingBytes := none }

/-- The end of a call: commit if asked to, then return the lines. -/
def finishCall (persist : Bool) (lines : List PyStr) (t : LogTailer) (disk : Disk) :
    Except Raised (List PyStr) × LogTailer × Disk :=
  if persist then (.ok lines, commitOffset t disk) else (.ok lines, t, disk)

def readNewLines (cfg : TailConfig) (persist : Bool) (growth : List Bytes) (disk : Disk)
    (t : LogTailer) : Option (Except Raised (List PyStr) × LogTailer × Disk) :=
  match t.file with
  | some f =>
    let current := statInode disk t
    if current.1 ≠ t.inode then
      match drainOpenFile cfg growth f disk current.2 with
      | none => none
      | some (.error e, t, disk) => some (.error e, t, disk)
      | some (.ok lines, t, disk) =>
        some (finishCall persist lines (if t.atEof then t.closeFile else t) disk)
    else
      match drainOpenFile cfg growth f disk current.2 with
      | none => none
      | some (.error e, t, disk) => some (.error e, t, disk)
      | some (.ok lines, t, disk) => some (finishCall persist lines t disk)
  | none => match openAtSavedOffset cfg disk t with
    | .raised e => some (.error e, t, disk)
    | .osError errno =>
      some (.ok [], if errno = enoent then t else warnOncePerErrno errno t, disk)
    | .opened t => match t.file with
      | none => none
      | some f => match drainOpenFile cfg growth f disk { t with lastOpenErrno := none } with
        | none => none
        | some (.error e, t, disk) => some (.error e, t, disk)
        | some (.ok lines, t, disk) => some (finishCall persist lines t disk)

end ShipperTail
