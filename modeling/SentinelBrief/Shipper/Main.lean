import SentinelBrief.Shipper.Ledger
import SentinelBrief.Shipper.Spool
import SentinelBrief.Shipper.TailResume

/-!
`run_once`, `drain` and the loop of `main` (`main.py`), one side effect a step,
over one append-only log. A process may die between any two steps; a call that
raises is such a death. A restart builds new collaborators over what the disk
holds. The fields below `clock` are history: what this process built and put,
and where the spool's files went. Waits and log records are left out.
-/
namespace ShipperMain
open ShipperTail ShipperTailRestarts ShipperTailResume ShipperAssemble ShipperSpool Utf8Text

/-- The command line, the environment and the log's inode number. -/
structure ShipperConfig where
  tail : TailConfig
  assembler : AssemblerConfig
  spool : SpoolConfig
  once : Bool
  maxIterations : Option Nat
  inode : Nat
  inode_small : inode < inodeLimit

structure ReadLine where
  text : PyStr
  line : Nat × Bytes
  deriving DecidableEq

/-- A payload and, when `feed` built it, the line that was fed. -/
structure Built where
  payload : Bytes
  line : Option (Nat × Bytes)
  deriving DecidableEq

inductive Phase where
  | ready
  | feeding (lines : List ReadLine) (due : List Built)
  | flushed (due : List Built)
  | draining (left : List SpoolFile)
  | answered (file : SpoolFile) (status : Nat) (left : List SpoolFile)
  | stopping (due : List Built)
  | exited
  deriving DecidableEq

def Phase.due : Phase → List Built
  | .feeding _ due => due
  | .flushed due => due
  | .stopping due => due
  | _ => []

def Phase.lines : Phase → List ReadLine
  | .feeding lines _ => lines
  | _ => []

def Phase.files : Phase → List SpoolFile
  | .draining left => left
  | .answered file _ left => file :: left
  | _ => []

def Phase.nextPut : Phase → Option (Built × Phase)
  | .feeding lines (b :: due) => some (b, .feeding lines due)
  | .flushed (b :: due) => some (b, .flushed due)
  | .stopping (b :: due) => some (b, .stopping due)
  | _ => none

structure Shipper where
  tail : Restarting
  assembler : SessionAssembler
  spool : Spool
  phase : Phase
  iterations : Nat
  stopRequested : Bool
  clock : Nat
  built : List Built
  stored : List (Built × SpoolFile)
  ledger : Ledger
  puts : List SpoolFile
  delivered : List (SpoolFile × Nat)
  rejected : List (SpoolFile × Nat)
  evictions : List (SpoolFile × List SpoolFile)

def Shipper.start (cfg : ShipperConfig) : Shipper :=
  { tail := Restarting.start cfg.inode, assembler := {}, spool := {}, phase := .ready,
    iterations := 0, stopRequested := false, clock := 0, built := [], stored := [], ledger := {},
    puts := [], delivered := [], rejected := [], evictions := [] }

inductive Event where
  | append (bytes : Bytes)
  | requestStop
  | readNewLines (growth : List Bytes)
  | feed (now : Int)
  | flushIdle (now : Int)
  | put (now : Nat)
  | commitOffset
  | post (answer : Option Nat)
  | settle
  | next
  | restart
  deriving DecidableEq

def tailStep (cfg : ShipperConfig) (w : Shipper) (e : ShipperTailRestarts.Event) :
    Option Restarting :=
  (ShipperTailRestarts.step cfg.tail cfg.inode w.tail e).filter fun tail =>
    (tail.disk.content cfg.inode).length < fileLimit

def returnedLines (cfg : ShipperConfig) (before after : Restarting) : List ReadLine :=
  List.zipWith ReadLine.mk (after.out.drop before.out.length)
    (batch cfg.tail cfg.inode before after)

def Shipper.afterFeed (cfg : ShipperConfig) (w : Shipper) (line : ReadLine) (now : Int)
    (lines : List ReadLine) (payloads : List Bytes) (a : SessionAssembler) : Shipper :=
  { w with assembler := a, phase := .feeding lines (payloads.map (⟨·, some line.line⟩)),
           built := w.built ++ payloads.map (⟨·, some line.line⟩),
           ledger := w.ledger.afterFeed cfg.assembler line.text now w.assembler payloads }

def Shipper.afterFlush (cfg : ShipperConfig) (w : Shipper) (keys : List Key) (phase : Phase)
    (payloads : List Bytes) (a : SessionAssembler) : Shipper :=
  { w with assembler := a, phase := phase, built := w.built ++ payloads.map (⟨·, none⟩),
           ledger := w.ledger.afterFlush cfg.assembler keys w.assembler }

def Shipper.afterPut (cfg : ShipperConfig) (w : Shipper) (b : Built) (phase : Phase) (now : Nat) :
    Shipper :=
  let file : SpoolFile := ⟨spoolName cfg.spool now b.payload, b.payload⟩
  let gone := (w.spool.evicted cfg.spool).toList.map fun oldest => (oldest, w.spool.pending)
  { w with spool := w.spool.put cfg.spool now b.payload, phase := phase, clock := now,
           stored := w.stored ++ [(b, file)], puts := w.puts ++ [file],
           evictions := w.evictions ++ gone }

/-- What `drain` does with an answer that is not to be retried. -/
def Shipper.afterAnswer (w : Shipper) (file : SpoolFile) (status : Nat) (left : List SpoolFile) :
    Shipper :=
  if 200 ≤ status ∧ status < 300 then
    { w with spool := w.spool.remove file, phase := .draining left,
             delivered := w.delivered ++ [(file, status)] }
  else
    { w with spool := w.spool.dead file, phase := .draining left,
             rejected := w.rejected ++ [(file, status)] }

/-- The end of an iteration: the exits of `main` in the order it tests them. -/
def endIteration (cfg : ShipperConfig) (w : Shipper) : Option Shipper :=
  let w := { w with iterations := w.iterations + 1 }
  if cfg.once then some { w with phase := .exited }
  else if cfg.maxIterations.any (· ≤ w.iterations) then some { w with phase := .exited }
  else if w.stopRequested then
    match flushAll cfg.assembler w.assembler with
    | .error _ => none
    | .ok (payloads, a) => some (w.afterFlush cfg (w.assembler.sessions.map (·.1))
        (.stopping (payloads.map (⟨·, none⟩))) payloads a)
  else some { w with phase := .ready }

def Shipper.restarted (w : Shipper) (tail : Restarting) : Shipper :=
  { w with tail := tail, assembler := {}, phase := .ready, iterations := 0,
           stopRequested := false, built := [], stored := [], ledger := {} }

def step (cfg : ShipperConfig) (w : Shipper) : Event → Option Shipper
  | .append bytes => (tailStep cfg w (.append bytes)).map fun tail => { w with tail := tail }
  | .requestStop => some { w with stopRequested := true }
  | .readNewLines growth => match w.phase with
    | .ready => (tailStep cfg w (.readNewLines growth)).map fun tail =>
      { w with tail := tail, phase := .feeding (returnedLines cfg w.tail tail) [] }
    | _ => none
  | .feed now => match w.phase with
    | .feeding (line :: lines) [] => match feed cfg.assembler line.text now w.assembler with
      | .error _ => none
      | .ok (payloads, a) => some (w.afterFeed cfg line now lines payloads a)
    | _ => none
  | .flushIdle now => match w.phase with
    | .feeding [] [] => match flushIdle cfg.assembler now w.assembler with
      | .error _ => none
      | .ok (payloads, a) => some (w.afterFlush cfg (w.assembler.staleIds cfg.assembler now)
          (.flushed (payloads.map (⟨·, none⟩))) payloads a)
    | _ => none
  | .put now => match w.phase.nextPut with
    | some (b, phase) =>
      if w.clock < now ∧ now < clockLimit then some (w.afterPut cfg b phase now) else none
    | none => none
  | .commitOffset => match w.phase with
    | .flushed [] => (tailStep cfg w .commitOffset).map fun tail =>
      { w with tail := tail, phase := .draining w.spool.pending }
    | _ => none
  | .post answer => match w.phase with
    | .draining (file :: left) => match post answer with
      | ⟨some status, false⟩ => some { w with phase := .answered file status left }
      | _ => some { w with phase := .draining [] }
    | _ => none
  | .settle => match w.phase with
    | .answered file status left => some (w.afterAnswer file status left)
    | _ => none
  | .next => match w.phase with
    | .draining [] => endIteration cfg w
    | .stopping [] => some { w with phase := .exited }
    | _ => none
  | .restart => (tailStep cfg w .restart).map w.restarted

end ShipperMain
