import Sysy.Build

/-!
Files that are compiled at the same time. Each has a worker of its own. The workers are set to work
in the order of the files, so many at a time, and from then on a schedule tells which of them takes
the next step. The first error is recorded, and only then the others are called off: a worker asks
for it before it reads its file and before each phase.
-/

namespace Sysy
open Host

/-- What reading a file gives, by path. -/
abbrev Disk := String → Except FileError Bytes

/-- A phase of a compilation together with what it works on. -/
inductive Task where
  | parse (f : SourceFile)
  | lower (f : SourceFile) (p : Program)
  | produce (f : SourceFile) (m : Ir.Module)

namespace Task
open Compilation

def file : Task → SourceFile
  | parse f | lower f _ | produce f _ => f

def phase : Task → Phase
  | parse _ => .parse
  | lower _ _ => .irgen
  | produce _ _ => .codegen

def event (t : Task) (s : Step) : PhaseEvent := ⟨t.file.path, t.phase, s⟩

/-- Does the phase. What follows is the next phase, or the module and the output of the file. -/
def run (o : CompileOptions) : Task → Except CompileError (Task ⊕ Ir.Module × String)
  | parse f => do return .inl (.lower f (← f.program (.ofFile f) o.limit))
  | lower f p => do return .inl (.produce f (← lowered (.ofFile f) p))
  | produce _ m => do return .inr (m, ← produced o m)

end Task

/-- A module and an output that nobody timed. -/
def Compiled.ofMade (made : Ir.Module × String) : Compiled :=
  { output := Bytes.ofString made.2, module := some made.1, times := {} }

/-- What all workers see. -/
structure Board where
  /-- The error that was recorded. -/
  failure : Option CompileError := none
  /-- Whether the workers are called off. -/
  isOff : Bool := false

/-- How far the worker on a file is. -/
inductive Worker where
  | waiting
  /-- At work, and about to ask whether it is called off. -/
  | begun
  | reading
  /-- About to ask whether it is called off, with a phase to do. -/
  | ready (t : Task)
  /-- About to tell that a phase starts. -/
  | cleared (t : Task)
  | running (t : Task)
  /-- With an error that it is about to record. -/
  | failed (e : CompileError)
  /-- With an error that is recorded, and about to call off the others. -/
  | noted (e : CompileError)
  | ended (result : Except CompileError (Ir.Module × String))

namespace Worker
open Compilation

def isWaiting : Worker → Bool
  | waiting => true
  | _ => false

def hasEnded : Worker → Bool
  | ended _ => true
  | _ => false

/-- Whether the worker counts among those at work. -/
def isBusy (w : Worker) : Bool := !w.isWaiting && !w.hasEnded

/-- The next step of the worker on the file at `path`: what becomes of it and of the board, and what
is told. The clock stands still. There is no step if the worker has to wait for others. -/
def next (o : CompileOptions) (disk : Disk) (path : String) (mayBegin : Bool) (b : Board) :
    Worker → Option (Worker × Board × List PhaseEvent)
  | waiting => if mayBegin then some (begun, b, []) else none
  | begun => some (if b.isOff then failed .cancelled else reading, b, [])
  | reading =>
    match disk path with
    | .ok raw => some (ready (.parse (.ofDisk 0 path raw)), b, [])
    | .error _ => some (failed (.loadFailed path), b, [])
  | ready t => some (if b.isOff then failed .cancelled else cleared t, b, [])
  | cleared t => some (running t, b, [t.event .started])
  | running t =>
    match t.run o.complete with
    | .ok (.inl t') => some (ready t', b, [t.event (.ended 0)])
    | .ok (.inr made) => some (ended (.ok made), b, [t.event (.ended 0)])
    | .error e => some (failed e, b, [t.event (.failed e 0)])
  | failed e =>
    match b.failure with
    | none => some (noted e, { b with failure := some e }, [])
    -- whoever recorded an error calls off the rest before anyone else goes on
    | some _ => if b.isOff then some (ended (.error e), b, []) else none
  | noted e => some (ended (.error e), { b with isOff := true }, [])
  | ended _ => none

/-- What was made of the file. -/
def compiled? : Worker → Option Compiled
  | ended (.ok made) => some (.ofMade made)
  | _ => none

end Worker

/-- The workers on some files. -/
structure Crew where
  /-- The files in their order, each with its worker. -/
  workers : List (String × Worker)
  board : Board := {}
  /-- What was told, with the number of the worker. -/
  seen : List (Nat × Compilation.PhaseEvent) := []

namespace Crew

def ofPaths (paths : List String) : Crew := { workers := paths.map fun path => (path, .waiting) }

def paths (c : Crew) : List String := c.workers.map (·.1)

/-- How many workers are at work. -/
def busy (c : Crew) : Nat := c.workers.countP (·.2.isBusy)

/-- Whether no file before a file is waiting. -/
def isNext (c : Crew) (i : Nat) : Bool := (c.workers.take i).all (!·.2.isWaiting)

def isOver (c : Crew) : Bool := c.workers.all (·.2.hasEnded)

/-- The next step of worker `i`, where `limit` of them may be at work. -/
def move (o : CompileOptions) (disk : Disk) (limit : Nat) (c : Crew) (i : Nat) : Option Crew := do
  let (path, w) ← c.workers[i]?
  let (w, board, events) ← w.next o disk path (c.isNext i && c.busy < limit) c.board
  return { workers := c.workers.set i (path, w), board, seen := c.seen ++ events.map (i, ·) }

/-- The steps of the workers that a schedule names, one after the other. -/
def follow (o : CompileOptions) (disk : Disk) (limit : Nat) :
    (schedule : List Nat) → Crew → Option Crew
  | [], c => some c
  | i :: is, c => do follow o disk limit is (← c.move o disk limit i)

/-- How many files are compiled at a time: `processors` of them if it is left open. -/
def limit (jobs : Int) (processors : Nat) : Nat := if jobs ≤ 0 then processors else jobs.toNat

/-- The files, each with what was made of it. -/
def files (c : Crew) : List (String × Option Compiled) := c.workers.map fun (path, w) =>
    (path, w.compiled?)

/-- What the crew did for a build. -/
def built (q : BuildRequest) (c : Crew) : Built :=
  { q.queued with
    files := c.files
    events := q.queued.events ++ c.seen.filterMap (Build.progress? ·.2)
    error := c.board.failure.map .compile }

end Crew

end Sysy
