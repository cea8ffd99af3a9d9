import Sysy.Assembly.Emission
import Sysy.Cache.Entry
import Sysy.Diagnostic.Report
import Sysy.Ir.Printer
import Sysy.Lowering.Program
import Sysy.Timing
import Sysy.Trace.Recorder
import Sysy.Tree.Parser

/-!
The compilation of one file: reading the program, lowering it to intermediate code, and producing
the output. The first error of any phase ends it, and then there is no output. A cache may hold the
output already.
-/

namespace Sysy
open Host

/-- Why a compilation fails. -/
inductive CompileError where
  /-- The source is wrong, or a file cannot be read or written. -/
  | failed (f : Failure)
  | notEmitted (e : Assembly.EmissionError)
  /-- The compilation was called off. -/
  | cancelled
  | fault (f : Ir.Fault)
  deriving DecidableEq, Repr

namespace CompileError

def text : CompileError → Bytes
  | failed f => f.text
  | notEmitted e => Bytes.ofString ("codegen: " ++ e.message)
  | cancelled => Bytes.ofString "context canceled"
  | fault f => Bytes.ofString f.message

def loadFailed (path : String) : CompileError :=
  failed { code := .loadFailed, position := path, message := Bytes.ofString Code.loadFailed.title }

def writeFailed (path : String) : CompileError :=
  failed { code := .writeFailed, position := path,
           message := Bytes.ofString Code.writeFailed.title }

end CompileError

structure CompileOptions where
  emit : Emit := .riscv
  /-- How many diagnostics are kept; zero or less leaves it to the program. -/
  maxDiagnostics : Int := 0
  machine : Machine := .rv32
  /-- The directory of the cache, if one is used. -/
  cacheDir : Option String := none
  /-- The compilation is called off before its first phase. -/
  isCancelled : Bool := false
  deriving DecidableEq, Repr

namespace CompileOptions

/-- How many diagnostics are kept. -/
def limit (o : CompileOptions) : Nat := if o.maxDiagnostics ≤ 0 then 100 else o.maxDiagnostics.toNat

/-- The options with what was left open filled in. -/
def complete (o : CompileOptions) : CompileOptions :=
  { o with
    emit := o.emit.orDefault
    machine := if o.machine.wordSize = 0 then .rv32 else o.machine }

/-- The key of the output of a file. -/
def cacheKey (o : CompileOptions) (f : SourceFile) : Bytes :=
  Cache.key f.content o.emit o.machine.triple

end CompileOptions

namespace SourceFile

/-- The program in a file, with what lexer and parser report. -/
def parsed (f : SourceFile) (limit : Nat) : Parsed := parse f.id limit (lexemes f.id f.content)

/-- The program in a file; the first error of lexer or parser counts. -/
def program (f : SourceFile) (files : FileSet) (limit : Nat) : Except CompileError Program :=
  let p := f.parsed limit
  match (Bag.ofList limit p.reported).firstError? with
  | some d => .error (.failed (.ofDiagnostic files d))
  | none => .ok p.program

end SourceFile

namespace LoweringStop

/-- The error for a program that cannot be lowered. -/
def toError (files : FileSet) : LoweringStop → CompileError
  | flawed e => .failed
    { code := e.flaw.code, position := (files.position e.span).getD "",
      message := Bytes.ofString e.message }
  | fault f => .fault f

end LoweringStop

namespace Compilation

/-- The intermediate code of a program. -/
def lowered (files : FileSet) (p : Program) : Except CompileError Ir.Module :=
  match p.lower with
  | .ok m => .ok m
  | .error e => .error (e.toError files)

/-- The output for a module. -/
def produced (o : CompileOptions) (m : Ir.Module) : Except CompileError String :=
  if o.emit.isIr then .ok m.text
  else match Assembly.emit o.machine m with
    | .ok ls => .ok (Assembly.text ls)
    | .error e => .error (.notEmitted e)

/-- The output for a file: all phases, one after the other. -/
def outputOf (o : CompileOptions) (files : FileSet) (f : SourceFile) :
    Except CompileError String := do
  produced o (← lowered files (← f.program files o.limit))

/-- The phases of a compilation. -/
inductive Phase where
  | parse | irgen | codegen
  deriving DecidableEq, Repr

namespace Phase

def name : Phase → String
  | parse => "parse"
  | irgen => "irgen"
  | codegen => "codegen"

/-- The stage of a build that a phase belongs to. -/
def stage : Phase → Stage
  | parse => .parse
  | irgen => .lower
  | codegen => .codegen

end Phase

/-- What happens to a phase. -/
inductive Step where
  | started
  | ended (elapsed : Int)
  | failed (e : CompileError) (elapsed : Int)
  deriving DecidableEq, Repr

structure PhaseEvent where
  /-- The path of the file as it is kept in the file set. -/
  file : String
  phase : Phase
  step : Step
  deriving DecidableEq, Repr

/-- What was seen of a compilation so far. -/
structure Log where
  events : List PhaseEvent := []
  timer : Timer := {}

/-- Steps of a compilation, which an error ends. -/
abbrev Run := ExceptT CompileError (StateT Log Trace.Traced)

def traced {α : Type} (x : Trace.Traced α) : Run α := ExceptT.lift (StateT.lift x)

def clock : Run Int := traced (StateT.lift Action.now)

def note (e : PhaseEvent) : Run Unit := modify fun l => { l with events := l.events ++ [e] }

/-- Runs a phase inside the span `parent`: it is timed, traced and noted. -/
def phase {α : Type} (o : CompileOptions) (f : SourceFile) (parent : Nat) (p : Phase)
    (work : Nat → Trace.Traced (Except CompileError α)) : Run α := do
  if o.isCancelled then throw .cancelled
  let span ← traced (Trace.start .pass p.name parent)
  note ⟨f.path, p, .started⟩
  let t0 ← clock
  let (number, timer) := (← get).timer.start p.name t0
  let result ← traced (work (span.inner parent))
  let t1 ← clock
  let ended (remark : String) : Run Unit :=
    modify fun l => { l with timer := timer.stop number remark t1 }
  match result with
  | .ok a =>
    ended ""
    note ⟨f.path, p, .ended (t1 - t0)⟩
    traced (Trace.stop span "")
    return a
  | .error e =>
    ended Timer.failed
    note ⟨f.path, p, .failed e (t1 - t0)⟩
    traced (Trace.stop span "failed")
    throw e

/-- Lowers items one after the other, with a span inside `parent` for each function. -/
def lowerItems (parent : Nat) :
    List Item → Lowering.State → Trace.Traced (Except LoweringStop Lowering.State)
  | [], s => return .ok s
  | i :: is, s => do
    let result ← match i with
      | .func _ d => do
        let span ← Trace.start .func ("func:" ++ d.name) parent
        let result := Lowering.lowerItem i s
        Trace.stop span ""
        pure result
      | .decl _ _ => pure (Lowering.lowerItem i s)
    match result with
    | .ok (_, s) => lowerItems parent is s
    | .error e => return .error e

/-- Lowers a program inside the span `parent`. -/
def lowerTraced (files : FileSet) (p : Program) (parent : Nat) :
    Trace.Traced (Except CompileError Ir.Module) := do
  let span ← Trace.start .pass "irgen" parent
  let result ← match (Lowering.openLibrary : Lowering.Lower Unit) {} with
    | .ok (_, s) => lowerItems (span.inner parent) p.items s
    | .error e => pure (.error e)
  match result with
  | .ok s =>
    let span := span.withFact "funcs" (toString s.module.funcs.size)
    Trace.stop (span.withFact "globals" (toString s.module.globals.size)) ""
    return .ok s.module
  | .error e =>
    Trace.stop span "failed"
    return .error (e.toError files)

/-- All phases inside the span `parent`. -/
def phases (o : CompileOptions) (files : FileSet) (f : SourceFile) (parent : Nat) :
    Run (Ir.Module × String) := do
  let program ← phase o f parent .parse fun _ => return f.program files o.limit
  let m ← phase o f parent .irgen (lowerTraced files program)
  let output ← phase o f parent .codegen fun _ => return produced o m
  return (m, output)

end Compilation

/-- What a compilation gives. -/
structure Compiled where
  output : Bytes
  /-- The intermediate code, unless the output came from a cache. -/
  module : Option Ir.Module
  times : TimeReport

structure Compilation where
  events : List Compilation.PhaseEvent
  outcome : Except CompileError Compiled

namespace Compilation

/-- The outcome that a cache holds for a file, and what the trace says of it. -/
def fromCache (o : CompileOptions) (f : SourceFile) : Action (Option Compiled × Option String) := do
  match o.cacheDir with
  | none => return (none, none)
  | some dir =>
    match ← Cache.lookUp dir (o.cacheKey f) with
    | .unreadable reason => return (none, some reason)
    | found =>
      match found.hit? with
      | some e => return (some { output := e.output, module := none, times := {} }, some "hit")
      | none => return (none, none)

/-- Keeps an output, and tells what the trace says if that fails. -/
def toCache (o : CompileOptions) (f : SourceFile) (output : Bytes) : Action (Option String) := do
  match o.cacheDir with
  | none => return none
  | some dir =>
    let e : Cache.Entry := {
      version := Bytes.ofString Version.current.version
      emit := Bytes.ofString o.emit.name
      triple := Bytes.ofString o.machine.triple
      path := Bytes.ofString f.path
      output
      created := ← Action.now }
    match ← Cache.store dir (o.cacheKey f) e with
    | .ok () => return none
    | .error e => return some e.message

section
variable {o : CompileOptions}

theorem fromCache_of_none (h : o.cacheDir = none) (f : SourceFile) :
    fromCache o.complete f = .done (none, none) := by
  rw [fromCache, show o.complete.cacheDir = none from h]
  rfl

theorem toCache_of_none (h : o.cacheDir = none) (f : SourceFile) (output : Bytes) :
    toCache o.complete f output = .done none := by
  rw [toCache, show o.complete.cacheDir = none from h]
  rfl

end

end Compilation

open Compilation in
/-- Compiles a file of a file set. -/
def compile (options : CompileOptions) (files : FileSet) (f : SourceFile) :
    Trace.Traced Compilation := do
  let o := options.complete
  let span := (← Trace.start .driver "compile" 0).withFact "file" f.path
  let told (span : Trace.Span) (fact : Option String) : Trace.Span :=
    match fact with
    | some s => span.withFact "cache" s
    | none => span
  let (held, fact) ← fromCache o f
  let span := told span fact
  match held with
  | some c =>
    Trace.stop span ""
    return { events := [], outcome := .ok c }
  | none =>
    let (result, log) ← (phases o files f (span.inner 0)).run.run {}
    match result with
    | .error e =>
      Trace.stop span ""
      return { events := log.events, outcome := .error e }
    | .ok (m, text) =>
      let output := Bytes.ofString text
      let span := told span (← toCache o f output)
      Trace.stop span ""
      return { events := log.events, outcome := .ok { output, module := some m,
                                                      times := log.timer.report } }

/-- Compiles a file on disk. -/
def compilePath (o : CompileOptions) (path : String) : Trace.Traced Compilation := do
  match ← StateT.lift (Action.readFile path) with
  | .error _ => return { events := [], outcome := .error (.loadFailed path) }
  | .ok raw =>
    let f := SourceFile.ofDisk 0 path raw
    compile o (.ofFile f) f

/-- Compiles a text under a name. -/
def compileText (o : CompileOptions) (name : String) (content : Bytes) : Trace.Traced Compilation :=
  let f := SourceFile.ofText 0 name content
  compile o (.ofFile f) f

end Sysy
