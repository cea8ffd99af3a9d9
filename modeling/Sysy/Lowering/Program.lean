import Sysy.Lowering.Stmt

/-!
Lowering of whole programs: globals and functions in the order of the source, after the functions of
the run-time library. The first error stops it.
-/

namespace Sysy.Lowering
open Ir

/-- Cuts a list into `count` pieces of `size` elements. -/
def pieces {α : Type} (size : Nat) : (count : Nat) → List α → List (List α)
  | 0, _ => []
  | count + 1, xs => xs.take size :: pieces size count (xs.drop size)

/-- The nested constant for an array with the given words in the order of memory. -/
def aggregate : (dims : List Nat) → (words : List Word) → Build ValueId
  | [], ws => Build.integer (ws.headD 0)
  | n :: ns, ws => do
    let elems ← (pieces (ws.length / n) n ws).mapM (aggregate ns)
    Build.aggregate (Ty.ofDims (n :: ns)) elems

def foldCell : Option Expr → Lower Word
  | none => return 0
  | some e => foldConst e

/-- The initial value of a global, or zero if it has none. -/
def globalInit (d : VarDef) : Lower ValueId := do
  if d.dims.isEmpty then
    match d.init with
    | none => build (Build.zeroInit .i32)
    | some (.list span _) => reject { flaw := .invalidInit, name := d.name, span }
    | some (.expr e) => build (Build.integer (← foldConst e))
  else
    let dims ← dimsOf d.dims
    match d.init with
    | none => build (Build.zeroInit (Ty.ofDims dims))
    | some i =>
      let cells ← check (flatten dims i)
      let words ← cells.toList.mapM foldCell
      build (aggregate dims words)

def lowerGlobal (isConst : Bool) (d : VarDef) : Lower Unit := do
  if isConst && d.dims.isEmpty then defineConst d
  else
    let init ← globalInit d
    let ptr ← build (Build.global ("@" ++ d.name) init)
    define d.name d.nameSpan (.var ptr isConst)

/-- The type of a parameter. An array is passed as a pointer to its first element. -/
def paramTy (p : Param) : Lower Ty := do
  match p.dims with
  | none => return .i32
  | some dims => return .ptr (Ty.ofDims (← dimsOf dims))

/-- Copies the arguments of a function into slots of its own. -/
def lowerParams (f : FuncId) : List (Param × Ty × ValueId) → Lower Unit
  | [] => return
  | (p, ty, arg) :: rest => do
    let slot ← build (Build.alloc f ty ("%" ++ p.name))
    let _ ← build (Build.store f arg slot)
    define p.name p.span (.var slot false)
    lowerParams f rest

/-- Finishes a function: the entry goes to the first block of the body, the last block goes to the
exit or is dropped if nothing leads to it, and the exit returns. -/
def finish (t : Target) (entry body : BlockId) : Lower Unit := do
  let _ ← build (Build.jumpAt t.func entry body)
  let tail ← build (Build.current t.func)
  let m := (← get).module
  match (m.func? t.func).bind fun f => (f.block? tail).map fun b => (f, b) with
  | none => return
  | some (f, b) =>
    if b.insts.isEmpty && (f.blockUsers tail).isEmpty then build (Build.unplace t.func tail)
    else if !m.isTerminated b then
      let _ ← build (Build.jump t.func t.exit)
  startBlock t t.exit
  match t.result with
  | some slot =>
    let v ← build (Build.load t.func slot)
    let _ ← build (Build.ret t.func (some v))
  | none =>
    let _ ← build (Build.ret t.func none)

def lowerFunc (d : FuncDef) : Lower Unit := do
  let params ← d.params.mapM paramTy
  match ← build (Build.newFunc d.name params (if d.isVoid then .unit else .i32)) with
  | .error e => reject { flaw := .duplicatedDefinition, name := e.name, span := d.nameSpan }
  | .ok f =>
    define d.name d.nameSpan (.func f)
    let entry ← build (Build.addBlock f "entry")
    build (Build.place f entry)
    let exitBlock ← build (Build.addBlock f "end")
    build (modify (·.modifyFunc f fun fn => { fn with entry, exit := exitBlock }))
    let body ← build (Build.addBlock f "bb")
    build (Build.place f body)
    build (Build.setCurrent f body)
    let result ← if d.isVoid then pure none else some <$> build (Build.alloc f .i32 "%ret")
    enter .function
    build (Build.setCurrent f entry)
    let args := (((← get).module.func? f).map (·.args)).getD []
    lowerParams f (d.params.zip (params.zip args))
    build (Build.setCurrent f body)
    let t : Target := { func := f, name := d.name, result, exit := exitBlock }
    lowerStmts t [] d.body
    finish t entry body
    exit

/-- Lowers one item. The items of a program stand in the global scope. -/
def lowerItem (i : Item) : Lower Unit := do
  let scope := (← get).scope
  if scope.isGlobal then
    match i with
    | .decl _ d => d.defs.forM (lowerGlobal d.isConst)
    | .func _ d => lowerFunc d
  else throw (.fault (.notAtTop scope.depth))

/-- Declares the functions of the run-time library. -/
def openLibrary : Lower Unit := do
  build Build.declareLibrary
  for f in (← get).module.funcs.toList do
    define f.name {} (.func f.id)

def lowerItems : List Item → Lower Unit
  | [] => return
  | i :: is => do
    lowerItem i
    lowerItems is

end Sysy.Lowering

namespace Sysy.Program
open Lowering

/-- The intermediate code of a program. -/
def lower (p : Program) : Except LoweringStop Ir.Module :=
  match (do openLibrary; lowerItems p.items : Lower Unit) {} with
  | .ok (_, s) => .ok s.module
  | .error e => .error e

end Sysy.Program
