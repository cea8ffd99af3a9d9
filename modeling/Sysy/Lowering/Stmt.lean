import Sysy.Lowering.Expr

/-!
Lowering of statements and of declarations inside functions.
-/

namespace Sysy.Lowering
open Ir

def lowerLocalScalar (t : Target) (d : VarDef) : Lower Unit := do
  let init ← match d.init with
    | none => pure none
    | some (.list span _) => reject { flaw := .invalidInit, name := d.name, span }
    | some (.expr e) => some <$> lowerScalar t e
  let slot ← build (Build.alloc t.func .i32 ("@" ++ d.name))
  if let some v := init then
    let _ ← build (Build.store t.func v slot)
  define d.name d.nameSpan (.var slot false)

/-- The value of one cell of a local array. -/
def lowerCell (t : Target) (isConst : Bool) : Option Expr → Lower ValueId
  | none => build (Build.integer 0)
  | some e => do
    if isConst then build (Build.integer (← foldConst e)) else lowerScalar t e

/-- The address of the element with the given indices. -/
def elementAddr (t : Target) : (ptr : ValueId) → (indices : List Nat) → Lower ValueId
  | ptr, [] => return ptr
  | ptr, i :: is => do
    let index ← build (Build.integer (BitVec.ofNat 32 i))
    let next ← build (Build.getElemPtr t.func ptr index)
    elementAddr t next is

/-- Stores values into an array, from the cell number `k` on. -/
def storeCells (t : Target) (slot : ValueId) (dims : List Nat) :
    (k : Nat) → List ValueId → Lower Unit
  | _, [] => return
  | k, v :: vs => do
    let addr ← elementAddr t slot (indicesOf dims k)
    let _ ← build (Build.store t.func v addr)
    storeCells t slot dims (k + 1) vs

/-- Makes room for a local array and stores every cell of its initialiser, zeros included. -/
def lowerLocalArray (t : Target) (isConst : Bool) (d : VarDef) : Lower Unit := do
  let dims ← dimsOf d.dims
  let values ← match d.init with
    | none => pure []
    | some i => do
      let cells ← check (flatten dims i)
      cells.toList.mapM (lowerCell t isConst)
  let slot ← build (Build.alloc t.func (Ty.ofDims dims) ("@" ++ d.name))
  storeCells t slot dims 0 values
  define d.name d.nameSpan (.var slot isConst)

def lowerLocal (t : Target) (isConst : Bool) (d : VarDef) : Lower Unit :=
  if d.dims.isEmpty then
    if isConst then defineConst d else lowerLocalScalar t d
  else lowerLocalArray t isConst d

/-- The blocks that `continue` and `break` go to. -/
structure Loop where
  test : BlockId
  exit : BlockId
  deriving DecidableEq, Repr

mutual

/-- Lowers a statement inside the given loops, innermost first. -/
def lowerStmt (t : Target) (loops : List Loop) : Stmt → Lower Unit
  | .block _ ss => do
    enter .block
    lowerStmts t loops ss
    exit
  | .decl _ d => d.defs.forM (lowerLocal t d.isConst)
  | .assign _ target name indices value => do
    let place ← (← lowerLval t target name indices).toPlace name target
    let v ← lowerScalar t value
    let _ ← build (Build.store t.func v place)
  | .expr _ none => return
  | .expr _ (some e) => do
    let _ ← lowerExpr t e
  | .cond _ test yes no => do
    let c ← lowerScalar t test
    let yesBlock ← newBlock t "then"
    let after ← newBlock t "if_end"
    let noBlock ← if no.isSome then newBlock t "else" else pure after
    let _ ← build (Build.branch t.func c yesBlock noBlock)
    startBlock t yesBlock
    lowerStmt t loops yes
    let _ ← build (Build.jump t.func after)
    lowerElse t loops noBlock after no
    startBlock t after
  | .loop _ test body => do
    let testBlock ← newBlock t "while_cond"
    let bodyBlock ← newBlock t "while_body"
    let after ← newBlock t "while_end"
    let _ ← build (Build.jump t.func testBlock)
    startBlock t testBlock
    let c ← lowerScalar t test
    let _ ← build (Build.branch t.func c bodyBlock after)
    startBlock t bodyBlock
    lowerStmt t (⟨testBlock, after⟩ :: loops) body
    let _ ← build (Build.jump t.func testBlock)
    startBlock t after
  | .leave span => do
    match loops with
    | [] => reject { flaw := .notInLoop, span }
    | l :: _ =>
      let _ ← build (Build.jump t.func l.exit)
      openFresh t
  | .next span => do
    match loops with
    | [] => reject { flaw := .notInLoop, span }
    | l :: _ =>
      let _ ← build (Build.jump t.func l.test)
      openFresh t
  | .ret span value => do
    if let some e := value then
      match t.result with
      | none => reject { flaw := .retValInVoidFunc, name := t.name, span }
      | some slot =>
        let v ← lowerScalar t e
        let _ ← build (Build.store t.func v slot)
    let _ ← build (Build.jump t.func t.exit)
    openFresh t

/-- Lowers the branch of a condition that does not hold, if there is one. -/
def lowerElse (t : Target) (loops : List Loop) (noBlock after : BlockId) : Option Stmt → Lower Unit
  | none => return
  | some s => do
    startBlock t noBlock
    lowerStmt t loops s
    let _ ← build (Build.jump t.func after)

def lowerStmts (t : Target) (loops : List Loop) : List Stmt → Lower Unit
  | [] => return
  | s :: ss => do
    lowerStmt t loops s
    lowerStmts t loops ss

end

end Sysy.Lowering
