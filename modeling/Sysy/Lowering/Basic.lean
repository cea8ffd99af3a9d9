import Sysy.Lowering.Folding
import Sysy.Lowering.Shape

/-!
The state of lowering, and the steps that all of it is made of.
-/

namespace Sysy.Lowering
open Ir

structure State where
  module : Module := {}
  scope : Scope Binding := {}

/-- Steps of lowering a program. -/
abbrev Lower := StateT State (Except LoweringStop)

/-- A step of building the module. -/
def build {α : Type} (x : Build α) : Lower α := fun ⟨m, scope⟩ =>
  match x m with
  | .ok (a, m) => .ok (a, ⟨m, scope⟩)
  | .error f => .error (.fault f)

def reject {α : Type} (e : LoweringError) : Lower α := throw (.flawed e)

def check {α : Type} : Except LoweringError α → Lower α
  | .ok a => pure a
  | .error e => reject e

def define (name : String) (span : Span) (b : Binding) : Lower Unit := do
  match (← get).scope.define name b with
  | .ok scope => modify fun s => { s with scope }
  | .error e => reject (.ofScope e name span)

def resolve (name : String) (span : Span) : Lower Binding := do
  match (← get).scope.resolve name with
  | .ok b => return b
  | .error e => reject (.ofScope e name span)

def enter (kind : ScopeKind) : Lower Unit := modify fun s => { s with scope := s.scope.enter kind }

def exit : Lower Unit := modify fun s => { s with scope := s.scope.exit }

def foldConst (e : Expr) : Lower Word := do check (fold (← get).scope e)

def dimsOf (es : List Expr) : Lower (List Nat) := do check (foldDims (← get).scope 1 es)

def tyOf (id : ValueId) : Lower Ty := return (← get).module.tyOf id

/-- Defines a scalar constant. No code is made for it. -/
def defineConst (d : VarDef) : Lower Unit := do
  match d.init with
  | some (.expr e) => define d.name d.nameSpan (.const (← foldConst e))
  | _ => reject { flaw := .invalidInit, name := d.name, span := d.nameSpan }

/-- Where the code of a function goes. -/
structure Target where
  func : FuncId
  name : String
  /-- The place for the result; a void function has none. -/
  result : Option ValueId
  exit : BlockId

/-- Puts a block at the end of the layout and adds code to it from now on. -/
def startBlock (t : Target) (bb : BlockId) : Lower Unit := do
  build (Build.place t.func bb)
  build (Build.setCurrent t.func bb)

def newBlock (t : Target) (name : String) : Lower BlockId := build (Build.addBlock t.func name)

/-- Goes on in a new block behind a terminator. -/
def openFresh (t : Target) : Lower Unit := do startBlock t (← newBlock t "bb")

end Sysy.Lowering
