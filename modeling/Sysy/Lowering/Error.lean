import Sysy.Diagnostic.Code
import Sysy.Ir.Module
import Sysy.Scope
import Sysy.Source.Span

/-!
The ways in which the meaning of a program can be wrong.
-/

namespace Sysy

/-- What is wrong with the meaning of a program. -/
inductive Flaw where
  | duplicatedDefinition
  | symbolNotFound
  | failedToEval
  | invalidArrayLen
  | invalidInit
  | arrayAssign
  | derefInt
  | nonIntCalc
  | useVoidValue
  | notInLoop
  | retValInVoidFunc
  | argMismatch
  | constAssign
  deriving DecidableEq, Repr, Inhabited

namespace Flaw

/-- Every flaw once, in the order of their numbers, which start at one. -/
def all : List Flaw :=
  [duplicatedDefinition, symbolNotFound, failedToEval, invalidArrayLen, invalidInit,
    arrayAssign, derefInt,
   nonIntCalc, useVoidValue, notInLoop, retValInVoidFunc, argMismatch, constAssign]

def number : Flaw → Nat
  | duplicatedDefinition => 1
  | symbolNotFound => 2
  | failedToEval => 3
  | invalidArrayLen => 4
  | invalidInit => 5
  | arrayAssign => 6
  | derefInt => 7
  | nonIntCalc => 8
  | useVoidValue => 9
  | notInLoop => 10
  | retValInVoidFunc => 11
  | argMismatch => 12
  | constAssign => 13

def message : Flaw → String
  | duplicatedDefinition => "duplicated symbol definition"
  | symbolNotFound => "symbol not found"
  | failedToEval => "failed to evaluate constant"
  | invalidArrayLen => "invalid array length"
  | invalidInit => "invalid initializer"
  | arrayAssign => "assigning to array"
  | derefInt => "dereferencing an integer"
  | nonIntCalc => "non-integer calculation"
  | useVoidValue => "using a void value"
  | notInLoop => "using break/continue outside of loop"
  | retValInVoidFunc => "returning value in void function"
  | argMismatch => "argument mismatch"
  | constAssign => "assigning to constant"

def code (f : Flaw) : Code := ⟨3000 + f.number⟩

def ofNumber? (n : Nat) : Option Flaw := if n = 0 then none else all[n - 1]?

/-- The message for a flaw's number, also for numbers of no flaw. -/
def messageOf (n : Nat) : String := ((ofNumber? n).map message).getD s!"irgen error kind={n}"

def codeOf (n : Nat) : Code := ((ofNumber? n).map code).getD .unknown

end Flaw

/-- A flaw at a place in a program. -/
structure LoweringError where
  flaw : Flaw
  /-- The name it is about; empty if there is none. -/
  name : String := ""
  span : Span
  cause : Option ScopeError := none
  deriving DecidableEq, Repr

namespace LoweringError

def message (e : LoweringError) : String :=
  if e.name = "" then e.flaw.message else e.flaw.message ++ ": " ++ e.name

/-- The error for a name that a scope refuses. -/
def ofScope (e : ScopeError) (name : String) (span : Span) : LoweringError :=
  let flaw := match e with
    | .duplicate _ => .duplicatedDefinition
    | .notFound _ => .symbolNotFound
  { flaw, name, span, cause := some e }

end LoweringError

/-- Why lowering a program stops: the program is flawed, or the code that lowers it is at fault. -/
inductive LoweringStop where
  | flawed (e : LoweringError)
  | fault (f : Ir.Fault)
  deriving DecidableEq, Repr

end Sysy
