import Sysy.Ir.Ty
import Sysy.Tree.Basic

/-!
The values of the intermediate code: constants, arguments, globals and instructions. Values, blocks
and functions are numbered from one, and zero stands for none.
-/

namespace Sysy.Ir

abbrev ValueId := Nat
abbrev BlockId := Nat
abbrev FuncId := Nat

/-- The operations on two words. -/
inductive Arith where
  | add | sub | mul | div | mod
  | eq | ne | lt | gt | le | ge
  /-- An operation that has no name and computes nothing. -/
  | unnamed
  deriving DecidableEq, Repr, Inhabited

namespace Arith

def all : List Arith := [add, sub, mul, div, mod, eq, ne, lt, gt, le, ge]

def name : Arith → String
  | add => "add"
  | sub => "sub"
  | mul => "mul"
  | div => "div"
  | mod => "mod"
  | eq => "eq"
  | ne => "ne"
  | lt => "lt"
  | gt => "gt"
  | le => "le"
  | ge => "ge"
  | unnamed => "?"

/-- The operation with a given number. -/
def ofNumber (n : Nat) : Arith := all.getD n unnamed

end Arith

/-- What a value is. -/
inductive Node where
  | integer (value : Word)
  | zeroInit
  | aggregate (elems : List ValueId)
  | arg (index : Nat)
  | global (init : ValueId)
  | alloc
  | load (src : ValueId)
  | store (val dest : ValueId)
  /-- Moves a pointer by a number of the things it points to. -/
  | getPtr (src index : ValueId)
  /-- Points to an element of the array that a pointer points to. -/
  | getElemPtr (src index : ValueId)
  | binary (op : Arith) (lhs rhs : ValueId)
  | branch (cond : ValueId) (yes no : BlockId)
  | jump (target : BlockId)
  | call (callee : FuncId) (args : List ValueId)
  | ret (val : Option ValueId)
  deriving DecidableEq, Repr, Inhabited

namespace Node

/-- The names of the kinds of values, in the order of their numbers. -/
def kindNames : List String :=
  ["integer", "zeroinit", "aggregate", "arg", "global", "alloc", "load", "store", "getptr",
    "getelemptr",
   "binary", "br", "jump", "call", "ret"]

/-- The number of a value's kind. -/
def kindNumber : Node → Nat
  | integer _ => 0
  | zeroInit => 1
  | aggregate _ => 2
  | arg _ => 3
  | global _ => 4
  | alloc => 5
  | load _ => 6
  | store _ _ => 7
  | getPtr _ _ => 8
  | getElemPtr _ _ => 9
  | binary _ _ _ => 10
  | branch _ _ _ => 11
  | jump _ => 12
  | call _ _ => 13
  | ret _ => 14

def kindNameOf (n : Nat) : String := kindNames.getD n "?"

def kindName (k : Node) : String := kindNameOf k.kindNumber

/-- Whether the kind with a given number ends a block. -/
def isTerminatorNumber (n : Nat) : Bool := n = 11 || n = 12 || n = 14

/-- Whether values of the kind with a given number stand in a block. -/
def isInstNumber (n : Nat) : Bool := 5 ≤ n

def isTerminator : Node → Bool
  | branch _ _ _ | jump _ | ret _ => true
  | _ => false

def isAlloc : Node → Bool
  | alloc => true
  | _ => false

/-- The values that are read, in the order of evaluation. -/
def operands (k : Node) : List ValueId :=
  let ids := match k with
    | aggregate es => es
    | global i => [i]
    | load s => [s]
    | store v d => [v, d]
    | getPtr s i | getElemPtr s i => [s, i]
    | binary _ l r => [l, r]
    | branch c _ _ => [c]
    | call _ as => as
    | ret v => v.toList
    | integer _ | zeroInit | arg _ | alloc | jump _ => []
  ids.filter (· ≠ 0)

/-- The blocks where control may go next. -/
def successors : Node → List BlockId
  | jump t => [t]
  | branch _ y n => [y, n]
  | _ => []

end Node

structure Value where
  node : Node
  ty : Ty
  /-- With its sigil, as in `@x` or `%ret`; empty if the value has none. -/
  name : String := ""
  /-- The function that the value belongs to, and its block. -/
  func : FuncId := 0
  block : BlockId := 0
  deriving Repr, Inhabited

end Sysy.Ir
