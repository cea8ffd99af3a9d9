import Sysy.Source.Span

/-!
The tree of a program: expressions, initialisers, declarations, statements and the items of a file.
Every node carries the span of the text it was read from.
-/

namespace Sysy

/-- The values of the language: 32-bit words, read as two's complement numbers. -/
abbrev Word := BitVec 32

inductive UnaryOp where
  | plus | minus | not
  deriving DecidableEq, Repr, Inhabited

namespace UnaryOp

def all : List UnaryOp := [plus, minus, not]

def symbol : UnaryOp → String
  | plus => "+"
  | minus => "-"
  | not => "!"

/-- The symbol of the operator with a given number. -/
def symbolOf (n : Nat) : String := (all[n]?.map symbol).getD "?"

end UnaryOp

inductive BinaryOp where
  | add | sub | mul | div | mod
  | lt | gt | le | ge | eq | ne
  | and | or
  deriving DecidableEq, Repr, Inhabited

namespace BinaryOp

def all : List BinaryOp := [add, sub, mul, div, mod, lt, gt, le, ge, eq, ne, and, or]

def symbol : BinaryOp → String
  | add => "+"
  | sub => "-"
  | mul => "*"
  | div => "/"
  | mod => "%"
  | lt => "<"
  | gt => ">"
  | le => "<="
  | ge => ">="
  | eq => "=="
  | ne => "!="
  | and => "&&"
  | or => "||"

/-- The operators that look at their second operand only if the first one does not decide. -/
def isLogical : BinaryOp → Bool
  | and | or => true
  | _ => false

/-- The symbol of the operator with a given number. -/
def symbolOf (n : Nat) : String := (all[n]?.map symbol).getD "?"

def isLogicalOf (n : Nat) : Bool := (all[n]?.map isLogical).getD false

end BinaryOp

inductive Expr where
  | lit (span : Span) (value : Word)
  /-- A name with zero or more indices. -/
  | lval (span : Span) (name : String) (indices : List Expr)
  | unary (span : Span) (op : UnaryOp) (operand : Expr)
  | binary (span : Span) (op : BinaryOp) (left right : Expr)
  | call (span : Span) (name : String) (args : List Expr)
  deriving Repr

namespace Expr

def span : Expr → Span
  | lit s _ | lval s _ _ | unary s _ _ | binary s _ _ _ | call s _ _ => s

instance : Inhabited Expr := ⟨.lit default 0⟩

end Expr

/-- The initialiser of a variable: an expression, or a list in braces. -/
inductive Init where
  | expr (value : Expr)
  | list (span : Span) (elems : List Init)
  deriving Repr

namespace Init

def span : Init → Span
  | expr e => e.span
  | list s _ => s

end Init

/-- One variable or constant of a declaration; it is an array if it has dimensions. -/
structure VarDef where
  name : String
  nameSpan : Span
  dims : List Expr
  init : Option Init
  deriving Repr

structure Decl where
  isConst : Bool
  defs : List VarDef
  deriving Repr

inductive Stmt where
  | block (span : Span) (stmts : List Stmt)
  | decl (span : Span) (decl : Decl)
  /-- The target is a name with zero or more indices, and has a span of its own. -/
  | assign (span target : Span) (name : String) (indices : List Expr) (value : Expr)
  /-- An expression, or the empty statement. -/
  | expr (span : Span) (value : Option Expr)
  | cond (span : Span) (test : Expr) (yes : Stmt) (no : Option Stmt)
  | loop (span : Span) (test : Expr) (body : Stmt)
  | leave (span : Span)
  | next (span : Span)
  | ret (span : Span) (value : Option Expr)
  deriving Repr

namespace Stmt

def span : Stmt → Span
  | block s _ | decl s _ | assign s _ _ _ _ | expr s _ | cond s _ _ _ | loop s _
      _ | leave s | next s
  | ret s _ => s

end Stmt

/-- A parameter: a number, or an array whose first dimension is open and whose others are `dims`. -/
structure Param where
  name : String
  span : Span
  dims : Option (List Expr)
  deriving Repr

structure FuncDef where
  name : String
  nameSpan : Span
  isVoid : Bool
  params : List Param
  bodySpan : Span
  body : List Stmt
  deriving Repr

inductive Item where
  | decl (span : Span) (decl : Decl)
  | func (span : Span) (func : FuncDef)
  deriving Repr

namespace Item

def span : Item → Span
  | decl s _ | func s _ => s

end Item

structure Program where
  span : Span
  items : List Item
  deriving Repr

end Sysy
