import Sysy.Lowering.Error
import Sysy.Tree.Basic

/-!
Folding: the value of an expression that is known before the program runs. Such an expression is
made of numbers and named constants; `&&` and `||` skip their second operand as they do at run time,
and whatever is skipped need not have a value.
-/

namespace Sysy

namespace Word

def ofBool (b : Bool) : Word := if b then 1 else 0

end Word

namespace UnaryOp

/-- The meaning of an operator on words. -/
def apply : UnaryOp → Word → Word
  | plus, v => v
  | minus, v => -v
  | not, v => Word.ofBool (v == 0)

end UnaryOp

namespace BinaryOp

/-- The meaning of an operator on words. It wraps around, division goes toward zero, and there is no
quotient by zero. -/
def onWords? : BinaryOp → Word → Word → Option Word
  | add, l, r => some (l + r)
  | sub, l, r => some (l - r)
  | mul, l, r => some (l * r)
  | div, l, r => if r = 0 then none else some (l.sdiv r)
  | mod, l, r => if r = 0 then none else some (l.srem r)
  | lt, l, r => some (Word.ofBool (l.slt r))
  | gt, l, r => some (Word.ofBool (r.slt l))
  | le, l, r => some (Word.ofBool (l.sle r))
  | ge, l, r => some (Word.ofBool (r.sle l))
  | eq, l, r => some (Word.ofBool (l == r))
  | ne, l, r => some (Word.ofBool (l != r))
  | and, l, r => some (Word.ofBool (l != 0 && r != 0))
  | or, l, r => some (Word.ofBool (l != 0 || r != 0))

/-- The result of a logical operator whose first operand decides. -/
def shortcut? : BinaryOp → Word → Option Word
  | and, l => if l = 0 then some 0 else none
  | or, l => if l = 0 then none else some 1
  | _, _ => none

end BinaryOp

namespace Lowering

/-- What a name stands for while a program is lowered. -/
inductive Binding where
  | const (value : Word)
  /-- A variable by its address. Arrays may be declared constant. -/
  | var (ptr : Ir.ValueId) (isConst : Bool)
  | func (id : Ir.FuncId)
  deriving DecidableEq, Repr

/-- The value of a constant expression. -/
def fold (scope : Scope Binding) : Expr → Except LoweringError Word
  | .lit _ v => .ok v
  | .lval span name indices =>
    match scope.resolve name with
    | .error e => .error (.ofScope e name span)
    | .ok (.const v) =>
      if indices.isEmpty then .ok v else .error { flaw := .failedToEval, name, span }
    | .ok _ => .error { flaw := .failedToEval, name, span }
  | .unary _ op e => do
    let v ← fold scope e
    return op.apply v
  | .binary span op l r => do
    let a ← fold scope l
    match op.shortcut? a with
    | some v => return v
    | none =>
      let b ← fold scope r
      match op.onWords? a b with
      | some v => return v
      | none => throw { flaw := .failedToEval, span }
  | .call span _ _ => .error { flaw := .failedToEval, span }

/-- The largest array, in words. -/
def maxArrayWords : Nat := 0x10000000

/-- The dimensions of an array of which `total` words are taken by each element so far. Each must be
positive, and the whole array must not be too large. -/
def foldDims (scope : Scope Binding) : (total : Nat) → List Expr → Except LoweringError (List Nat)
  | _, [] => .ok []
  | total, e :: es => do
    let n := (← fold scope e).toInt
    if n ≤ 0 ∨ maxArrayWords < total * n.toNat then
      throw { flaw := .invalidArrayLen, span := e.span }
    else
      let rest ← foldDims scope (total * n.toNat) es
      return n.toNat :: rest

end Lowering

end Sysy
