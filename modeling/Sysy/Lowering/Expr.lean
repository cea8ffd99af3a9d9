import Sysy.Lowering.Basic

/-!
Lowering of expressions. Operands are evaluated from left to right. A logical operator keeps its
result in a slot of its own and evaluates its second operand in a block that is skipped if the first
one decides.
-/

namespace Sysy.Lowering
open Ir

/-- The outcome of lowering an expression. -/
inductive Operand where
  | void
  | int (v : ValueId) (isConst : Bool)
  /-- The address of a number, which is loaded on use. -/
  | place (addr : ValueId) (isConst : Bool)
  /-- The address of an array, or of its first element once it has decayed. -/
  | array (addr : ValueId) (decayed isConst : Bool)
  deriving DecidableEq, Repr

/-- The number that an operand stands for. -/
def Operand.toInt (t : Target) (span : Span) : Operand → Lower ValueId
  | .int v _ => return v
  | .place a _ => build (Build.load t.func a)
  | .array _ _ _ => reject { flaw := .nonIntCalc, span }
  | .void => reject { flaw := .useVoidValue, span }

/-- The address that an assignment to an operand writes. -/
def Operand.toPlace (name : String) (span : Span) : Operand → Lower ValueId
  | .int _ true | .place _ true | .array _ _ true => reject { flaw := .constAssign, name, span }
  | .place a false => return a
  | _ => reject { flaw := .arrayAssign, name, span }

/-- The pointer that is passed for an array, if the operand is one. -/
def Operand.toArrayArg? (t : Target) : Operand → Lower (Option ValueId)
  | .array a true _ => return some a
  | .array a false _ => do
    let zeroId ← build (Build.integer 0)
    return some (← build (Build.getElemPtr t.func a zeroId))
  | _ => return none

def arithOf : BinaryOp → Arith
  | .add => .add
  | .sub => .sub
  | .mul => .mul
  | .div => .div
  | .mod => .mod
  | .lt => .lt
  | .gt => .gt
  | .le => .le
  | .ge => .ge
  | .eq => .eq
  | .ne => .ne
  | .and | .or => .unnamed

/-- The hint for the labels of a logical operator, and whether a true first operand asks for the
second. -/
def logicShape : BinaryOp → String × Bool
  | .or => ("lor", false)
  | _ => ("land", true)

/-- Applies a unary operator: `-x` is `0 - x` and `!x` is `x == 0`. -/
def lowerUnary (t : Target) (op : UnaryOp) (x : ValueId) : Lower Operand := do
  let zeroId ← build (Build.integer 0)
  match op with
  | .plus => return .int x false
  | .minus => return .int (← build (Build.binary t.func .sub zeroId x)) false
  | .not => return .int (← build (Build.binary t.func .eq x zeroId)) false

/-- Checks an argument against its parameter and brings it into the form in which it is passed. -/
def lowerArg (t : Target) (callee : String) (span : Span) (param : Ty) (v : Operand) :
    Lower ValueId := do
  if param.isPtr then
    match ← v.toArrayArg? t with
    | some a =>
      if (← tyOf a).equal param then return a
      else reject { flaw := .argMismatch, name := callee, span }
    | none => reject { flaw := .argMismatch, name := callee, span }
  else match v with
    | .array _ _ _ => reject { flaw := .argMismatch, name := callee, span }
    | v => v.toInt t span

/-- A way from the address of a variable to one of its elements. -/
inductive Walk where
  /-- At the address of a value of type `pointee`. -/
  | inside (ptr : ValueId) (pointee : Ty)
  /-- At a pointer to the first of many values of type `pointee`. -/
  | atFirst (ptr : ValueId) (pointee : Ty)
  deriving Repr

/-- The operand at the end of a walk. -/
def Walk.stop (isConst : Bool) : Walk → Operand
  | .inside ptr pointee => if pointee.isArray then .array ptr false isConst else .place ptr isConst
  | .atFirst ptr _ => .array ptr true isConst

/-- Whether a walk can go on with an index. -/
def Walk.canStep : Walk → Bool
  | .inside _ pointee => pointee.isArray
  | .atFirst _ _ => true

/-- Goes to the element with an index. -/
def Walk.step (t : Target) (index : ValueId) : Walk → Lower Walk
  | .inside ptr pointee => return .inside (← build (Build.getElemPtr t.func ptr index)) pointee.elem
  | .atFirst ptr pointee => return .inside (← build (Build.getPtr t.func ptr index)) pointee

/-- What a name in front of indices stands for: a number that is known, or the start of a walk and
whether it goes through a constant. The slot of an array parameter holds a pointer to the first
element. -/
def lowerName (t : Target) (span : Span) (name : String) (isIndexed : Bool) :
    Lower (Operand ⊕ (Walk × Bool)) := do
  match ← resolve name span with
  | .const v =>
    if isIndexed then reject { flaw := .derefInt, name, span }
    else return .inl (.int (← build (Build.integer v)) true)
  | .func _ => reject { flaw := .symbolNotFound, name, span }
  | .var ptr isConst =>
    match (← tyOf ptr).elem with
    | .ptr pointee => return .inr (.atFirst (← build (Build.load t.func ptr)) pointee, isConst)
    | pointee => return .inr (.inside ptr pointee, isConst)

mutual

def lowerExpr (t : Target) : Expr → Lower Operand
  | .lit _ v => return .int (← build (Build.integer v)) false
  | .lval span name indices => do
    match ← lowerName t span name (!indices.isEmpty) with
    | .inl v => return v
    | .inr (w, isConst) => return (← lowerIndices t span name w indices).stop isConst
  | .unary _ op e => do
    let x ← (← lowerExpr t e).toInt t e.span
    lowerUnary t op x
  | .binary _ op l r => do
    if op.isLogical then
      let (hint, onTrue) := logicShape op
      let zeroId ← build (Build.integer 0)
      let result ← build (Build.alloc t.func .i32 "")
      let lhs ← (← lowerExpr t l).toInt t l.span
      let first ← build (Build.binary t.func .ne lhs zeroId)
      let _ ← build (Build.store t.func first result)
      let more ← newBlock t (hint ++ "_rhs")
      let done ← newBlock t (hint ++ "_end")
      let _ ← build (if onTrue then Build.branch t.func first more done
        else Build.branch t.func first done more)
      startBlock t more
      let rhs ← (← lowerExpr t r).toInt t r.span
      let second ← build (Build.binary t.func .ne rhs zeroId)
      let _ ← build (Build.store t.func second result)
      let _ ← build (Build.jump t.func done)
      startBlock t done
      return .int (← build (Build.load t.func result)) false
    else
      let lhs ← (← lowerExpr t l).toInt t l.span
      let rhs ← (← lowerExpr t r).toInt t r.span
      return .int (← build (Build.binary t.func (arithOf op) lhs rhs)) false
  | .call span name args => do
    match ← resolve name span with
    | .func id =>
      match (← get).module.func? id with
      | none => reject { flaw := .symbolNotFound, name, span }
      | some callee =>
        if args.length ≠ callee.params.length then reject { flaw := .argMismatch, name, span }
        else
          let vs ← lowerArgs t name callee.params args
          let v ← build (Build.call t.func id vs)
          if callee.ret.isUnit then return .void else return .int v false
    | _ => reject { flaw := .symbolNotFound, name, span }

/-- Lowers the arguments of a call, one for each parameter. -/
def lowerArgs (t : Target) (callee : String) : List Ty → List Expr → Lower (List ValueId)
  | p :: ps, e :: es => do
    let v ← lowerArg t callee e.span p (← lowerExpr t e)
    let vs ← lowerArgs t callee ps es
    return v :: vs
  | _, _ => return []

/-- Follows indices from a place in a variable. -/
def lowerIndices (t : Target) (span : Span) (name : String) : Walk → List Expr → Lower Walk
  | w, [] => return w
  | w, e :: es => do
    if w.canStep then
      let index ← (← lowerExpr t e).toInt t e.span
      lowerIndices t span name (← w.step t index) es
    else reject { flaw := .derefInt, name, span }

end

/-- Lowers a name with indices. -/
def lowerLval (t : Target) (span : Span) (name : String) (indices : List Expr) : Lower Operand :=
  lowerExpr t (.lval span name indices)

/-- Lowers an expression that must be a number. -/
def lowerScalar (t : Target) (e : Expr) : Lower ValueId := do
  (← lowerExpr t e).toInt t e.span

end Sysy.Lowering
