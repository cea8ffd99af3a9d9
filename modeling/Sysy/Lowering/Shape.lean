import Sysy.Lowering.Error
import Sysy.Tree.Basic

/-!
Shapes of arrays: how the initialiser of an array is laid out in memory, row by row. A list inside a
list fills the largest sub-array that can begin at its place; what a list leaves open is zero.
-/

namespace Sysy.Lowering

/-- The number of elements of an array with the given dimensions. -/
def product (dims : List Nat) : Nat := dims.foldl (· * ·) 1

/-- The largest sub-array of an array that can begin behind `filled` elements. -/
def subShape? (filled : Nat) : (dims : List Nat) → Option (List Nat)
  | [] => none
  | _ :: ds =>
    if ds = [] then none
    else if filled % product ds = 0 then some ds
    else subShape? filled ds

/-- The elements of a list are expressions, or nothing where the array is zero. -/
abbrev Cells := Array (Option Expr)

mutual

/-- Lays out one element of a list behind the cells `out` of an array with dimensions `dims`. -/
def placeElem (dims : List Nat) (out : Cells) : Init → Except LoweringError Cells
  | .expr e => .ok (out.push (some e))
  | .list span elems =>
    match subShape? out.size dims with
    | none => .error { flaw := .invalidInit, span }
    | some sub => do
      let part ← placeElems sub #[] elems
      return out ++ part ++ Array.replicate (product sub - part.size) none

/-- Lays out the elements of a list one by one, as long as they fit. -/
def placeElems (dims : List Nat) (out : Cells) : List Init → Except LoweringError Cells
  | [] => .ok out
  | i :: is => do
    let out ← placeElem dims out i
    if product dims < out.size then throw { flaw := .invalidInit, span := i.span }
    else placeElems dims out is

end

/-- The cells of an array with dimensions `dims`, in the order of memory. -/
def flatten (dims : List Nat) : Init → Except LoweringError Cells
  | .expr e => .error { flaw := .invalidInit, span := e.span }
  | .list _ elems => do
    let cells ← placeElems dims #[] elems
    return cells ++ Array.replicate (product dims - cells.size) none

/-- The indices of the cell number `k` of an array, outermost first. -/
def indicesOf : (dims : List Nat) → (k : Nat) → List Nat
  | [], _ => []
  | _ :: ds, k => k / product ds :: indicesOf ds (k % product ds)

end Sysy.Lowering
