import Sysy.Ir.Module

/-!
Intermediate code as text. Values print under their own names, made unique where two of them clash,
and values without a name are numbered in each function.
-/

namespace Sysy.Ir

namespace Printer

/-- Which names have been given out. -/
structure Names where
  /-- The name of each value that was printed, by its number. -/
  given : Array (Option String)
  /-- How often each name was asked for. -/
  taken : List (String × Nat) := []
  /-- The number of the next value without a name. -/
  next : Nat := 0

abbrev Print := StateM Names

def count (taken : List (String × Nat)) (name : String) : Nat := (taken.lookup name).getD 0

/-- Counts a name once more. -/
def bump : List (String × Nat) → String → List (String × Nat)
  | [], name => [(name, 1)]
  | (n, k) :: r, name => if n = name then (n, k + 1) :: r else (n, k) :: bump r name

/-- The first free name of the form `base_i` from `i` on. There are at most `bound` names to pass
over. -/
def firstFree (taken : List (String × Nat)) (base : String) : (bound i : Nat) → String
  | 0, i => base ++ "_" ++ toString i
  | bound + 1, i =>
    let n := base ++ "_" ++ toString i
    if 0 < count taken n then firstFree taken base bound (i + 1) else n

/-- A name that is not taken yet: the base itself, or the base with a number. -/
def uniqueName (taken : List (String × Nat)) (base : String) : String :=
  if count taken base = 0 then base else firstFree taken base taken.length (count taken base)

def unique (base : String) : Print String := modifyGet fun s =>
  let n := uniqueName s.taken base
  let taken := bump s.taken n
  (n, { s with taken := if n = base then taken else bump taken base })

/-- The name of a value, given to it when it is first printed. -/
def nameOf (m : Module) (id : ValueId) : Print String := do
  match (← get).given.getD id none with
  | some n => return n
  | none =>
    let v := (m.value? id).getD { node := .zeroInit, ty := .absent }
    let n ←
      if v.name ≠ "" then unique v.name
      else match v.node with
        | .arg i => unique s!"@arg{i}"
        | _ => modifyGet fun s => ("%" ++ toString s.next, { s with next := s.next + 1 })
    modify fun s => { s with given := s.given.setIfInBounds id (some n) }
    return n

/-- A value where it is used. Constants print their value; `depth` bounds how deep they are
nested. -/
def operand (m : Module) : (depth : Nat) → ValueId → Print String
  | 0, _ => return "<none>"
  | depth + 1, id => do
    match m.node? id with
    | none => return "<none>"
    | some (.integer v) => return toString v.toInt
    | some .zeroInit => return "zeroinit"
    | some (.aggregate es) =>
      let parts ← es.mapM (operand m depth)
      return "\x7b" ++ String.intercalate ", " parts ++ "\x7d"
    | some _ => nameOf m id

def use (m : Module) (id : ValueId) : Print String := operand m (m.values.size + 1) id

/-- One instruction. -/
def inst (m : Module) (f : Func) (id : ValueId) : Print String := do
  match m.value? id with
  | none => return ""
  | some v =>
    match v.node with
    | .alloc => return (← nameOf m id) ++ " = alloc " ++ v.ty.elem.text
    | .load s =>
      let n ← nameOf m id
      return n ++ " = load " ++ (← use m s)
    | .store x d =>
      let x ← use m x
      return "store " ++ x ++ ", " ++ (← use m d)
    | .getPtr s i =>
      let n ← nameOf m id
      let s ← use m s
      return n ++ " = getptr " ++ s ++ ", " ++ (← use m i)
    | .getElemPtr s i =>
      let n ← nameOf m id
      let s ← use m s
      return n ++ " = getelemptr " ++ s ++ ", " ++ (← use m i)
    | .binary op l r =>
      let n ← nameOf m id
      let l ← use m l
      return n ++ " = " ++ op.name ++ " " ++ l ++ ", " ++ (← use m r)
    | .branch c y n =>
      return "br " ++ (← use m c) ++ ", %" ++ f.blockName y ++ ", %" ++ f.blockName n
    | .jump t => return "jump %" ++ f.blockName t
    | .call callee args =>
      let args ← args.mapM (use m)
      let name := ((m.func? callee).map (·.name)).getD ""
      let call := "call @" ++ name ++ "(" ++ String.intercalate ", " args ++ ")"
      if v.ty.isUnit then return call
      else return (← nameOf m id) ++ " = " ++ call
    | .ret none => return "ret"
    | .ret (some x) => return "ret " ++ (← use m x)
    | k => return "<" ++ k.kindName ++ ">"

def retText (t : Ty) : String := if t.isUnit then "" else ": " ++ t.text

def block (m : Module) (f : Func) (bb : BlockId) : Print String := do
  let insts := ((f.block? bb).map (·.insts.toList)).getD []
  let lines ← insts.mapM fun id => return "  " ++ (← inst m f id) ++ "\n"
  return "%" ++ f.blockName bb ++ ":\n" ++ String.join lines

def param (m : Module) (p : ValueId × Ty) : Print String :=
  return (← nameOf m p.1) ++ ": " ++ p.2.text

/-- A function that is defined. -/
def definition (m : Module) (f : Func) : Print String := do
  let params ← (f.args.zip f.params).mapM (param m)
  let head :=
    "fun @" ++ f.name ++ "(" ++ String.intercalate ", " params ++ ")" ++ retText f.ret ++ " \x7b\n"
  let blocks ← f.layout.toList.mapM (block m f)
  return head ++ String.join blocks ++ "\x7d\n"

/-- A function that is defined, with names that start over from those of the globals. -/
def func (m : Module) (globals : List (String × Nat)) (f : Func) : Print String := do
  modify fun s => { s with taken := globals, next := 0 }
  definition m f

def declaration (f : Func) : String :=
  "decl @" ++ f.name ++ "(" ++ Ty.listText f.params ++ ")" ++ retText f.ret ++ "\n"

def global (m : Module) (id : ValueId) : Print String := do
  let n ← nameOf m id
  let init := match m.node? id with
    | some (.global i) => i
    | _ => 0
  return "global " ++ n ++ " = alloc " ++ (m.tyOf id).elem.text ++ ", " ++ (← use m init) ++ "\n"

/-- The parts of a module's text that are divided by blank lines: declarations, globals, and each
function. -/
def sections (m : Module) : Print (List String) := do
  let decls := String.join ((m.funcs.toList.filter (·.isDeclared)).map declaration)
  let globals ← m.globals.toList.mapM (global m)
  let taken := (← get).taken
  let funcs ← (m.funcs.toList.filter (!·.isDeclared)).mapM (func m taken)
  let first := if decls = "" then [] else [decls]
  let second := if globals.isEmpty then [] else [String.join globals]
  return first ++ second ++ funcs

end Printer

/-- The text of a module. -/
def Module.text (m : Module) : String :=
  String.intercalate "\n"
    (Printer.sections m { given := Array.replicate (m.values.size + 1) none }).1

end Sysy.Ir
