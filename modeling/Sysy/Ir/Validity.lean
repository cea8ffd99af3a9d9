import Sysy.Ir.Module

/-!
Checks of intermediate code. `faults` looks at the shape that every module must have; `strictFaults`
asks for more, once there are no such faults.
-/

namespace Sysy.Ir

namespace Func

/-- Faults of one instruction at a place in a block. -/
def instFaults (m : Module) (f : Func) (bb : BlockId) (isLast : Bool) (id : ValueId) :
    List String :=
  match m.value? id with
  | none => []
  | some v =>
    let name := f.blockName bb
    let order :=
      if v.node.isTerminator = isLast then []
      else if isLast then [s!"block {name} does not end with a terminator"]
      else [s!"block {name} has {v.node.kindName} before its end"]
    let targets := (v.node.successors.filter fun t => !f.layout.contains t).map fun t =>
      s!"block {name} jumps to missing block {t}"
    let operands := (v.node.operands.filter fun op => (m.value? op).isNone).map fun op =>
      s!"block {name}: {v.node.kindName} uses undefined value {op}"
    let own := match v.node with
      | .ret val =>
        (if bb ≠ f.exit then [s!"return outside end block in {name}"] else []) ++
        (if f.ret.isUnit = val.isSome
          then [s!"return value does not match result type {f.ret.text}"] else [])
      | .alloc => if bb ≠ f.entry then [s!"alloc outside entry block in {name}"] else []
      | _ => []
    order ++ targets ++ operands ++ own

def blockFaults (m : Module) (f : Func) (bb : BlockId) : List String :=
  let insts := ((f.block? bb).map (·.insts.toList)).getD []
  if insts.isEmpty then [s!"block {f.blockName bb} is empty"]
  else insts.zipIdx.flatMap fun (id, i) => f.instFaults m bb (i + 1 = insts.length) id

/-- The blocks that stand in the layout again, after the blocks `seen`. -/
def repeated : (seen : List BlockId) → List BlockId → List BlockId
  | _, [] => []
  | seen, bb :: r => if seen.contains bb then bb :: repeated seen r else repeated (bb :: seen) r

/-- The instructions of a function in the order of its layout. -/
def insts (f : Func) : List ValueId :=
  f.layout.toList.flatMap fun bb => ((f.block? bb).map (·.insts.toList)).getD []

def returns (m : Module) (f : Func) : Nat :=
  (f.insts.filter fun id => match m.node? id with
    | some (.ret _) => true
    | _ => false).length

def faults (m : Module) (f : Func) : List String :=
  (if f.layout[0]? ≠ some f.entry then [s!"entry block {f.blockName f.entry} is not first"] else
    []) ++
  (if f.layout.back? ≠ some f.exit then [s!"end block {f.blockName f.exit} is not last"] else []) ++
  (repeated [] f.layout.toList).map (fun bb => s!"block {f.blockName bb} laid out twice") ++
  f.layout.toList.flatMap (f.blockFaults m) ++
  (if f.returns m ≠ 1 then [s!"expected exactly one return, found {f.returns m}"] else [])

def strictFaults (m : Module) (f : Func) : List String :=
  (if f.layout.back? ≠ some f.exit then [s!"@{f.name}: end block is not last"] else []) ++
  (match (f.blockUsers f.entry).length with
    | 0 => []
    | n => [s!"@{f.name}: entry block has {n} predecessors"]) ++
  (f.insts.filterMap fun id => match m.value? id with
    | some v =>
      if v.ty.isUnit && !(m.users id).isEmpty
        then some s!"@{f.name}: unit value {v.node.kindName} has users"
      else none
    | none => none) ++
  (if f.returns m ≠ 1 then [s!"@{f.name}: {f.returns m} returns, want 1"] else [])

end Func

namespace Module

def isGlobal (m : Module) (id : ValueId) : Bool :=
  match m.node? id with
  | some (.global _) => true
  | _ => false

/-- The faults of a module, one text for each global and each function; that of a function has a
line for each of its faults. -/
def faults (m : Module) : List String :=
  (m.globals.toList.filter (!m.isGlobal ·)).map (fun id => s!"global {id} is not a global alloc") ++
  (m.funcs.toList.filter (!·.isDeclared)).filterMap fun f =>
    match f.faults m with
    | [] => none
    | fs => some ("function " ++ f.name ++ ": " ++ String.intercalate "\n" fs)

/-- The faults of a module, or what the stricter checks find if there are none. -/
def strictFaults (m : Module) : List String :=
  match m.faults with
  | [] => (m.funcs.toList.filter (!·.isDeclared)).flatMap (·.strictFaults m)
  | fs => fs

end Module

/-- Faults as one text, or `ok`. -/
def verdict (faults : List String) : String :=
  if faults.isEmpty then "ok" else String.intercalate "\n" faults

end Sysy.Ir
