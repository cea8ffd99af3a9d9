import Sysy.Ir.Value

/-!
Modules of intermediate code and how they are built. A module keeps its values in the order in which
they were made, and records each use of a value when the user is made. Instructions go to the end of
a block that has no terminator yet; anything else is a fault of the builder.
-/

namespace Sysy.Ir

/-- Instructions that are run one after the other. -/
structure Block where
  /-- A hint for labels, such as `then` or `while_cond`. -/
  name : String
  insts : Array ValueId := #[]
  deriving Repr, Inhabited

/-- A function. One without laid-out blocks is only declared. -/
structure Func where
  id : FuncId
  name : String
  params : List Ty
  ret : Ty
  args : List ValueId := []
  blocks : Array Block := #[]
  /-- The blocks in the order in which they are written. -/
  layout : Array BlockId := #[]
  entry : BlockId := 0
  exit : BlockId := 0
  /-- The block that new instructions go to. -/
  current : BlockId := 0
  /-- Each target of a jump or branch with the instruction, in the order of creation. -/
  jumps : Array (BlockId × ValueId) := #[]
  deriving Repr, Inhabited

namespace Func

def isDeclared (f : Func) : Bool := f.layout.isEmpty

def ty (f : Func) : Ty := .func f.params f.ret

def block? (f : Func) (bb : BlockId) : Option Block := if bb = 0 then none else f.blocks[bb - 1]?

/-- The instructions that go to a block. -/
def blockUsers (f : Func) (bb : BlockId) : List ValueId :=
  (f.jumps.toList.filter (·.1 = bb)).map (·.2)

/-- Makes a block that is not laid out yet. -/
def addBlock (f : Func) (name : String) : BlockId × Func :=
  (f.blocks.size + 1, { f with blocks := f.blocks.push { name } })

/-- Puts a block at the end of the layout. -/
def place (f : Func) (bb : BlockId) : Func := { f with layout := f.layout.push bb }

def appendBlock (f : Func) (name : String) : BlockId × Func :=
  let (bb, f) := f.addBlock name
  (bb, f.place bb)

def unplace (f : Func) (bb : BlockId) : Func := { f with layout := f.layout.filter (· ≠ bb) }

/-- The name of a block in the text of the code: its hint and its number. -/
def blockName (f : Func) (bb : BlockId) : String :=
  match f.block? bb with
  | none => "?"
  | some b => s!"{b.name}_{bb}"

end Func

structure Module where
  values : Array Value := #[]
  /-- Each operand of each value with the value, in the order of creation. -/
  uses : Array (ValueId × ValueId) := #[]
  globals : Array ValueId := #[]
  funcs : Array Func := #[]
  deriving Repr, Inhabited

/-- A mistake of the code that builds a module. -/
inductive Fault where
  | unknownBlock (func : String) (block : BlockId)
  | afterTerminator (kind func : String) (block : BlockId)
  | notAtTop (depth : Nat)
  deriving DecidableEq, Repr

namespace Fault

def message : Fault → String
  | unknownBlock f bb => s!"ir: insert into unknown block {bb} of {f}"
  | afterTerminator k f bb => s!"ir: insert {k} after terminator in {f} block {bb}"
  | notAtTop d => s!"irgen: top-level item lowered at scope depth {d}"

end Fault

/-- A function that is to be added has the name of another one. -/
structure DuplicateFunc where
  name : String
  deriving DecidableEq, Repr

namespace DuplicateFunc

def message (e : DuplicateFunc) : String := "function " ++ e.name ++ " already defined"

end DuplicateFunc

namespace Module

def value? (m : Module) (id : ValueId) : Option Value := if id = 0 then none else m.values[id - 1]?

def node? (m : Module) (id : ValueId) : Option Node := (m.value? id).map (·.node)

def tyOf (m : Module) (id : ValueId) : Ty := ((m.value? id).map (·.ty)).getD .absent

def func? (m : Module) (id : FuncId) : Option Func := if id = 0 then none else m.funcs[id - 1]?

def funcNamed? (m : Module) (name : String) : Option Func := m.funcs.find? (·.name == name)

/-- The users of a value, in the order of creation; one that reads it twice is listed twice. -/
def users (m : Module) (id : ValueId) : List ValueId := (m.uses.toList.filter (·.1 = id)).map (·.2)

/-- For each number of a value, whether it has users. -/
def usedTable (m : Module) : Array Bool :=
  m.uses.foldl (fun t u => t.setIfInBounds u.1 true) (Array.replicate (m.values.size + 1) false)

/-- Whether the last instruction of a block ends it. -/
def isTerminated (m : Module) (b : Block) : Bool :=
  match b.insts.back? with
  | none => false
  | some id => ((m.node? id).map (·.isTerminator)).getD false

def modifyFunc (m : Module) (f : FuncId) (change : Func → Func) : Module :=
  { m with funcs := m.funcs.modify (f - 1) change }

/-- Adds a value and records what it uses. -/
def add (m : Module) (v : Value) : ValueId × Module :=
  let id := m.values.size + 1
  (id, { m with
    values := m.values.push v
    uses := m.uses ++ (v.node.operands.map fun op => (op, id)).toArray })

end Module

/-- Steps of building a module. -/
abbrev Build := StateT Module (Except Fault)

namespace Build

def add (v : Value) : Build ValueId := modifyGet (·.add v)

def integer (w : Word) : Build ValueId := add { node := .integer w, ty := .i32 }

def zeroInit (ty : Ty) : Build ValueId := add { node := .zeroInit, ty }

def aggregate (ty : Ty) (elems : List ValueId) : Build ValueId :=
  add { node := .aggregate elems, ty }

/-- A global variable with its initial value. -/
def global (name : String) (init : ValueId) : Build ValueId := do
  let ty := (← get).tyOf init
  let id ← add { node := .global init, ty := .ptr ty, name }
  modify fun m => { m with globals := m.globals.push id }
  return id

/-- Adds a function without blocks, and a value for each of its parameters. -/
def func (name : String) (params : List Ty) (ret : Ty) : Build FuncId := do
  let id := (← get).funcs.size + 1
  let args ← params.zipIdx.mapM fun (ty, i) => add { node := .arg i, ty, func := id }
  let ret := match ret with
    | .absent => .unit
    | t => t
  modify fun m => { m with funcs := m.funcs.push { id, name, params, ret, args } }
  return id

/-- Adds an instruction to the end of a block. -/
def insert (f : FuncId) (bb : BlockId) (node : Node) (ty : Ty) (name : String := "") :
    Build ValueId := do
  let m ← get
  let fname := ((m.func? f).map (·.name)).getD ""
  match (m.func? f).bind (·.block? bb) with
  | none => throw (.unknownBlock fname bb)
  | some b =>
    if m.isTerminated b then throw (.afterTerminator node.kindName fname bb)
    else
      let id ← add { node, ty, name, func := f, block := bb }
      modify (·.modifyFunc f fun fn =>
        { fn with
          blocks := fn.blocks.modify (bb - 1) fun b => { b with insts := b.insts.push id } })
      return id

/-- The block that new instructions of a function go to. -/
def current (f : FuncId) : Build BlockId := return (((← get).func? f).map (·.current)).getD 0

def setCurrent (f : FuncId) (bb : BlockId) : Build Unit :=
  modify (·.modifyFunc f fun fn => { fn with current := bb })

/-- Adds an instruction to the current block. -/
def emit (f : FuncId) (node : Node) (ty : Ty) : Build ValueId := do
  insert f (← current f) node ty

/-- Makes room for a local of a type. It stands in the entry block, wherever code is being added. -/
def alloc (f : FuncId) (ty : Ty) (name : String) : Build ValueId := do
  let entry := (((← get).func? f).map (·.entry)).getD 0
  insert f entry .alloc (.ptr ty) name

def load (f : FuncId) (src : ValueId) : Build ValueId := do
  emit f (.load src) ((← get).tyOf src).elem

def store (f : FuncId) (val dest : ValueId) : Build ValueId := emit f (.store val dest) .unit

def getElemPtr (f : FuncId) (src index : ValueId) : Build ValueId := do
  emit f (.getElemPtr src index) (.ptr ((← get).tyOf src).elem.elem)

def getPtr (f : FuncId) (src index : ValueId) : Build ValueId := do
  emit f (.getPtr src index) ((← get).tyOf src)

def binary (f : FuncId) (op : Arith) (lhs rhs : ValueId) : Build ValueId :=
  emit f (.binary op lhs rhs) .i32

def call (f callee : FuncId) (args : List ValueId) : Build ValueId := do
  let ret := (((← get).func? callee).map (·.ret)).getD .absent
  emit f (.call callee args) ret

def recordJump (f : FuncId) (target : BlockId) (id : ValueId) : Build Unit :=
  modify (·.modifyFunc f fun fn => { fn with jumps := fn.jumps.push (target, id) })

def jump (f : FuncId) (target : BlockId) : Build ValueId := do
  let id ← emit f (.jump target) .unit
  recordJump f target id
  return id

def branch (f : FuncId) (cond : ValueId) (yes no : BlockId) : Build ValueId := do
  let id ← emit f (.branch cond yes no) .unit
  recordJump f yes id
  recordJump f no id
  return id

def ret (f : FuncId) (val : Option ValueId) : Build ValueId := emit f (.ret val) .unit

/-- Adds a jump to the end of another block than the current one. -/
def jumpAt (f : FuncId) (bb target : BlockId) : Build ValueId := do
  let saved ← current f
  setCurrent f bb
  let id ← jump f target
  setCurrent f saved
  return id

def addBlock (f : FuncId) (name : String) : Build BlockId := do
  let bb := (((← get).func? f).map (·.blocks.size + 1)).getD 0
  modify (·.modifyFunc f fun fn => (fn.addBlock name).2)
  return bb

def place (f : FuncId) (bb : BlockId) : Build Unit := modify (·.modifyFunc f (·.place bb))

def unplace (f : FuncId) (bb : BlockId) : Build Unit := modify (·.modifyFunc f (·.unplace bb))

/-- The functions of the run-time library: name, parameters, result. -/
def libraryFuncs : List (String × List Ty × Ty) :=
  [("getint", [], .i32),
   ("getch", [], .i32),
   ("getarray", [.ptr .i32], .i32),
   ("putint", [.i32], .unit),
   ("putch", [.i32], .unit),
   ("putarray", [.i32, .ptr .i32], .unit),
   ("starttime", [], .unit),
   ("stoptime", [], .unit)]

/-- Adds a function, unless there is one of that name. -/
def newFunc (name : String) (params : List Ty) (ret : Ty) :
    Build (Except DuplicateFunc FuncId) := do
  if ((← get).funcNamed? name).isSome then return .error ⟨name⟩
  else return .ok (← func name params ret)

def declareLibrary : Build Unit :=
  libraryFuncs.forM fun (name, params, ret) => do
    let _ ← newFunc name params ret

end Build

end Sysy.Ir
