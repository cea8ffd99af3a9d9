import Sysy.Assembly.Basic
import Sysy.Frame

/-!
Emission of assembly. Every value with users lives in its slot; an instruction loads its operands
into scratch registers, computes, and saves its result. Offsets that do not fit an instruction are
first put into a register.
-/

namespace Sysy.Assembly
open Ir

/-- Why the code of a function or the words of a global cannot be emitted. -/
inductive CodeError where
  | frame (e : FrameError)
  | missingValue (id : ValueId)
  | noSlot (kind : String) (id : ValueId)
  | notPointer (kind : String) (id : ValueId)
  | notArray (id : ValueId)
  | unknownCallee (id : ValueId)
  | unsupported (kind : String)
  | missingInit (id : ValueId)
  | unsupportedInit (kind : String)
  deriving DecidableEq, Repr

namespace CodeError

def message : CodeError → String
  | frame e => e.message
  | missingValue id => s!"missing value #{id}"
  | noSlot kind id => s!"{kind} #{id} has no stack slot"
  | notPointer kind id => s!"{kind} #{id}: source is not a pointer"
  | notArray id => s!"getelemptr #{id}: source does not point to an array"
  | unknownCallee id => s!"call #{id}: unknown callee"
  | unsupported kind => s!"unsupported instruction {kind}"
  | missingInit id => s!"missing initializer #{id}"
  | unsupportedInit kind => s!"unsupported initializer {kind}"

end CodeError

inductive EmissionError where
  | inFunc (func : String) (e : CodeError)
  | inGlobal (name : String) (e : CodeError)
  | notGlobal (id : ValueId)
  deriving DecidableEq, Repr

namespace EmissionError

def message : EmissionError → String
  | inFunc f e => s!"riscv: @{f}: {e.message}"
  | inGlobal n e => s!"riscv: global {n}: {e.message}"
  | notGlobal id => s!"riscv: global #{id} is not a global alloc"

end EmissionError

/-- The symbol of a global: its name without the sigil. -/
def symbol (name : String) : String :=
  match name.toList with
  | '@' :: r => String.ofList r
  | _ => name

/-- Whether a number is a signed 12-bit one, as instructions can hold. -/
def fitsImm12 (n : Int) : Bool := -2048 ≤ n && n ≤ 2047

/-- What the code of a function depends on. -/
structure Env where
  machine : Machine
  module : Module
  frame : Frame

abbrev Emit := Except CodeError (List Instr)

/-- The operand for the memory at an offset from the stack pointer, and the code that has to come
first. -/
def spAddr (tmp : Reg) (off : Int) : List Instr × Int × Reg :=
  if fitsImm12 off then ([], off, .sp) else ([.li tmp off, .alu .add tmp tmp .sp], 0, tmp)

def loadSp (rd tmp : Reg) (off : Int) : List Instr :=
  let (first, o, base) := spAddr tmp off
  first ++ [.lw rd o base]

def storeSp (rs tmp : Reg) (off : Int) : List Instr :=
  let (first, o, base) := spAddr tmp off
  first ++ [.sw rs o base]

/-- Puts the address at an offset from the stack pointer into a register. -/
def addrSp (rd : Reg) (off : Int) : List Instr :=
  if fitsImm12 off then [.addi rd .sp off] else [.li rd off, .alu .add rd rd .sp]

/-- Puts a value into a register. -/
def loadValue (env : Env) (rd : Reg) (id : ValueId) : Emit :=
  match env.module.value? id with
  | none => .error (.missingValue id)
  | some v =>
    match v.node with
    | .integer w => .ok [.li rd w.toInt]
    | .arg i =>
      if (i : Int) < env.machine.argRegs then .ok [.mv rd (.a i)]
      else .ok (loadSp rd rd (Frame.incomingOffset env.machine env.frame i))
    | .global _ => .ok [.la rd (symbol v.name)]
    | k =>
      match env.frame.slot? id with
      | none => .error (.noSlot k.kindName id)
      | some s => .ok (if k.isAlloc then addrSp rd s.offset else loadSp rd rd s.offset)

/-- Saves a result in its slot. A value without users has none. -/
def saveResult (env : Env) (id : ValueId) (rs tmp : Reg) : List Instr :=
  match env.frame.slot? id with
  | none => []
  | some s => storeSp rs tmp s.offset

def isAlloc (env : Env) (id : ValueId) : Bool := ((env.module.node? id).map (·.isAlloc)).getD false

/-- The slot of a local. -/
def allocSlot (env : Env) (id : ValueId) : Except CodeError Slot :=
  match env.frame.slot? id with
  | none => .error (.noSlot "alloc" id)
  | some s => .ok s

def emitLoad (env : Env) (id src : ValueId) : Emit := do
  let read ←
    if isAlloc env src then pure (loadSp .t0 .t0 (← allocSlot env src).offset)
    else pure ((← loadValue env .t0 src) ++ [.lw .t0 0 .t0])
  return read ++ saveResult env id .t0 .t1

def emitStore (env : Env) (val dest : ValueId) : Emit := do
  let read ← loadValue env .t0 val
  if isAlloc env dest then return read ++ storeSp .t0 .t1 (← allocSlot env dest).offset
  else return read ++ (← loadValue env .t1 dest) ++ [.sw .t0 0 .t1]

/-- The offset of an element whose index is a constant, if an instruction can hold it. -/
def constOffset? (env : Env) (index : ValueId) (size : Int) : Option Int :=
  match env.module.node? index with
  | some (.integer w) => if fitsImm12 (w.toInt * size) then some (w.toInt * size) else none
  | _ => none

/-- Moves the pointer `src` by `index` elements of `size` bytes. -/
def emitOffset (env : Env) (id src index : ValueId) (size : Int) : Emit := do
  let base ← loadValue env .t0 src
  let move ← match constOffset? env index size with
    | some off => pure (if off = 0 then [] else [.addi .t0 .t0 off])
    | none =>
      let read ← loadValue env .t1 index
      pure (read ++ [.li .t2 size, .alu .mul .t1 .t1 .t2, .alu .add .t0 .t0 .t1])
  return base ++ move ++ saveResult env id .t0 .t1

def emitGetPtr (env : Env) (id src index : ValueId) : Emit :=
  match env.module.tyOf src with
  | .ptr e => emitOffset env id src index e.size
  | _ => .error (.notPointer "getptr" id)

def emitGetElemPtr (env : Env) (id src index : ValueId) : Emit :=
  match env.module.tyOf src with
  | .ptr (.array e _) => emitOffset env id src index e.size
  | .ptr _ => .error (.notArray id)
  | _ => .error (.notPointer "getelemptr" id)

/-- The instructions that compute an operation on `t0` and `t1` into `t0`. -/
def arithCode : Arith → List Instr
  | .add => [.alu .add .t0 .t0 .t1]
  | .sub => [.alu .sub .t0 .t0 .t1]
  | .mul => [.alu .mul .t0 .t0 .t1]
  | .div => [.alu .div .t0 .t0 .t1]
  | .mod => [.alu .rem .t0 .t0 .t1]
  | .lt => [.alu .slt .t0 .t0 .t1]
  | .gt => [.alu .sgt .t0 .t0 .t1]
  | .eq => [.alu .xor .t0 .t0 .t1, .seqz .t0 .t0]
  | .ne => [.alu .xor .t0 .t0 .t1, .snez .t0 .t0]
  | .ge => [.alu .slt .t0 .t0 .t1, .seqz .t0 .t0]
  | .le => [.alu .sgt .t0 .t0 .t1, .seqz .t0 .t0]
  | .unnamed => []

def emitBinary (env : Env) (id : ValueId) (op : Arith) (lhs rhs : ValueId) : Emit := do
  let l ← loadValue env .t0 lhs
  let r ← loadValue env .t1 rhs
  return l ++ r ++ arithCode op ++ saveResult env id .t0 .t2

/-- Passes arguments from number `i` on: in registers as long as there are any, then on the
stack. -/
def emitArgs (env : Env) : (i : Nat) → List ValueId → Emit
  | _, [] => .ok []
  | i, arg :: args => do
    let pass ←
      if (i : Int) < env.machine.argRegs then loadValue env (.a i) arg
      else do
        let read ← loadValue env .t0 arg
        pure (read ++ storeSp .t0 .t1 (Frame.outgoingOffset env.machine i))
    return pass ++ (← emitArgs env (i + 1) args)

def emitCall (env : Env) (id : ValueId) (callee : FuncId) (args : List ValueId) : Emit := do
  let pass ← emitArgs env 0 args
  match env.module.func? callee with
  | none => throw (.unknownCallee id)
  | some f => return pass ++ [.call f.name] ++ saveResult env id (.a 0) .t0

/-- Moves the stack pointer. -/
def addSp (delta : Int) : List Instr :=
  if fitsImm12 delta then [.addi .sp .sp delta] else [.li .t0 delta, .alu .add .sp .sp .t0]

/-- Opens the frame of a function. -/
def prologue (fr : Frame) : List Instr :=
  if fr.size = 0 then []
  else addSp (-fr.size) ++ (if fr.hasCall then storeSp .ra .t0 fr.raOffset else [])

/-- Closes the frame of a function and returns. -/
def epilogue (fr : Frame) : List Instr :=
  (if fr.size = 0 then []
    else (if fr.hasCall then loadSp .ra .t0 fr.raOffset else []) ++ addSp fr.size) ++ [.ret]

def emitInst (env : Env) (id : ValueId) : Emit :=
  match env.module.node? id with
  | none => .error (.missingValue id)
  | some node =>
    match node with
    | .alloc => .ok []
    | .load src => emitLoad env id src
    | .store val dest => emitStore env val dest
    | .getPtr src index => emitGetPtr env id src index
    | .getElemPtr src index => emitGetElemPtr env id src index
    | .binary op lhs rhs => emitBinary env id op lhs rhs
    | .call callee args => emitCall env id callee args
    | .jump target => .ok [.j (env.frame.label target)]
    | .branch cond yes no => do
      let read ← loadValue env .t0 cond
      return read ++ [.bnez .t0 (env.frame.label yes), .j (env.frame.label no)]
    | .ret none => .ok (epilogue env.frame)
    | .ret (some val) => return (← loadValue env (.a 0) val) ++ epilogue env.frame
    | k => .error (.unsupported k.kindName)

def emitInsts (env : Env) : List ValueId → Emit
  | [] => .ok []
  | id :: ids => do
    let code ← emitInst env id
    return code ++ (← emitInsts env ids)

def emitBlocks (env : Env) (f : Func) : List BlockId → Except CodeError (List Line)
  | [] => .ok []
  | bb :: bbs => do
    let code ← emitInsts env (((f.block? bb).map (·.insts.toList)).getD [])
    return .label (env.frame.label bb) :: code.map .instr ++ (← emitBlocks env f bbs)

def emitFunc (t : Machine) (m : Module) (f : Func) : Except CodeError (List Line) :=
  match Frame.ofFunc t m f with
  | .error e => .error (.frame e)
  | .ok frame => do
    let body ← emitBlocks ⟨t, m, frame⟩ f f.layout.toList
    return [.textSection, .globl f.name, .label f.name] ++ (prologue frame).map .instr ++ body

/-- The words of an initial value in the order of memory; `depth` bounds how deep it is nested. -/
def initData (m : Module) : (depth : Nat) → ValueId → Except CodeError (List Datum)
  | 0, id => .error (.missingInit id)
  | depth + 1, id =>
    match m.value? id with
    | none => .error (.missingInit id)
    | some v =>
      match v.node with
      | .integer w => .ok [if w = 0 then .zeros 1 else .word w]
      | .zeroInit => .ok [.zeros (v.ty.size.tdiv 4).toNat]
      | .aggregate es => return (← es.mapM (initData m depth)).flatten
      | k => .error (.unsupportedInit k.kindName)

/-- Joins neighbouring zeros into one. -/
def joinZeros : (zeros : Nat) → List Datum → List Datum
  | zeros, [] => if zeros = 0 then [] else [.zeros zeros]
  | zeros, .zeros n :: r => joinZeros (zeros + n) r
  | zeros, .word w :: r => (if zeros = 0 then [] else [.zeros zeros]) ++ .word w :: joinZeros 0 r

def emitGlobal (m : Module) (id : ValueId) : Except EmissionError (List Line) :=
  match m.value? id with
  | some v =>
    match v.node with
    | .global init =>
      let name := symbol v.name
      match initData m (m.values.size + 1) init with
      | .error e => .error (.inGlobal name e)
      | .ok ds => .ok ([.dataSection, .globl name, .label name] ++ (joinZeros 0 ds).map .datum)
    | _ => .error (.notGlobal id)
  | none => .error (.notGlobal id)

/-- Writes parts one after the other, with blank lines between them. -/
def joinParts : List (List Line) → List Line
  | [] => []
  | [p] => p
  | p :: ps => p ++ .blank :: joinParts ps

/-- The assembly of a module: its globals, then its functions. -/
def emit (t : Machine) (m : Module) : Except EmissionError (List Line) := do
  let globals ← m.globals.toList.mapM (emitGlobal m)
  let funcs ← (m.funcs.toList.filter (!·.isDeclared)).mapM fun f =>
    match emitFunc t m f with
    | .error e => .error (.inFunc f.name e)
    | .ok code => .ok code
  return joinParts (globals ++ funcs)

end Sysy.Assembly
