import Sysy.Assembly.Emission
import Sysy.Proofs.Ir.Execution

/-!
Runs of assembly on a machine whose memory holds data from its start up and the stack from its end
down. The run-time library is served by the machine itself. A step is stuck when an instruction
cannot be encoded, an access is not aligned or leaves the memory, or a label is missing.
-/

namespace Sysy.Assembly
open Ir

/-- The memory of a machine, from the address `base` to the address `top`. -/
structure Board where
  base : Int
  top : Int
  base_nonneg : 0 ≤ base
  base_aligned : 4 ∣ base
  top_aligned : 16 ∣ top
  top_small : top < 0x80000000

namespace Board

def small : Board := ⟨0x100, 0x100000, by decide, by decide, by decide, by decide⟩

def Has (b : Board) (a : Int) : Prop := b.base ≤ a ∧ a + 4 ≤ b.top ∧ 4 ∣ a

instance (b : Board) (a : Int) : Decidable (b.Has a) := inferInstanceAs (Decidable (_ ∧ _ ∧ _))

end Board

/-- Assembly as it is loaded. The latest definition of a label comes first. -/
structure Image where
  code : List Instr := []
  /-- The number of the instruction behind each label. -/
  labels : List (String × Nat) := []
  /-- The address of each piece of data. -/
  symbols : List (String × Int) := []
  data : List Word := []
  inText : Bool := true
  deriving DecidableEq, Repr

def Datum.words : Datum → List Word
  | .zeros n => List.replicate n 0
  | .word w => [w]

namespace Image

def add (b : Board) (img : Image) : Line → Image
  | .textSection => { img with inText := true }
  | .dataSection => { img with inText := false }
  | .label s =>
    if img.inText then { img with labels := (s, img.code.length) :: img.labels }
    else { img with symbols := (s, b.base + 4 * img.data.length) :: img.symbols }
  | .instr i => { img with code := img.code ++ [i] }
  | .datum d => { img with data := img.data ++ d.words }
  | .blank | .globl _ => img

def ofLines (b : Board) (ls : List Line) : Image := ls.foldl (add b) {}

def dataEnd (b : Board) (img : Image) : Int := b.base + 4 * img.data.length

end Image

def Alu.eval : Alu → Word → Word → Word
  | add, x, y => x + y
  | sub, x, y => x - y
  | mul, x, y => x * y
  | div, x, y => if y = 0 then -1 else x.sdiv y
  | rem, x, y => if y = 0 then x else x.srem y
  | slt, x, y => Word.ofBool (x.slt y)
  | sgt, x, y => Word.ofBool (y.slt x)
  | xor, x, y => x ^^^ y

structure Core where
  regs : Reg → Word
  mem : Int → Word

namespace Core

def set (c : Core) (r : Reg) (w : Word) : Core := { c with regs := Function.update c.regs r w }

def write (c : Core) (a : Int) (w : Word) : Core := { c with mem := Function.update c.mem a w }

def address? (b : Board) (c : Core) (offset : Int) (base : Reg) : Option Int :=
  let a := (c.regs base).toInt + offset
  if fitsImm12 offset ∧ b.Has a then some a else none

@[simp] theorem regs_set_self (c : Core) (r : Reg) (w : Word) : (c.set r w).regs r = w :=
  by simp [set]

theorem regs_set_of_ne (c : Core) {r r' : Reg} (w : Word) (h : r' ≠ r) :
    (c.set r w).regs r' = c.regs r' := by
  simp [set, h]

@[simp] theorem mem_set (c : Core) (r : Reg) (w : Word) : (c.set r w).mem = c.mem := rfl

@[simp] theorem regs_write (c : Core) (a : Int) (w : Word) : (c.write a w).regs = c.regs := rfl

@[simp] theorem mem_write (c : Core) (a : Int) (w : Word) :
    (c.write a w).mem = Function.update c.mem a w := rfl

end Core

def exec (b : Board) (img : Image) (c : Core) : Instr → Option Core
  | .li rd v => some (c.set rd (BitVec.ofInt 32 v))
  | .la rd s => (img.symbols.lookup s).map fun a => c.set rd (BitVec.ofInt 32 a)
  | .mv rd rs => some (c.set rd (c.regs rs))
  | .lw rd o base => (c.address? b o base).map fun a => c.set rd (c.mem a)
  | .sw rs o base => (c.address? b o base).map fun a => c.write a (c.regs rs)
  | .addi rd rs v => if fitsImm12 v then some (c.set rd (c.regs rs + BitVec.ofInt 32 v)) else none
  | .alu op rd rs1 rs2 => some (c.set rd (op.eval (c.regs rs1) (c.regs rs2)))
  | .seqz rd rs => some (c.set rd (Word.ofBool (c.regs rs == 0)))
  | .snez rd rs => some (c.set rd (Word.ofBool (c.regs rs != 0)))
  | .j _ | .bnez _ _ | .call _ | .ret => none

/-- Runs instructions that do not jump one after the other. -/
def execAll (b : Board) (img : Image) : List Instr → Core → Option Core
  | [], c => some c
  | i :: is, c => do execAll b img is (← exec b img c i)

def loadWords (b : Board) (mem : Int → Word) : (a : Int) → (count : Nat) → Option (List Word)
  | _, 0 => some []
  | a, n + 1 => if b.Has a then (loadWords b mem (a + 4) n).map (mem a :: ·) else none

def storeWords (b : Board) : (a : Int) → List Word → Core → Option Core
  | _, [], c => some c
  | a, w :: ws, c => if b.Has a then storeWords b (a + 4) ws (c.write a w) else none

def serve (b : Board) (lib : Library) (trace : List Event) (c : Core) :
    Service → Option (Core × Event)
  | .getint => do return (c.set (.a 0) (← lib.getint trace), ⟨"getint", []⟩)
  | .getch => do return (c.set (.a 0) (← lib.getch trace), ⟨"getch", []⟩)
  | .getarray => do
    let ws ← lib.getarray trace
    let c ← storeWords b (c.regs (.a 0)).toInt ws c
    return (c.set (.a 0) (BitVec.ofNat 32 ws.length), ⟨"getarray", []⟩)
  | .putint => some (c, ⟨"putint", [c.regs (.a 0)]⟩)
  | .putch => some (c, ⟨"putch", [c.regs (.a 0)]⟩)
  | .putarray => do
    let ws ← loadWords b c.mem (c.regs (.a 1)).toInt (c.regs (.a 0)).toInt.toNat
    return (c, ⟨"putarray", c.regs (.a 0) :: ws⟩)
  | .starttime => some (c, ⟨"starttime", []⟩)
  | .stoptime => some (c, ⟨"stoptime", []⟩)

structure State where
  pc : Int
  core : Core
  /-- The calls of the library, the latest first. -/
  trace : List Event

def invoke (b : Board) (img : Image) (lib : Library) (σ : State) (name : String) : Option State :=
  if 16 ∣ (σ.core.regs .sp).toInt then
    match Service.ofName? name with
    | some k => (serve b lib σ.trace σ.core k).map fun (core, e) =>
        { pc := σ.pc + 1, core, trace := e :: σ.trace }
    | none => (img.labels.lookup name).map fun (n : Nat) =>
        { σ with pc := n, core := σ.core.set .ra (BitVec.ofInt 32 (σ.pc + 1)) }
  else none

def perform (b : Board) (img : Image) (lib : Library) (σ : State) : Instr → Option State
  | .j l => (img.labels.lookup l).map fun (n : Nat) => { σ with pc := n }
  | .bnez rs l =>
    if σ.core.regs rs = 0 then some { σ with pc := σ.pc + 1 }
    else (img.labels.lookup l).map fun (n : Nat) => { σ with pc := n }
  | .call s => invoke b img lib σ s
  | .ret => some { σ with pc := (σ.core.regs .ra).toInt }
  | i => (exec b img σ.core i).map fun core => { σ with pc := σ.pc + 1, core }

def step (b : Board) (img : Image) (lib : Library) (σ : State) : Option State :=
  if σ.pc < 0 then none else img.code[σ.pc.toNat]?.bind (perform b img lib σ)

/-- The machine before it calls the main function, if a register can number all instructions.
Registers and memory are zero but for the data, the stack pointer and the return address. -/
def boot (b : Board) (img : Image) : Option State :=
  if img.code.length < 0x80000000 then
    (img.labels.lookup "main").map fun (n : Nat) => {
      pc := n
      core := {
        regs := fun r => match r with
          | .sp => BitVec.ofInt 32 b.top
          | .ra => -1
          | _ => 0
        mem := fun a =>
          if b.base ≤ a ∧ 4 ∣ a - b.base then img.data.getD ((a - b.base) / 4).toNat 0 else 0 }
      trace := [] }
  else none

end Sysy.Assembly
