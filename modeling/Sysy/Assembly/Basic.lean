import Sysy.Tree.Basic

/-!
Assembly for a 32-bit RISC-V machine, and its text.
-/

namespace Sysy.Assembly

inductive Reg where
  | sp | ra | t0 | t1 | t2
  /-- The register of an argument, or of the result. -/
  | a (index : Nat)
  deriving DecidableEq, Repr, Inhabited

namespace Reg

def name : Reg → String
  | sp => "sp"
  | ra => "ra"
  | t0 => "t0"
  | t1 => "t1"
  | t2 => "t2"
  | a i => s!"a{i}"

end Reg

/-- Operations on two registers. -/
inductive Alu where
  | add | sub | mul | div | rem | slt | sgt | xor
  deriving DecidableEq, Repr, Inhabited

namespace Alu

def name : Alu → String
  | add => "add"
  | sub => "sub"
  | mul => "mul"
  | div => "div"
  | rem => "rem"
  | slt => "slt"
  | sgt => "sgt"
  | xor => "xor"

end Alu

inductive Instr where
  | li (rd : Reg) (value : Int)
  | la (rd : Reg) (symbol : String)
  | mv (rd rs : Reg)
  | lw (rd : Reg) (offset : Int) (base : Reg)
  | sw (rs : Reg) (offset : Int) (base : Reg)
  | addi (rd rs : Reg) (value : Int)
  | alu (op : Alu) (rd rs1 rs2 : Reg)
  | seqz (rd rs : Reg)
  | snez (rd rs : Reg)
  | j (label : String)
  | bnez (rs : Reg) (label : String)
  | call (symbol : String)
  | ret
  deriving DecidableEq, Repr, Inhabited

namespace Instr

def text : Instr → String
  | li rd v => s!"li {rd.name}, {v}"
  | la rd s => s!"la {rd.name}, {s}"
  | mv rd rs => s!"mv {rd.name}, {rs.name}"
  | lw rd o b => s!"lw {rd.name}, {o}({b.name})"
  | sw rs o b => s!"sw {rs.name}, {o}({b.name})"
  | addi rd rs v => s!"addi {rd.name}, {rs.name}, {v}"
  | alu op rd r1 r2 => s!"{op.name} {rd.name}, {r1.name}, {r2.name}"
  | seqz rd rs => s!"seqz {rd.name}, {rs.name}"
  | snez rd rs => s!"snez {rd.name}, {rs.name}"
  | j l => s!"j {l}"
  | bnez rs l => s!"bnez {rs.name}, {l}"
  | call s => s!"call {s}"
  | ret => "ret"

end Instr

/-- Words of initialised memory; zeros are counted. -/
inductive Datum where
  | zeros (count : Nat)
  | word (value : Word)
  deriving DecidableEq, Repr

inductive Line where
  | blank
  | textSection
  | dataSection
  | globl (symbol : String)
  | label (symbol : String)
  | instr (i : Instr)
  | datum (d : Datum)
  deriving DecidableEq, Repr

namespace Line

def text : Line → String
  | blank => "\n"
  | textSection => "  .text\n"
  | dataSection => "  .data\n"
  | globl s => s!"  .globl {s}\n"
  | label s => s!"{s}:\n"
  | instr i => s!"  {i.text}\n"
  | datum (.zeros n) => s!"  .zero {n * 4}\n"
  | datum (.word w) => s!"  .word {w.toInt}\n"

end Line

/-- The text of an assembly file. -/
def text (ls : List Line) : String := String.join (ls.map Line.text)

end Sysy.Assembly
