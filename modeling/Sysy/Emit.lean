import Sysy.Text.Quoted

/-!
What a compilation can produce.
-/

namespace Sysy

/-- What to produce, by name: `ir` is the intermediate code, and every other name means assembly. -/
structure Emit where
  name : String
  deriving DecidableEq, Repr

namespace Emit

def riscv : Emit := ⟨"riscv"⟩
def ir : Emit := ⟨"ir"⟩

def isIr (e : Emit) : Bool := e.name = "ir"

/-- Assembly, unless something is asked for. -/
def orDefault (e : Emit) : Emit := if e.name = "" then riscv else e

/-- The ending of output files. -/
def extension (e : Emit) : String := if e.isIr then ".koopa" else ".S"

def read (s : String) : Except String Emit :=
  match s with
  | "" | "riscv" => .ok riscv
  | "ir" => .ok ir
  | s => .error ("unknown emit kind " ++ Quoted.encodeText s ++ " (want riscv or ir)")

end Emit

end Sysy
