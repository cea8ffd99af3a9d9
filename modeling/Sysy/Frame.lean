import Sysy.Ir.Validity

/-!
Stack frames. Every instruction that has a user gets a slot of its own. From the stack pointer up, a
frame holds the arguments that are passed on the stack, then the slots in the order of the code, and
at its top the return address if the function calls another.
-/

namespace Sysy

/-- What frames depend on. -/
structure Machine where
  /-- The name of the machine. -/
  triple : String
  /-- Bytes of a word, which is also the size of a pointer. -/
  wordSize : Int
  /-- The size of a frame is a multiple of this. -/
  stackAlign : Int
  /-- How many arguments are passed in registers. -/
  argRegs : Int
  deriving DecidableEq, Repr

def Machine.rv32 : Machine :=
  { triple := "riscv32-unknown-elf", wordSize := 4, stackAlign := 16, argRegs := 8 }

/-- The place of a value in a frame. -/
structure Slot where
  offset : Int
  size : Int
  /-- The slot holds an address. The slot of a local is the local itself. -/
  isPtr : Bool
  deriving DecidableEq, Repr

inductive FrameError where
  /-- The size is beyond the offsets of the machine; `outOfRange` tells that it is not even a signed
  32-bit number. -/
  | tooLarge (func : String) (outOfRange : Bool)
  | declared (func : String)
  | unsized (func : String) (value : Ir.ValueId)
  deriving DecidableEq, Repr

namespace FrameError

def number : FrameError → Nat
  | tooLarge _ _ => 1
  | declared _ => 2
  | unsized _ _ => 3

/-- The message for the number of an error, with the cause if there is one. -/
def messageOf (number : Nat) (func : String) (value : Ir.ValueId) (cause : Option String) :
    String :=
  match number, cause with
  | 1, none => s!"frame of @{func} is too large"
  | 1, some c => s!"frame of @{func} is too large: {c}"
  | 2, _ => s!"@{func} is a declaration and has no frame"
  | 3, _ => s!"value #{value} of @{func} has no storage size"
  | n, _ => s!"layout error kind={n} in @{func}"

def message : FrameError → String
  | tooLarge f outOfRange => messageOf 1 f 0 (if outOfRange then some "out of range" else none)
  | declared f => messageOf 2 f 0 none
  | unsized f v => messageOf 3 f v none

end FrameError

structure Frame where
  /-- The slot of each value by its number. -/
  slots : Array (Option Slot)
  /-- The label of each block that is laid out. -/
  labels : List (Ir.BlockId × String)
  /-- Bytes of all slots. -/
  locals : Int
  /-- Bytes of the arguments passed on the stack. -/
  outArgs : Int
  /-- The largest number of arguments of a call. -/
  maxArgs : Nat
  hasCall : Bool
  size : Int
  /-- Where the return address is saved, if there is a call. -/
  raOffset : Int
  deriving Repr

namespace Frame
open Ir

def slot? (fr : Frame) (id : ValueId) : Option Slot := fr.slots.getD id none

/-- The label of a block; one that is not laid out has none. -/
def label (fr : Frame) (bb : BlockId) : String := (fr.labels.lookup bb).getD ""

/-- The least multiple of `align` that is not below `n`. -/
def alignUp (n align : Int) : Int := if align ≤ 1 then n else (n + align - 1).tdiv align * align

/-- The label of a block tells the function, the block's hint and its number. -/
def blockLabel (f : Func) (bb : BlockId) : String := ".L" ++ f.name ++ "_" ++ f.blockName bb

/-- What is known of a frame after a part of the code. Slots do not yet count the arguments below
them. -/
structure Draft where
  locals : Int := 0
  hasCall : Bool := false
  maxArgs : Nat := 0
  slots : List (ValueId × Slot) := []

/-- Takes account of one instruction. -/
def Draft.add (t : Machine) (m : Module) (used : Array Bool) (f : Func) (d : Draft) (id : ValueId) :
    Except FrameError Draft :=
  match m.value? id with
  | none => .ok d
  | some v =>
    let d := match v.node with
      | .call _ args => { d with hasCall := true, maxArgs := max d.maxArgs args.length }
      | _ => d
    if used.getD id false then
      let (size, isPtr) :=
        if v.node.isAlloc then (v.ty.elem.size, false) else (t.wordSize, v.ty.isPtr)
      if size ≤ 0 then .error (.unsized f.name id)
      else .ok { d with
        locals := d.locals + size
        slots := (id, { offset := d.locals, size, isPtr }) :: d.slots }
    else .ok d

def maxSize : Int := 0x7FFFFFFF

/-- The frame of a function that is defined. -/
def plan (t : Machine) (m : Module) (f : Func) : Except FrameError Frame := do
  let d ← f.insts.foldlM (Draft.add t m m.usedTable f) {}
  let outArgs := max 0 (d.maxArgs - t.argRegs) * t.wordSize
  let total := d.locals + outArgs + (if d.hasCall then t.wordSize else 0)
  let size := alignUp total t.stackAlign
  if size < -0x80000000 ∨ maxSize < size then throw (.tooLarge f.name true)
  else if maxSize - t.stackAlign < size then throw (.tooLarge f.name false)
  else
    let empty : Array (Option Slot) := Array.replicate (m.values.size + 1) none
    return {
      slots := d.slots.foldr (fun (id, s) all =>
        all.setIfInBounds id (some { s with offset := s.offset + outArgs })) empty
      labels := f.layout.toList.map fun bb => (bb, blockLabel f bb)
      locals := d.locals
      outArgs
      maxArgs := d.maxArgs
      hasCall := d.hasCall
      size
      raOffset := if d.hasCall then size - t.wordSize else 0 }

/-- The frame of a function. -/
def ofFunc (t : Machine) (m : Module) (f : Func) : Except FrameError Frame :=
  if f.isDeclared then .error (.declared f.name) else plan t m f

/-- Where a function finds the argument number `i` that was passed on the stack. -/
def incomingOffset (t : Machine) (fr : Frame) (i : Nat) : Int :=
  fr.size + (i - t.argRegs) * t.wordSize

/-- Where a caller puts the argument number `i` that is passed on the stack. -/
def outgoingOffset (t : Machine) (i : Nat) : Int := (i - t.argRegs) * t.wordSize

end Frame

end Sysy
