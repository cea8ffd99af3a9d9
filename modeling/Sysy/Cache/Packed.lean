import Sysy.Cache.Digest

/-!
Packed records: numbers, texts, lists and maps in few bytes, each with a code in front that tells
what it is and how long (MessagePack). Reading takes any width of a number, passes over what it does
not know, and ignores what follows the record.
-/

namespace Sysy.Packed
open Digest

/-- A text behind its length. -/
def text (b : Bytes) : Bytes :=
  let n := b.length
  (if n < 32 then [UInt8.ofNat (0xa0 + n)]
    else if n < 256 then [0xd9, UInt8.ofNat n]
    else if n < 65536 then 0xda :: bigEndian 2 n
    else 0xdb :: bigEndian 4 n) ++ b

/-- A number below `2 ^ 16`. -/
def word16 (n : Nat) : Bytes := 0xcd :: bigEndian 2 n

/-- A signed number of 64 bits. -/
def int64 (n : Int) : Bytes := 0xd3 :: bigEndian 8 (n.emod 0x10000000000000000).toNat

/-- Why a record cannot be read. -/
inductive Error where
  /-- The data end before a part begins, or inside of it. -/
  | ended (inside : Bool)
  | badCode (code : UInt8) (what : String)
  | unknownCode (code : UInt8)
  | badCount
  deriving DecidableEq, Repr

namespace Error

/-- A byte as a number to the base sixteen, without zeros in front. -/
def hexByte (b : UInt8) : String := String.ofList (Nat.toDigits 16 b.toNat)

def message : Error → String
  | ended inside => if inside then "unexpected EOF" else "EOF"
  | badCode c what => "msgpack: invalid code=" ++ hexByte c ++ " decoding " ++ what
  | unknownCode c => "msgpack: unknown code " ++ hexByte c
  | badCount => "msgpack: number of fields in array-encoded struct has changed"

end Error

/-- Reading from the front of a byte string. -/
abbrev Reader := StateT Bytes (Except Error)

namespace Reader

def take (n : Nat) : Reader Bytes := do
  let b ← get
  if b.length < n then throw (.ended (b ≠ []))
  else
    set (b.drop n)
    return b.take n

def code : Reader UInt8 := do
  match ← get with
  | [] => throw (.ended false)
  | c :: r =>
    set r
    return c

/-- A number in big-endian bytes. -/
def natural (width : Nat) : Reader Nat :=
  return (← take width).foldl (fun n b => 256 * n + b.toNat) 0

/-- Nothing, or the length of a text that starts with a code. -/
def textLength (c : UInt8) : Reader (Option Nat) := do
  if c = 0xc0 then return none
  else if 0xa0 ≤ c ∧ c ≤ 0xbf then return some (c.toNat - 0xa0)
  else if c = 0xd9 ∨ c = 0xc4 then return some (← natural 1)
  else if c = 0xda ∨ c = 0xc5 then return some (← natural 2)
  else if c = 0xdb ∨ c = 0xc6 then return some (← natural 4)
  else throw (.badCode c "string/bytes length")

/-- A text; nothing reads as the empty one. -/
def text : Reader Bytes := do
  match ← textLength (← code) with
  | none => return []
  | some n => take n

/-- A signed number in big-endian bytes. -/
def signed (width : Nat) : Reader Int := return Int.bmod (← natural width) (Nat.pow 256 width)

/-- A number of any width; nothing reads as zero. -/
def integer (what : String) : Reader Int := do
  let c ← code
  match c.toNat with
  | 0xc0 => return 0
  | 0xcc => return ← natural 1
  | 0xcd => return ← natural 2
  | 0xce => return ← natural 4
  | 0xcf => return ← natural 8
  | 0xd0 => signed 1
  | 0xd1 => signed 2
  | 0xd2 => signed 4
  | 0xd3 => signed 8
  | n =>
    if n < 0x80 then return n
    else if 0xe0 ≤ n then return (n : Int) - 256
    else throw (.badCode c what)

/-- Passes over the rest of a part that starts with a code, and tells how many parts follow inside
of it. -/
def skipPart (c : UInt8) : Reader Nat := do
  let n := c.toNat
  let pass (k : Nat) : Reader Nat := do
    let _ ← take k
    return 0
  if n < 0x80 ∨ 0xe0 ≤ n then return 0
  else if n < 0x90 then return 2 * (n - 0x80)
  else if n < 0xa0 then return n - 0x90
  else if n < 0xc0 then pass (n - 0xa0)
  else match n with
    | 0xc0 | 0xc2 | 0xc3 => return 0
    | 0xc4 | 0xd9 => pass (← natural 1)
    | 0xc5 | 0xda => pass (← natural 2)
    | 0xc6 | 0xdb => pass (← natural 4)
    | 0xc7 => pass ((← natural 1) + 1)
    | 0xc8 => pass ((← natural 2) + 1)
    | 0xc9 => pass ((← natural 4) + 1)
    | 0xcc | 0xd0 => pass 1
    | 0xcd | 0xd1 | 0xd4 => pass 2
    | 0xd5 => pass 3
    | 0xca | 0xce | 0xd2 => pass 4
    | 0xd6 => pass 5
    | 0xcb | 0xcf | 0xd3 => pass 8
    | 0xd7 => pass 9
    | 0xd8 => pass 17
    | 0xdc => natural 2
    | 0xdd => natural 4
    | 0xde => return 2 * (← natural 2)
    | 0xdf => return 2 * (← natural 4)
    | _ => throw (.unknownCode c)

/-- Passes over `pending` parts; `fuel` bounds the number of their codes. -/
def skip : (fuel pending : Nat) → Reader Unit
  | 0, _ => throw (.ended false)
  | _, 0 => return
  | fuel + 1, pending + 1 => do
    let inner ← skipPart (← code)
    skip fuel (pending + inner)

/-- Passes over the next part, whatever it is. -/
def skipNext : Reader Unit := do skip ((← get).length + 2) 1

/-- How a record is written. -/
inductive Form where
  | nothing
  /-- A map with so many fields. -/
  | fields (count : Nat)
  /-- The values alone, in the order of the fields. -/
  | values (count : Nat)

def form : Reader Form := do
  let c ← code
  match c.toNat with
  | 0xc0 => return .nothing
  | 0xde => return .fields (← natural 2)
  | 0xdf => return .fields (← natural 4)
  | 0xdc => return .values (← natural 2)
  | 0xdd => return .values (← natural 4)
  | n =>
    if 0x80 ≤ n ∧ n < 0x90 then return .fields (n - 0x80)
    else if 0x90 ≤ n ∧ n < 0xa0 then return .values (n - 0x90)
    else throw (.badCode c "map length")

end Reader

end Sysy.Packed
