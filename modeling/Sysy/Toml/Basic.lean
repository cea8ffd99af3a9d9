import Sysy.Text.Quoted

/-!
TOML documents. A document is the list of its bindings as they come: a key with all its parts, and a
value. The header of a table binds its key too, and so does an inline table, before what is inside.
-/

namespace Sysy.Toml

/-- The parts of a dotted key. -/
abbrev Key := List String

inductive Value where
  | text (s : String)
  | integer (n : Int)
  | boolean (b : Bool)
  /-- A number with a fraction, or an instant, as it is written. -/
  | literal (s : String)
  | array (items : List Value)
  /-- A table. Its content is bound by longer keys. -/
  | table
  deriving Repr, Inhabited

namespace Value

def isTable : Value → Bool
  | table => true
  | _ => false

/-- The name of a value's type. -/
def typeName : Value → String
  | text _ => "string"
  | integer _ => "int64"
  | boolean _ => "bool"
  | literal _ => "float64"
  | array _ => "array"
  | table => "table"

end Value

/-- Where a binding comes from. -/
inductive Role where
  | plain
  /-- The header of one more table in an array of tables. -/
  | element
  /-- Inside a table that is an item of an array. -/
  | nested
  deriving DecidableEq, Repr

structure Binding where
  key : Key
  value : Value
  role : Role := .plain
  deriving Repr, Inhabited

abbrev Document := List Binding

namespace Document

/-- Whether something has this key, or a key that goes on from it. -/
def defines (d : Document) (key : Key) : Bool := d.any fun b => key.isPrefixOf b.key

/-- A binding that does not fit those before it, `seen`: its key has a value already, or goes
through something that is not a table. -/
def clash? : (seen : List Binding) → Document → Option Key
  | _, [] => none
  | seen, b :: d =>
    if b.role = .nested then clash? seen d
    else if seen.any fun s =>
      s.key ≠ b.key && s.key.isPrefixOf b.key && !s.value.isTable then some b.key
    else
      match seen.find? (·.key == b.key) with
      | none => clash? (b :: seen) d
      | some s =>
        if s.role = .element ∧ b.role = .element then
          clash? (b :: seen.filter fun s => !b.key.isPrefixOf s.key) d
        else some b.key

end Document

namespace Key

/-- The characters that a part of a key may hold without quotes. -/
def isBare (c : Char) : Bool := c.isAlphanum || c = '_' || c = '-'

def escapeChar (c : Char) : List Char :=
  match c with
  | '"' => ['\\', '"']
  | '\\' => ['\\', '\\']
  | '\t' => ['\\', 't']
  | '\n' => ['\\', 'n']
  | '\r' => ['\\', 'r']
  | c =>
    if c.toNat = 8 then ['\\', 'b']
    else if c.toNat = 12 then ['\\', 'f']
    else if c.toNat < 0x20 ∨ c.toNat = 0x7F then '\\' :: 'u' :: Quoted.hex 4 c.toNat
    else [c]

/-- A part of a key, in quotes if it needs them. -/
def partText (s : String) : String :=
  if s ≠ "" ∧ s.toList.all isBare then s
  else String.ofList ('"' :: s.toList.flatMap escapeChar ++ ['"'])

def text (k : Key) : String := String.intercalate "." (k.map partText)

end Key

end Sysy.Toml
