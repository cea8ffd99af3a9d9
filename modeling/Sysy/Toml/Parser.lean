import Sysy.Text.Integer
import Sysy.Toml.Basic

/-!
Reading TOML documents: one pass over the characters, with a bound on the number of steps that no
document of that length exceeds.
-/

namespace Sysy.Toml

inductive Problem where
  | notText
  | badKey
  | badHeader
  | missingEquals
  | badValue
  | badNumber (s : String)
  | unclosedText
  | unclosedArray
  | unclosedTable
  | unexpectedRest
  | clash (key : Key)
  deriving DecidableEq, Repr

namespace Problem

def message : Problem → String
  | notText => "files must be UTF-8 text"
  | badKey => "expected a key"
  | badHeader => "expected ']' at the end of a table name"
  | missingEquals => "expected '=' after a key"
  | badValue => "expected a value"
  | badNumber s => "invalid number " ++ Quoted.encodeText s
  | unclosedText => "invalid or unterminated string"
  | unclosedArray => "expected ',' or ']' in an array"
  | unclosedTable => "expected ',' or '\x7d' in an inline table"
  | unexpectedRest => "expected the end of the line"
  | clash key => "key " ++ Key.text key ++ " has already been defined"

end Problem

/-- What is wrong with a document, and the number of the line if that is known. -/
structure Error where
  problem : Problem
  line : Option Nat := none
  deriving DecidableEq, Repr

namespace Error

def message (e : Error) : String :=
  match e.line with
  | some n => s!"toml: line {n}: " ++ e.problem.message
  | none => "toml: " ++ e.problem.message

end Error

/-- Readers of characters. A failure tells how many characters were left. -/
abbrev Reader := StateT (List Char) (Except (Problem × Nat))

namespace Reader

def fail {α : Type} (p : Problem) : Reader α := fun cs => .error (p, cs.length)

def isSpace (c : Char) : Bool := c = ' ' || c = '\t'

def spaces : Reader Unit := modify (·.dropWhile isSpace)

/-- Passes over a character, or fails if it is not the next one. -/
def expect (c : Char) (p : Problem) : Reader Unit := do
  match ← get with
  | d :: r => if c = d then set r else fail p
  | [] => fail p

/-- Passes over a character if it is the next one. -/
def accept (c : Char) : Reader Bool := do
  match ← get with
  | d :: r => if c = d then do set r; return true else return false
  | [] => return false

/-- Drops blanks, line ends and comments. -/
def dropGaps : (inComment : Bool) → List Char → List Char
  | _, [] => []
  | inComment, c :: r =>
    if c = '\n' then dropGaps false r
    else if inComment then dropGaps true r
    else if isSpace c then dropGaps false r
    else if c = '#' then dropGaps true r
    else c :: r

def gaps : Reader Unit := modify (dropGaps false)

/-- The character with a number, if there is one. -/
def charOf? (n : Nat) : Option Char := if n.isValidChar then some (Char.ofNat n) else none

def hexNumber? (cs : List Char) : Option Nat :=
  cs.foldlM (fun n c => (Bytes.hexValue? c).map (16 * n + ·)) 0

def simpleEscape? (c : Char) : Option Char :=
  match c with
  | 'b' => some (Char.ofNat 8)
  | 't' => some '\t'
  | 'n' => some '\n'
  | 'f' => some (Char.ofNat 12)
  | 'r' => some '\r'
  | '"' => some '"'
  | '\\' => some '\\'
  | _ => none

/-- Characters that a text cannot hold as they are. -/
def isForbidden (c : Char) : Bool := (c.toNat < 0x20 && c ≠ '\t') || c.toNat = 0x7F

/-- The rest of a text in double quotes on one line, and what follows it. -/
def basicText : List Char → Option (List Char × List Char)
  | [] => none
  | '"' :: r => some ([], r)
  | '\\' :: 'u' :: a :: b :: c :: d :: r => do
    let x ← (hexNumber? [a, b, c, d]).bind charOf?
    let (s, r) ← basicText r
    return (x :: s, r)
  | '\\' :: 'U' :: a :: b :: c :: d :: e :: f :: g :: h :: r => do
    let x ← (hexNumber? [a, b, c, d, e, f, g, h]).bind charOf?
    let (s, r) ← basicText r
    return (x :: s, r)
  | '\\' :: c :: r => do
    let x ← simpleEscape? c
    let (s, r) ← basicText r
    return (x :: s, r)
  | c :: r =>
    if isForbidden c then none
    else do
      let (s, r) ← basicText r
      return (c :: s, r)

/-- The rest of a text in single quotes, and what follows it. -/
def literalText : List Char → Option (List Char × List Char)
  | [] => none
  | '\'' :: r => some ([], r)
  | c :: r =>
    if isForbidden c then none
    else do
      let (s, r) ← literalText r
      return (c :: s, r)

/-- The rest of a text in three double quotes. After a backslash at the end of a line, blanks and
line ends are dropped. -/
def longText : (dropping : Bool) → List Char → Option (List Char × List Char)
  | _, [] => none
  | _, '"' :: '"' :: '"' :: '"' :: r => do
    let (s, r) ← longText false ('"' :: '"' :: '"' :: r)
    return ('"' :: s, r)
  | _, '"' :: '"' :: '"' :: r => some ([], r)
  | _, '\\' :: 'u' :: a :: b :: c :: d :: r => do
    let x ← (hexNumber? [a, b, c, d]).bind charOf?
    let (s, r) ← longText false r
    return (x :: s, r)
  | _, '\\' :: 'U' :: a :: b :: c :: d :: e :: f :: g :: h :: r => do
    let x ← (hexNumber? [a, b, c, d, e, f, g, h]).bind charOf?
    let (s, r) ← longText false r
    return (x :: s, r)
  | _, '\\' :: c :: r =>
    if ((c :: r).dropWhile isSpace).head? = some '\n' then longText true (c :: r)
    else do
      let x ← simpleEscape? c
      let (s, r) ← longText false r
      return (x :: s, r)
  | dropping, c :: r =>
    if dropping && (isSpace c || c = '\n') then longText true r
    else if isForbidden c && c ≠ '\n' then none
    else do
      let (s, r) ← longText false r
      return (c :: s, r)

/-- The rest of a text in three single quotes. -/
def longLiteralText : List Char → Option (List Char × List Char)
  | [] => none
  | '\'' :: '\'' :: '\'' :: '\'' :: r => do
    let (s, r) ← longLiteralText ('\'' :: '\'' :: '\'' :: r)
    return ('\'' :: s, r)
  | '\'' :: '\'' :: '\'' :: r => some ([], r)
  | c :: r =>
    if isForbidden c && c ≠ '\n' then none
    else do
      let (s, r) ← longLiteralText r
      return (c :: s, r)

/-- Takes over the result of reading a text. -/
def quoted (x : Option (List Char × List Char)) : Reader String := do
  match x with
  | some (s, r) => set r; return String.ofList s
  | none => fail .unclosedText

/-- A line end right after the opening quotes does not belong to the text. -/
def dropNewline : List Char → List Char
  | '\n' :: r => r
  | r => r

/-- A text in quotes, if the next character is one. -/
def text? : Reader (Option String) := do
  match ← get with
  | '"' :: '"' :: '"' :: r => some <$> quoted (longText false (dropNewline r))
  | '\'' :: '\'' :: '\'' :: r => some <$> quoted (longLiteralText (dropNewline r))
  | '"' :: r => some <$> quoted (basicText r)
  | '\'' :: r => some <$> quoted (literalText r)
  | _ => return none

/-- One part of a key. -/
def keyPart : Reader String := do
  match ← get with
  | '"' :: r => quoted (basicText r)
  | '\'' :: r => quoted (literalText r)
  | cs =>
    let part := cs.takeWhile Key.isBare
    if part = [] then fail .badKey
    else do set (cs.dropWhile Key.isBare); return String.ofList part

/-- A key of at most `bound` parts, with the blanks behind it. -/
def key : (bound : Nat) → Reader Key
  | 0 => fail .badKey
  | bound + 1 => do
    let part ← keyPart
    spaces
    if ← accept '.' then
      spaces
      return part :: (← key bound)
    else return [part]

/-- The characters of numbers, instants and the words for truth. -/
def isWordChar (c : Char) : Bool :=
  c.isAlphanum || c = '+' || c = '-' || c = '_' || c = '.' || c = ':'

/-- An integer that fits in 64 bits. -/
def integer? (s : List Char) : Option Int :=
  let (negative, ds) := match s with
    | '-' :: r => (true, r)
    | '+' :: r => (false, r)
    | r => (false, r)
  let hasMark := ds.head? = some '0' ∧ ds.length ≠ 1
  let hasLetter := (ds.drop 1).head?.any Char.isAlpha
  if hasMark ∧ (¬hasLetter ∨ ds.length ≠ s.length) then none
  else match Integer.read? (Bytes.ofString (String.ofList ds)) with
    | none => none
    | some n =>
      let v : Int := if negative then -n else n
      if -0x8000000000000000 ≤ v ∧ v < 0x8000000000000000 then some v else none

/-- Whether a word can be a number with a fraction or an instant. -/
def isLiteral (s : List Char) : Bool :=
  let ds := if s.head? = some '-' || s.head? = some '+' then s.drop 1 else s
  String.ofList ds = "inf" || String.ofList ds = "nan" ||
    (ds.head?.any Char.isDigit && ds.any fun c => !c.isDigit && c ≠ '_')

/-- A word, together with the time of day behind a date. -/
def word : Reader (List Char) := do
  let cs ← get
  let first := cs.takeWhile isWordChar
  match cs.dropWhile isWordChar with
  | ' ' :: d :: r =>
    if first.length = 10 ∧ first.getD 4 ' ' = '-' ∧ first.getD 7 ' ' = '-' ∧ d.isDigit then
      set ((d :: r).dropWhile isWordChar)
      return first ++ ' ' :: (d :: r).takeWhile isWordChar
    else do set (' ' :: d :: r); return first
  | r => set r; return first

/-- A value that is a single word. -/
def wordValue : Reader Value := do
  let w ← word
  match String.ofList w with
  | "" => fail .badValue
  | "true" => return .boolean true
  | "false" => return .boolean false
  | s =>
    match integer? w with
    | some n => return .integer n
    | none => if isLiteral w then return .literal s else fail (.badNumber s)

def asNested (bs : List Binding) : List Binding := bs.map fun b => { b with role := .nested }

mutual

/-- The value for a key, and the bindings inside it. -/
def value : (bound : Nat) → Key → Reader (Value × List Binding)
  | 0, _ => fail .badValue
  | bound + 1, k => do
    match ← text? with
    | some s => return (.text s, [])
    | none =>
      if ← accept '[' then
        let (items, inner) ← items bound k
        return (.array items, asNested inner)
      else if ← accept '\x7b' then
        spaces
        if ← accept '\x7d' then return (.table, [])
        else return (.table, ← pairs bound k)
      else return (← wordValue, [])

/-- The items of an array up to its end. -/
def items : (bound : Nat) → Key → Reader (List Value × List Binding)
  | 0, _ => fail .unclosedArray
  | bound + 1, k => do
    gaps
    if ← accept ']' then return ([], [])
    else
      let (v, inner) ← value bound k
      gaps
      if ← accept ',' then
        let (vs, more) ← items bound k
        return (v :: vs, inner ++ more)
      else
        expect ']' .unclosedArray
        return ([v], inner)

/-- A key with its value, inside the table with the key `table`. -/
def pair : (bound : Nat) → (table : Key) → Reader (List Binding)
  | 0, _ => fail .badKey
  | bound + 1, table => do
    let k ← key (bound + 1)
    expect '=' .missingEquals
    spaces
    let (v, inner) ← value bound (table ++ k)
    return { key := table ++ k, value := v } :: inner

/-- The rest of an inline table. -/
def pairs : (bound : Nat) → (table : Key) → Reader (List Binding)
  | 0, _ => fail .unclosedTable
  | bound + 1, table => do
    let first ← pair bound table
    spaces
    if ← accept ',' then
      spaces
      return first ++ (← pairs bound table)
    else
      expect '\x7d' .unclosedTable
      return first

end

/-- Passes over the end of a line: blanks and a comment may stand in front of it. -/
def endLine : Reader Unit := do
  spaces
  match ← get with
  | [] => return
  | c :: _ => if c = '\n' || c = '#' then return else fail .unexpectedRest

/-- The bindings from here to the end; pairs belong to `table`. -/
def bindings : (bound : Nat) → (table : Key) → Reader (List Binding)
  | 0, _ => return []
  | bound + 1, table => do
    gaps
    match ← get with
    | [] => return []
    | '[' :: '[' :: r =>
      set r
      spaces
      let k ← key (bound + 1)
      expect ']' .badHeader
      expect ']' .badHeader
      endLine
      return { key := k, value := .table, role := .element } :: (← bindings bound k)
    | '[' :: r =>
      set r
      spaces
      let k ← key (bound + 1)
      expect ']' .badHeader
      endLine
      return { key := k, value := .table } :: (← bindings bound k)
    | _ =>
      let first ← pair (bound + 1) table
      endLine
      return first ++ (← bindings bound table)

end Reader

/-- Line ends of two characters become one. -/
def unifyLines : List Char → List Char
  | '\r' :: '\n' :: r => '\n' :: unifyLines r
  | c :: r => c :: unifyLines r
  | [] => []

/-- A text without the mark that may stand in front of it. -/
def dropMark : List Char → List Char
  | c :: r => if c.toNat = 0xFEFF then r else c :: r
  | [] => []

/-- Reads a document. -/
def parse (content : Bytes) : Except Error Document :=
  match Bytes.toString? content with
  | none => .error { problem := .notText }
  | some s =>
    let cs := unifyLines (dropMark s.toList)
    match Reader.bindings (2 * cs.length + 2) [] cs with
    | .error (p, left) =>
      .error { problem := p,
               line := some (((cs.take (cs.length - left)).filter (· = '\n')).length + 1) }
    | .ok (d, _) =>
      match Document.clash? [] d with
      | some k => .error { problem := .clash k }
      | none => .ok d

end Sysy.Toml
