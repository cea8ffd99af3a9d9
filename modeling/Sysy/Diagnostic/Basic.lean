import Sysy.Text.Quoted
import Sysy.Source.Span
import Sysy.Diagnostic.Code
import Sysy.Token.Kind

/-!
Diagnostics, the reasons for them that lexing and parsing can give, and the bag that collects them.
-/

namespace Sysy

/-- How much a diagnostic matters: the higher the level, the more. -/
structure Severity where
  level : Nat
  deriving DecidableEq, Repr, Inhabited

namespace Severity

def info : Severity := ⟨0⟩
def warning : Severity := ⟨1⟩
def error : Severity := ⟨2⟩

def name (s : Severity) : String :=
  match s.level with
  | 0 => "INFO"
  | 1 => "WARNING"
  | 2 => "ERROR"
  | _ => "UNKNOWN"

def isError (s : Severity) : Bool := error.level ≤ s.level

end Severity

structure Note where
  span : Span
  message : Bytes
  deriving DecidableEq, Repr

structure Diagnostic where
  severity : Severity
  code : Code
  message : Bytes
  primary : Span
  notes : List Note := []
  deriving DecidableEq, Repr

/-- What can be wrong with the text of a program, before its meaning is looked at. -/
inductive Problem where
  | unknownCharacter (text : Bytes)
  | badInteger (text : Bytes)
  | integerTooLarge (text : Bytes)
  | unclosedComment
  | unexpectedTopLevel
  /-- A token of the given kind is missing; `place` tells where, and starts with a blank. -/
  | missing (kind : Token.Kind) (place : String)
  | missingIdentifier (found : Bytes)
  | missingExpression (found : Bytes)
  | missingOperand
  | missingInitializer (name : Bytes)
  | voidVariable
  | notAssignable
  deriving DecidableEq, Repr

namespace Problem

def code : Problem → Code
  | unknownCharacter _ => .unknownChar
  | badInteger _ | integerTooLarge _ => .badNumber
  | unclosedComment => .unclosedComment
  | unexpectedTopLevel => .unexpectedTopLevel
  | missing .kwInt _ | voidVariable => .expectedType
  | missing .semicolon _ => .expectedSemicolon
  | missing .rparen _ => .unclosedParen
  | missing .rbrace _ => .unclosedBrace
  | missing .rbracket _ => .unclosedBracket
  | missing _ _ | missingInitializer _ | notAssignable => .unexpectedToken
  | missingIdentifier _ => .expectedIdentifier
  | missingExpression _ | missingOperand => .expectedExpression

def message : Problem → Bytes
  | unknownCharacter t => Bytes.ofString ("unknown character " ++ Quoted.encode t)
  | badInteger t => Bytes.ofString ("invalid integer literal " ++ Quoted.encode t)
  | integerTooLarge t =>
    Bytes.ofString "integer literal " ++ t ++ Bytes.ofString " does not fit in 32 bits"
  | unclosedComment => Bytes.ofString "unterminated block comment"
  | unexpectedTopLevel => Bytes.ofString "unexpected top-level construct"
  | missing k place => Bytes.ofString ("expected '" ++ k.name ++ "'" ++ place)
  | missingIdentifier t => Bytes.ofString "expected identifier, got \"" ++ t ++ Bytes.ofString "\""
  | missingExpression t => Bytes.ofString "expected expression, got \"" ++ t ++ Bytes.ofString "\""
  | missingOperand => Bytes.ofString "expected expression after binary operator"
  | missingInitializer t =>
    Bytes.ofString "constant '" ++ t ++ Bytes.ofString "' requires an initializer"
  | voidVariable => Bytes.ofString "variables cannot have type 'void'"
  | notAssignable => Bytes.ofString "left side of assignment is not assignable"

/-- The error diagnostic for a problem found at `span`. -/
def located (p : Problem) (span : Span) : Diagnostic :=
  { severity := .error, code := p.code, message := p.message, primary := span }

end Problem

/-- Diagnostics in the order in which they came, at most `capacity` of them. -/
structure Bag where
  items : List Diagnostic := []
  capacity : Nat
  deriving Repr

namespace Bag

/-- An empty bag. A limit that is not positive leaves room for one. -/
def empty (limit : Int) : Bag := { capacity := if limit ≤ 0 then 1 else limit.toNat }

def hasRoom (b : Bag) : Bool := b.items.length < b.capacity

/-- Adds a diagnostic if there is room, and drops it otherwise. -/
def add (b : Bag) (d : Diagnostic) : Bag :=
  if b.hasRoom then { b with items := b.items ++ [d] } else b

/-- The bag that holds as many of the diagnostics `ds` as there is room for. -/
def ofList (limit : Int) (ds : List Diagnostic) : Bag :=
  let b := empty limit
  { b with items := ds.take b.capacity }

def firstError? (b : Bag) : Option Diagnostic := b.items.find? (·.severity.isError)

def hasErrors (b : Bag) : Bool := b.firstError?.isSome

/-- Whether `d` comes no later than `e` when a bag is sorted: by file, by start, the more severe
first, by code. -/
def inOrder (d e : Diagnostic) : Bool :=
  if d.primary.file ≠ e.primary.file then d.primary.file < e.primary.file
  else if d.primary.start ≠ e.primary.start then d.primary.start < e.primary.start
  else if d.severity.level ≠ e.severity.level then e.severity.level < d.severity.level
  else d.code.number ≤ e.code.number

/-- Sorts a bag; diagnostics that the order does not tell apart stay as they are. -/
def sort (b : Bag) : Bag := { b with items := b.items.mergeSort inOrder }

end Bag

end Sysy
