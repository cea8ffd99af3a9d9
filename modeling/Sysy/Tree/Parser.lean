import Sysy.Text.Integer
import Sysy.Token.Lexer
import Sysy.Tree.Basic

/-!
Parsing. `parse` reads the tokens of a file into the tree of a program. After an error it skips to a
place where a statement or an item may begin and goes on, so that one run reports many errors; a
positive limit on the number of errors stops it early. The recursive readers take a bound on their
depth, which `parse` chooses large enough for every list of tokens.
-/

namespace Sysy

namespace Parser
open Token

/-- Where the parser stands. -/
structure Cursor extends TokenStream where
  /-- The last valid token that was read. -/
  last : Span
  /-- At most this many errors are reported; zero stands for no limit. -/
  limit : Nat
  errors : Nat := 0

/-- A reader of tokens. It may fail, and what it has read until then stays read. -/
abbrev Reader := OptionT (StateM Cursor)

namespace Cursor

/-- Looks at the first token ahead. -/
def look (c : Cursor) : Cursor := { c with toTokenStream := c.toTokenStream.look }

/-- Reads the first token ahead. -/
def advance (c : Cursor) : Cursor :=
  { c with
    toTokenStream := c.toTokenStream.advance
    last := if c.token.kind = .eof ∨ c.token.kind = .invalid then c.last else c.token.span }

/-- Enough errors were found to stop. -/
def enough (c : Cursor) : Bool := c.limit ≠ 0 && c.limit ≤ c.errors

/-- Counts an error and reports it, unless the limit has been passed. -/
def complain (c : Cursor) (p : Problem) (span : Span) : Cursor :=
  let c := { c with errors := c.errors + 1 }
  if c.limit ≠ 0 && c.limit < c.errors then c
  else { c with reported := c.reported.push (p.located span) }

/-- The span to blame when the token ahead is not the one expected: the end of the file is too far
away, the place behind the last token is better. -/
def blame (c : Cursor) : Span :=
  if c.token.kind = .eof && 0 < c.last.stop then c.last.behind else c.token.span

end Cursor

def peek : Reader Token := do
  modify Cursor.look
  return (← get).token

def at_ (k : Kind) : Reader Bool := do
  return (← peek).kind == k

def atAny (ks : List Kind) : Reader Bool := do
  return ks.contains (← peek).kind

def advance : Reader Token := do
  let t ← peek
  modify Cursor.advance
  return t

def complain (p : Problem) (span : Span) : Reader Unit := modify (·.complain p span)

/-- Reports a problem with the token ahead and fails. -/
def reject {α : Type} (p : Problem) : Reader α := do
  let _ ← peek
  complain p (← get).blame
  failure

/-- Reads a token of the given kind; `place` tells in the error where it is missing. -/
def expect (k : Kind) (place : String) : Reader Token := do
  if ← at_ k then advance else reject (.missing k place)

def lastSpan : Reader Span := return (← get).last

/-- Runs a reader and tells whether it failed. -/
def attempt {α : Type} (r : Reader α) : Reader (Option α) := OptionT.lift r.run

def ident : Reader Token := do
  let t ← peek
  if t.kind = .ident then advance else reject (.missingIdentifier t.text)

/-- Skips tokens up to one of the given kinds; the bound is the number of tokens ahead. -/
def skipTo (ks : List Kind) : (bound : Nat) → Reader Unit
  | 0 => return
  | bound + 1 => do
    if ← atAny (.eof :: ks) then return
    let _ ← advance
    skipTo ks bound

def skipUntil (ks : List Kind) : Reader Unit := do
  skipTo ks (← get).ahead.length

/-- The binary operator that a token stands for, and how tightly it binds. -/
def binaryOp? : Kind → Option (Nat × BinaryOp)
  | .orOr => some (1, .or)
  | .andAnd => some (2, .and)
  | .eqEq => some (3, .eq)
  | .bangEq => some (3, .ne)
  | .lt => some (4, .lt)
  | .ltEq => some (4, .le)
  | .gt => some (4, .gt)
  | .gtEq => some (4, .ge)
  | .plus => some (5, .add)
  | .minus => some (5, .sub)
  | .star => some (6, .mul)
  | .slash => some (6, .div)
  | .percent => some (6, .mod)
  | _ => none

def unaryOp? : Kind → Option UnaryOp
  | .plus => some .plus
  | .minus => some .minus
  | .bang => some .not
  | _ => none

/-- The kinds of token that an expression can begin with. -/
def exprStarts : List Kind := [.ident, .intLit, .lparen, .plus, .minus, .bang]

/-- Reads an integer. Values up to 2^32 - 1 are allowed and taken as words. -/
def literal : Reader Expr := do
  let t ← advance
  match Integer.read? t.text with
  | some n =>
    if n < 0x100000000 then return .lit t.span (BitVec.ofNat 32 n)
    else do
      complain (if n < 0x10000000000000000 then .integerTooLarge t.text else .badInteger
        t.text) t.span
      failure
  | none => do
    complain (.badInteger t.text) t.span
    failure

mutual

/-- Reads an expression. -/
def expr : (bound : Nat) → Reader Expr
  | 0 => failure
  | bound + 1 => do
    if ← atAny exprStarts then binary bound 0
    else reject (.missingExpression (← peek).text)

/-- Reads an expression whose outermost binary operators bind at least as tightly as `least`. -/
def binary : (bound least : Nat) → Reader Expr
  | 0, _ => failure
  | bound + 1, least => do
    let left ← unary bound
    climb bound least left

/-- Extends `left` by the operators that follow and bind tightly enough. -/
def climb : (bound least : Nat) → Expr → Reader Expr
  | 0, _, _ => failure
  | bound + 1, least, left => do
    match binaryOp? (← peek).kind with
    | none => return left
    | some (tightness, op) =>
      if tightness < least then return left
      let _ ← advance
      if !(← atAny exprStarts) then reject .missingOperand
      let right ← binary bound (tightness + 1)
      climb bound least (.binary (left.span.cover right.span) op left right)

def unary : (bound : Nat) → Reader Expr
  | 0 => failure
  | bound + 1 => do
    match unaryOp? (← peek).kind with
    | some op =>
      let t ← advance
      let operand ← unary bound
      return .unary (t.span.cover operand.span) op operand
    | none => primary bound

/-- Reads a number, a name with arguments or indices, or an expression in parentheses. -/
def primary : (bound : Nat) → Reader Expr
  | 0 => failure
  | bound + 1 => do
    let t ← peek
    match t.kind with
    | .intLit => literal
    | .ident =>
      let _ ← advance
      if ← at_ .lparen then
        let _ ← advance
        let args ← if ← at_ .rparen then pure [] else exprs bound
        let close ← expect .rparen " after call arguments"
        return .call (t.span.cover close.span) (Bytes.toAscii t.text) args
      else
        let indices ← dims bound
        return .lval (t.span.cover (← lastSpan)) (Bytes.toAscii t.text) indices
    | .lparen =>
      let _ ← advance
      let inner ← expr bound
      let _ ← expect .rparen ""
      return inner
    | _ => reject (.missingExpression t.text)

/-- Reads one or more expressions with commas between them. -/
def exprs : (bound : Nat) → Reader (List Expr)
  | 0 => failure
  | bound + 1 => do
    let e ← expr bound
    if ← at_ .comma then
      let _ ← advance
      return e :: (← exprs bound)
    else return [e]

/-- Reads zero or more expressions in brackets. -/
def dims : (bound : Nat) → Reader (List Expr)
  | 0 => failure
  | bound + 1 => do
    if ← at_ .lbracket then
      let _ ← advance
      let e ← expr bound
      let _ ← expect .rbracket ""
      return e :: (← dims bound)
    else return []

end

mutual

/-- Reads an expression, or initialisers in braces. -/
def init : (bound : Nat) → Reader Init
  | 0 => failure
  | bound + 1 => do
    if ← at_ .lbrace then
      let open_ ← advance
      let elems ← if ← at_ .rbrace then pure [] else inits bound
      let close ← expect .rbrace " to close initializer list"
      return .list (open_.span.cover close.span) elems
    else return .expr (← expr bound)

def inits : (bound : Nat) → Reader (List Init)
  | 0 => failure
  | bound + 1 => do
    let i ← init bound
    if ← at_ .comma then
      let _ ← advance
      return i :: (← inits bound)
    else return [i]

end

/-- Reads the rest of a definition, after its name. -/
def varDef (bound : Nat) (isConst : Bool) (name : Token) : Reader VarDef := do
  let ds ← dims bound
  let d : VarDef :=
    { name := Bytes.toAscii name.text, nameSpan := name.span, dims := ds, init := none }
  if ← at_ .assign then
    let _ ← advance
    return { d with init := some (← init bound) }
  else if isConst then reject (.missingInitializer name.text)
  else return d

/-- Reads one or more definitions with commas between them, after the first name. -/
def varDefs (isConst : Bool) : (bound : Nat) → (first : Token) → Reader (List VarDef)
  | 0, _ => failure
  | bound + 1, first => do
    let d ← varDef bound isConst first
    if ← at_ .comma then
      let _ ← advance
      let name ← ident
      return d :: (← varDefs isConst bound name)
    else return [d]

/-- Reads the rest of a declaration, after its first name. -/
def declRest (bound : Nat) (isConst : Bool) (first : Token) : Reader Decl := do
  let defs ← varDefs isConst bound first
  let _ ← expect .semicolon " after declaration"
  return { isConst, defs }

def decl (bound : Nat) : Reader Decl := do
  let isConst ← at_ .kwConst
  if isConst then
    let _ ← advance
  let _ ← expect .kwInt " in declaration"
  let name ← ident
  declRest bound isConst name

/-- Reads a condition in parentheses. -/
def condition (bound : Nat) : Reader Expr := do
  let _ ← expect .lparen " before condition"
  let e ← expr bound
  let _ ← expect .rparen " after condition"
  return e

/-- Reads `lval = expr;` or `expr;`. -/
def simpleStmt (bound : Nat) : Reader Stmt := do
  let e ← expr bound
  if ← at_ .assign then
    let t ← advance
    match e with
    | .lval target name indices =>
      let value ← expr bound
      let _ ← expect .semicolon " after assignment"
      return .assign (target.cover (← lastSpan)) target name indices value
    | _ =>
      complain .notAssignable t.span
      failure
  else
    let _ ← expect .semicolon " after expression"
    return .expr (e.span.cover (← lastSpan)) (some e)

mutual

/-- Reads statements in braces. It fails if one of them does, but only behind the closing brace. -/
def block : (bound : Nat) → Reader (Span × List Stmt)
  | 0 => failure
  | bound + 1 => do
    let open_ ← expect .lbrace ""
    let outcomes ← stmts bound
    let close ← expect .rbrace " to close block"
    match outcomes.mapM fun s => s with
    | some ss => return (open_.span.cover close.span, ss)
    | none => failure

/-- Reads statements up to a closing brace or the end of the file. One that fails leaves `none`, and
reading goes on behind the next semicolon or at the next brace. -/
def stmts : (bound : Nat) → Reader (List (Option Stmt))
  | 0 => failure
  | bound + 1 => do
    if ← atAny [.rbrace, .eof] then return []
    if (← get).enough then failure
    let outcome ← attempt (stmt bound)
    if outcome.isNone then
      skipUntil [.semicolon, .rbrace, .lbrace]
      if ← at_ .semicolon then
        let _ ← advance
    return outcome :: (← stmts bound)

def stmt : (bound : Nat) → Reader Stmt
  | 0 => failure
  | bound + 1 => do
    let t ← peek
    match t.kind with
    | .lbrace =>
      let (span, ss) ← block bound
      return .block span ss
    | .kwConst | .kwInt =>
      let d ← decl bound
      return .decl (t.span.cover (← lastSpan)) d
    | .kwIf =>
      let _ ← advance
      let test ← condition bound
      let yes ← stmt bound
      if ← at_ .kwElse then
        let _ ← advance
        let no ← stmt bound
        return .cond (t.span.cover (← lastSpan)) test yes (some no)
      else return .cond (t.span.cover (← lastSpan)) test yes none
    | .kwWhile =>
      let _ ← advance
      let test ← condition bound
      let body ← stmt bound
      return .loop (t.span.cover (← lastSpan)) test body
    | .kwBreak =>
      let _ ← advance
      let _ ← expect .semicolon " after break"
      return .leave (t.span.cover (← lastSpan))
    | .kwContinue =>
      let _ ← advance
      let _ ← expect .semicolon " after continue"
      return .next (t.span.cover (← lastSpan))
    | .kwReturn =>
      let _ ← advance
      let value ← if ← at_ .semicolon then pure none else some <$> expr bound
      let _ ← expect .semicolon " after return"
      return .ret (t.span.cover (← lastSpan)) value
    | .semicolon =>
      let _ ← advance
      return .expr t.span none
    | _ => simpleStmt bound

end

/-- Reads `int x` or `int a[][expr]...`. -/
def param (bound : Nat) : Reader Param := do
  let type ← expect .kwInt " in parameter list"
  let name ← ident
  let span := type.span.cover name.span
  if ← at_ .lbracket then
    let _ ← advance
    let _ ← expect .rbracket " after first array parameter dimension"
    let ds ← dims bound
    return { name := Bytes.toAscii name.text, span := span.cover (← lastSpan), dims := some ds }
  else return { name := Bytes.toAscii name.text, span, dims := none }

/-- Reads one or more parameters with commas between them. -/
def params : (bound : Nat) → Reader (List Param)
  | 0 => failure
  | bound + 1 => do
    let p ← param bound
    if ← at_ .comma then
      let _ ← advance
      return p :: (← params bound)
    else return [p]

/-- Reads the rest of a function, from its opening parenthesis. -/
def func (bound : Nat) (type name : Token) : Reader Item := do
  let _ ← advance
  let ps ← if ← at_ .rparen then pure [] else params bound
  let _ ← expect .rparen " after parameters"
  if !(← at_ .lbrace) then reject (.missing .lbrace " to start function body")
  let (bodySpan, body) ← block bound
  let f : FuncDef :=
    { name := Bytes.toAscii name.text, nameSpan := name.span, isVoid := type.kind == .kwVoid,
      params := ps, bodySpan, body }
  return .func (type.span.cover (← lastSpan)) f

def item (bound : Nat) : Reader Item := do
  let t ← peek
  match t.kind with
  | .kwConst =>
    let d ← decl bound
    return .decl (t.span.cover (← lastSpan)) d
  | .kwInt | .kwVoid =>
    let _ ← advance
    let name ← ident
    if ← at_ .lparen then func bound t name
    else if t.kind = .kwVoid then
      complain .voidVariable t.span
      failure
    else
      let d ← declRest bound false name
      return .decl (t.span.cover (← lastSpan)) d
  | _ =>
    complain .unexpectedTopLevel t.span
    failure

/-- Reads items up to the end of the file, or until there are enough errors. An item that fails is
left out, and reading goes on behind the next semicolon or closing brace, or at the start of an
item. -/
def items : (bound : Nat) → Reader (List Item)
  | 0 => return []
  | bound + 1 => do
    if ← at_ .eof then return []
    if (← get).enough then return []
    match ← attempt (item bound) with
    | some i => return i :: (← items bound)
    | none =>
      skipUntil [.semicolon, .rbrace, .kwConst, .kwInt, .kwVoid]
      if ← atAny [.semicolon, .rbrace] then
        let _ ← advance
      items bound

/-- A bound on the depth of reading `tokens` tokens: between two of them there are fewer than ten
calls. -/
def depthBound (tokens : Nat) : Nat := 10 * (tokens + 2)

/-- Reads a whole file. The span of a program that was not read to its end is empty. -/
def program (bound : Nat) : Reader Program := do
  let start ← peek
  let is ← items bound
  let stop ← peek
  return { items := is, span := if stop.kind = .eof then start.span.cover stop.span else {} }

end Parser

/-- The result of parsing a file. -/
structure Parsed where
  program : Program
  /-- How many errors the parser counted, reported or not. -/
  errors : Nat
  /-- What lexer and parser reported, in this order. -/
  reported : List Diagnostic

/-- Parses the tokens of a file. A `limit` other than zero bounds the number of errors. -/
def parse (file : Nat) (limit : Nat) (tokens : List Lexeme) : Parsed :=
  let start : Parser.Cursor := { ahead := tokens, last := { file := file }, limit := limit }
  match (Parser.program (Parser.depthBound tokens.length)).run.run start with
  | (program, c) =>
    { program := program.getD { span := {}, items := [] }, errors := c.errors,
      reported := c.reported.toList }

end Sysy
