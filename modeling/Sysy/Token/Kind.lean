/-!
The kinds of tokens of the language, and their names.
-/

namespace Sysy.Token

inductive Kind where
  /-- A piece of text that is no token of the language. -/
  | invalid
  | eof
  | ident
  | intLit
  | kwInt | kwVoid | kwConst | kwIf | kwElse | kwWhile | kwBreak | kwContinue | kwReturn
  | plus | minus | star | slash | percent
  | assign | eqEq | bang | bangEq | lt | ltEq | gt | gtEq | andAnd | orOr
  | semicolon | comma | lparen | rparen | lbrace | rbrace | lbracket | rbracket
  deriving DecidableEq, Repr, Inhabited

namespace Kind

/-- Every kind once, in the order of their numbers. -/
def all : List Kind :=
  [invalid, eof, ident, intLit,
   kwInt, kwVoid, kwConst, kwIf, kwElse, kwWhile, kwBreak, kwContinue, kwReturn,
   plus, minus, star, slash, percent,
   assign, eqEq, bang, bangEq, lt, ltEq, gt, gtEq, andAnd, orOr,
   semicolon, comma, lparen, rparen, lbrace, rbrace, lbracket, rbracket]

/-- Keywords and punctuation are named by their spelling. -/
def name : Kind → String
  | invalid => "Invalid"
  | eof => "EOF"
  | ident => "Ident"
  | intLit => "IntLit"
  | kwInt => "int"
  | kwVoid => "void"
  | kwConst => "const"
  | kwIf => "if"
  | kwElse => "else"
  | kwWhile => "while"
  | kwBreak => "break"
  | kwContinue => "continue"
  | kwReturn => "return"
  | plus => "+"
  | minus => "-"
  | star => "*"
  | slash => "/"
  | percent => "%"
  | assign => "="
  | eqEq => "=="
  | bang => "!"
  | bangEq => "!="
  | lt => "<"
  | ltEq => "<="
  | gt => ">"
  | gtEq => ">="
  | andAnd => "&&"
  | orOr => "||"
  | semicolon => ";"
  | comma => ","
  | lparen => "("
  | rparen => ")"
  | lbrace => "\x7b"
  | rbrace => "\x7d"
  | lbracket => "["
  | rbracket => "]"

/-- The name of the kind with a given number. -/
def nameOf (n : Nat) : String := (all[n]?.map name).getD "Unknown"

def keywords : List Kind :=
  [kwInt, kwVoid, kwConst, kwIf, kwElse, kwWhile, kwBreak, kwContinue, kwReturn]

def isKeyword (k : Kind) : Bool := k ∈ keywords

/-- The keyword with a given spelling. -/
def keyword? (word : String) : Option Kind := keywords.find? (·.name == word)

/-- Operators and punctuation. -/
def isPunct (k : Kind) : Bool := k ∈ all.drop 13

end Kind

end Sysy.Token
