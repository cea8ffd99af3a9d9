import Sysy.Diagnostic.Basic

/-!
Lexing. `lexemes` cuts the bytes of a file into tokens: blanks and comments are skipped, words and
numbers are taken as long as possible, and a byte that starts no token becomes an invalid token of
its own. Each token comes with the diagnostics that finding it raised; the last one is always the
end of the file.
-/

namespace Sysy

structure Token where
  kind : Token.Kind
  span : Span
  text : Bytes
  deriving DecidableEq, Repr, Inhabited

namespace Token

def isBlank (b : UInt8) : Bool := b == 32 || (9 ≤ b && b ≤ 13)

def isDigit (b : UInt8) : Bool := 48 ≤ b && b ≤ 57

def isOctalDigit (b : UInt8) : Bool := 48 ≤ b && b ≤ 55

def isHexDigit (b : UInt8) : Bool := isDigit b || (97 ≤ b && b ≤ 102) || (65 ≤ b && b ≤ 70)

def isLetter (b : UInt8) : Bool := b == 95 || (65 ≤ b && b ≤ 90) || (97 ≤ b && b ≤ 122)

def isWordByte (b : UInt8) : Bool := isLetter b || isDigit b

/-- Whether a word that starts with a digit is an integer: `0x` and hexadecimal digits, `0` and
octal digits, or decimal digits. -/
def isInteger : Bytes → Bool
  | 48 :: 120 :: ds => ds ≠ [] && ds.all isHexDigit
  | 48 :: 88 :: ds => ds ≠ [] && ds.all isHexDigit
  | 48 :: ds => ds.all isOctalDigit
  | ds => ds.all isDigit

/-- The operator or mark at the head of a text that starts with `b`, and how many bytes it has. -/
def punct (b : UInt8) (next : Option UInt8) : Kind × Nat :=
  match b, next with
  | 43, _ => (.plus, 1)
  | 45, _ => (.minus, 1)
  | 42, _ => (.star, 1)
  | 47, _ => (.slash, 1)
  | 37, _ => (.percent, 1)
  | 59, _ => (.semicolon, 1)
  | 44, _ => (.comma, 1)
  | 40, _ => (.lparen, 1)
  | 41, _ => (.rparen, 1)
  | 123, _ => (.lbrace, 1)
  | 125, _ => (.rbrace, 1)
  | 91, _ => (.lbracket, 1)
  | 93, _ => (.rbracket, 1)
  | 61, some 61 => (.eqEq, 2)
  | 61, _ => (.assign, 1)
  | 33, some 61 => (.bangEq, 2)
  | 33, _ => (.bang, 1)
  | 60, some 61 => (.ltEq, 2)
  | 60, _ => (.lt, 1)
  | 62, some 61 => (.gtEq, 2)
  | 62, _ => (.gt, 1)
  | 38, some 38 => (.andAnd, 2)
  | 124, some 124 => (.orOr, 2)
  | _, _ => (.invalid, 1)

/-- The kind and the text of the token at the head of a text that starts with `b`, which is no blank
and starts no comment. -/
def lexeme (b : UInt8) (rest : Bytes) : Kind × Bytes :=
  if isLetter b then
    let word := b :: rest.takeWhile isWordByte
    ((Kind.keyword? (Bytes.toAscii word)).getD .ident, word)
  else if isDigit b then
    let word := b :: rest.takeWhile isWordByte
    (if isInteger word then .intLit else .invalid, word)
  else
    let p := punct b rest.head?
    (p.1, b :: rest.take (p.2 - 1))

/-- What is wrong with an invalid token. -/
def problem (text : Bytes) : Problem :=
  if (text.head?.map isDigit).getD false then .badInteger text else .unknownCharacter text

/-- Where a text between two tokens stands: outside comments, in a comment that ends with its line,
or in one that was opened at offset `start` and ends with its closing mark. -/
inductive Trivia where
  | blank
  | line
  | block (start : Nat)
  deriving DecidableEq, Repr

/-- What is left after blanks and comments, its offset, and the start of a comment that is never
closed. -/
def skipTrivia : Trivia → (off : Nat) → Bytes → Nat × Bytes × Option Nat
  | .block start, off, [] => (off, [], some start)
  | _, off, [] => (off, [], none)
  | .blank, off, 47 :: 47 :: r => skipTrivia .line (off + 2) r
  | .blank, off, 47 :: 42 :: r => skipTrivia (.block off) (off + 2) r
  | .blank, off, b :: r => if isBlank b then skipTrivia .blank (off + 1) r else (off, b :: r, none)
  | .line, off, b :: r => skipTrivia (if b = 10 then .blank else .line) (off + 1) r
  | .block _, off, 42 :: 47 :: r => skipTrivia .blank (off + 2) r
  | .block start, off, _ :: r => skipTrivia (.block start) (off + 1) r

end Token

/-- A token with the diagnostics raised on the way to it. -/
structure Lexeme where
  problems : List Diagnostic := []
  token : Token
  deriving DecidableEq, Repr, Inhabited

namespace Lexeme
open Token

/-- The first token at or after offset `off`, where `s` is the rest of the file from there. -/
def scan (file off : Nat) (s : Bytes) : Lexeme :=
  match skipTrivia .blank off s with
  | (at_, rest, unclosed) =>
    let raised := match unclosed with
      | some start => [Problem.unclosedComment.located ⟨file, start, at_⟩]
      | none => []
    match rest with
    | [] => { problems := raised, token := ⟨.eof, ⟨file, at_, at_⟩, []⟩ }
    | b :: r =>
      let (kind, text) := lexeme b r
      let span := ⟨file, at_, at_ + text.length⟩
      { problems := if kind = .invalid then raised ++ [(problem text).located span] else raised
        token := ⟨kind, span, text⟩ }

/-- All tokens from offset `off + skip` on, where `s` is the rest of the file from `off`. -/
def scanAll (file : Nat) : (skip off : Nat) → Bytes → List Lexeme
  | _, off, [] => [scan file off []]
  | skip + 1, off, _ :: r => scanAll file skip (off + 1) r
  | 0, off, b :: r =>
    let l := scan file off (b :: r)
    if l.token.kind = .eof then [l] else l :: scanAll file (l.token.span.stop - off - 1) (off + 1) r

end Lexeme

/-- The tokens of a file, the end of the file last. -/
def lexemes (file : Nat) (content : Bytes) : List Lexeme := Lexeme.scanAll file 0 0 content

/-- Tokens that are read one at a time, with one token of look-ahead. A token's diagnostics are
reported when it is looked at for the first time. -/
structure TokenStream where
  /-- The tokens not yet read. The last one is the end of the file and is never read. -/
  ahead : List Lexeme
  /-- The first token ahead has been looked at. -/
  looked : Bool := false
  /-- The end of the last token that was looked at. -/
  position : Nat := 0
  reported : Array Diagnostic := #[]

namespace TokenStream

def ofFile (file : Nat) (content : Bytes) : TokenStream := { ahead := lexemes file content }

/-- The first token ahead. -/
def token (s : TokenStream) : Token :=
  match s.ahead with
  | l :: _ => l.token
  | [] => { kind := .eof, span := {}, text := [] }

def look (s : TokenStream) : TokenStream :=
  if s.looked then s
  else
    { s with
      looked := true
      position := s.token.span.stop
      reported := s.reported ++ ((s.ahead.take 1).flatMap (·.problems)).toArray }

/-- Reads the first token ahead. The end of the file can be read again and again. -/
def advance (s : TokenStream) : TokenStream :=
  let s := s.look
  if s.token.kind = .eof then s else { s with ahead := s.ahead.tail, looked := false }

end TokenStream

end Sysy
