import Sysy.Text.Quoted

/-!
Documents in JSON and their two written forms: on one line, and indented by two blanks a level.
Strings are safe to stand in a web page: angle brackets, ampersands and the two line separators
beyond ASCII are escaped.
-/

namespace Sysy

inductive Json where
  | null
  | bool (b : Bool)
  | int (n : Int)
  /-- A number whose digits are chosen by the caller. -/
  | number (text : String)
  | str (s : Bytes)
  | arr (elems : List Json)
  | obj (fields : List (String × Json))

namespace Json
open Bytes

def text (s : String) : Json := .str (ofString s)

/-- A field that is left out when its value is empty or zero. -/
def optional (key : String) (isSet : Bool) (v : Json) : List (String × Json) :=
  if isSet then [(key, v)] else []

def escapeChar (c : Char) : List Char :=
  match c with
  | '"' => ['\\', '"']
  | '\\' => ['\\', '\\']
  | '\n' => ['\\', 'n']
  | '\r' => ['\\', 'r']
  | '\t' => ['\\', 't']
  | c =>
    if c.toNat = 8 then ['\\', 'b']
    else if c.toNat = 12 then ['\\', 'f']
    else if c.toNat < 0x20 ∨ c = '<' ∨ c = '>' ∨ c = '&' ∨ c.toNat = 0x2028 ∨ c.toNat = 0x2029 then
      '\\' :: 'u' :: Quoted.hex 4 c.toNat
    else [c]

/-- A byte that belongs to no character is written as the replacement character. -/
def escapeRune : Rune → List Char
  | .char c => escapeChar c
  | .stray _ => [Char.ofNat 0xFFFD]

def quote (s : Bytes) : String := String.ofList ('"' :: (runes s).flatMap escapeRune ++ ['"'])

mutual

/-- The form on one line. -/
def render : Json → String
  | .null => "null"
  | .bool b => if b then "true" else "false"
  | .int n => toString n
  | .number t => t
  | .str s => quote s
  | .arr es => "[" ++ renderElems es ++ "]"
  | .obj fs => "\x7b" ++ renderFields fs ++ "\x7d"

def renderElems : List Json → String
  | [] => ""
  | [e] => render e
  | e :: es => render e ++ "," ++ renderElems es

def renderFields : List (String × Json) → String
  | [] => ""
  | [(k, v)] => quote (ofString k) ++ ":" ++ render v
  | (k, v) :: fs => quote (ofString k) ++ ":" ++ render v ++ "," ++ renderFields fs

end

/-- A new line at a depth. -/
def newline (depth : Nat) : String := "\n" ++ String.join (List.replicate depth "  ")

mutual

/-- The indented form, where the document itself stands at `depth`. -/
def indented (depth : Nat) : Json → String
  | .null => "null"
  | .bool b => if b then "true" else "false"
  | .int n => toString n
  | .number t => t
  | .str s => quote s
  | .arr [] => "[]"
  | .arr es => "[" ++ indentedElems (depth + 1) es ++ newline depth ++ "]"
  | .obj [] => "\x7b\x7d"
  | .obj fs => "\x7b" ++ indentedFields (depth + 1) fs ++ newline depth ++ "\x7d"

def indentedElems (depth : Nat) : List Json → String
  | [] => ""
  | [e] => newline depth ++ indented depth e
  | e :: es => newline depth ++ indented depth e ++ "," ++ indentedElems depth es

def indentedFields (depth : Nat) : List (String × Json) → String
  | [] => ""
  | [(k, v)] => newline depth ++ quote (ofString k) ++ ": " ++ indented depth v
  | (k, v) :: fs =>
    newline depth ++ quote (ofString k) ++ ": " ++ indented depth v ++ "," ++
      indentedFields depth fs

end

/-- The indented form of a whole document, which ends with a newline. -/
def pretty (j : Json) : String := indented 0 j ++ "\n"

end Json

end Sysy
