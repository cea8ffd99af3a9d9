import Sysy.Json
import Sysy.Source.File
import Sysy.Text.Column
import Sysy.Token.Lexer

/-!
Listings of tokens, for people and as a document.
-/

namespace Sysy.Token
open Text

/-- One numbered line: kind, quoted text, and the places where the token starts and ends. -/
def listingLine (files : FileSet) (number : Nat) (t : Token) : Option String := do
  let (start, stop) ← files.resolve t.span
  let shown := if t.text = [] then "" else " " ++ Quoted.encode t.text
  return padLeft 3 (toString number) ++ ": " ++ padRight 12 t.kind.name ++ shown ++
    s!" at {start.line}:{start.col}-{stop.line}:{stop.col}\n"

def listingFrom (files : FileSet) : (number : Nat) → List Token → Option String
  | _, [] => some ""
  | number, t :: ts => do
    return (← listingLine files number t) ++ (← listingFrom files (number + 1) ts)

/-- The tokens one by one, each on a line. -/
def listing (files : FileSet) (ts : List Token) : Option String := listingFrom files 1 ts

def toDocument (t : Token) : Json :=
  .obj ([("kind", .text t.kind.name)] ++ Json.optional "text" (t.text ≠ []) (.str t.text) ++
    [("span", .obj [("File", .int t.span.file), ("Start", .int t.span.start),
      ("End", .int t.span.stop)])])

/-- The tokens as one indented document. -/
def document (ts : List Token) : String := (Json.arr (ts.map toDocument)).pretty

end Sysy.Token
