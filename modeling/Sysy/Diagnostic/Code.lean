/-!
The codes of diagnostics. A code is a number; its thousands tell the phase it belongs to.
-/

namespace Sysy

structure Code where
  number : Nat
  deriving DecidableEq, Repr, Inhabited

namespace Code

def unknown : Code := ⟨0⟩

def unknownChar : Code := ⟨1001⟩
def badNumber : Code := ⟨1002⟩
def unclosedComment : Code := ⟨1003⟩

def unexpectedToken : Code := ⟨2001⟩
def expectedSemicolon : Code := ⟨2002⟩
def expectedIdentifier : Code := ⟨2003⟩
def expectedExpression : Code := ⟨2004⟩
def expectedType : Code := ⟨2005⟩
def unclosedParen : Code := ⟨2006⟩
def unclosedBrace : Code := ⟨2007⟩
def unclosedBracket : Code := ⟨2008⟩
def unexpectedTopLevel : Code := ⟨2009⟩

def loadFailed : Code := ⟨4001⟩
def writeFailed : Code := ⟨4002⟩

/-- Each known code with its title. -/
def titles : List (Nat × String) :=
  [(0, "Unknown error"),
   (1000, "Lexical information"),
   (1001, "Unknown character"),
   (1002, "Bad number literal"),
   (1003, "Unterminated block comment"),
   (2000, "Syntax information"),
   (2001, "Unexpected token"),
   (2002, "Expected semicolon"),
   (2003, "Expected identifier"),
   (2004, "Expected expression"),
   (2005, "Expected type"),
   (2006, "Unclosed parenthesis"),
   (2007, "Unclosed brace"),
   (2008, "Unclosed bracket"),
   (2009, "Unexpected top-level construct"),
   (3000, "IR generation information"),
   (3001, "Duplicated symbol definition"),
   (3002, "Symbol not found"),
   (3003, "Failed to evaluate constant"),
   (3004, "Invalid array length"),
   (3005, "Invalid initializer"),
   (3006, "Assigning to array"),
   (3007, "Dereferencing an integer"),
   (3008, "Non-integer calculation"),
   (3009, "Using a void value"),
   (3010, "Using break/continue outside of loop"),
   (3011, "Returning value in void function"),
   (3012, "Argument mismatch"),
   (3013, "Assigning to constant"),
   (4000, "I/O information"),
   (4001, "Failed to load file"),
   (4002, "Failed to write file")]

def title (c : Code) : String := (titles.lookup c.number).getD "Unknown error"

/-- The phase's letters and the number; a number outside all phases has no identity of its own. -/
def id (c : Code) : String :=
  match c.number / 1000 with
  | 1 => s!"LEX{c.number}"
  | 2 => s!"SYN{c.number}"
  | 3 => s!"GEN{c.number}"
  | 4 => s!"IO{c.number}"
  | _ => "E0000"

def text (c : Code) : String := s!"[{c.id}]: {c.title}"

end Code

end Sysy
