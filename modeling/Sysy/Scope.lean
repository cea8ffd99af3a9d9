/-!
Names in nested scopes. The outermost frame is global and stays open; inner frames open and close
like brackets, and a name means what the innermost frame that defines it says.
-/

namespace Sysy

inductive ScopeKind where
  | global | function | block
  deriving DecidableEq, Repr, Inhabited

namespace ScopeKind

def all : List ScopeKind := [global, function, block]

def name : ScopeKind → String
  | global => "global"
  | function => "function"
  | block => "block"

/-- The name of the kind with a given number. -/
def nameOf (n : Nat) : String := (all[n]?.map name).getD "invalid"

end ScopeKind

/-- Why a name cannot be defined or resolved. -/
inductive ScopeError where
  | duplicate (name : String)
  | notFound (name : String)
  deriving DecidableEq, Repr

namespace ScopeError

def message : ScopeError → String
  | duplicate n => "duplicated definition: " ++ n
  | notFound n => "symbol not found: " ++ n

end ScopeError

structure Scope (β : Type) where
  /-- The open frames inside the global one, innermost first, each with its latest definition
  first. -/
  inner : List (ScopeKind × List (String × β)) := []
  outermost : List (String × β) := []
  deriving Repr

namespace Scope

variable {β : Type}

def enter (s : Scope β) (kind : ScopeKind) : Scope β := { s with inner := (kind, []) :: s.inner }

/-- Closes the innermost frame. The global frame is never closed. -/
def exit (s : Scope β) : Scope β := { s with inner := s.inner.tail }

def depth (s : Scope β) : Nat := s.inner.length + 1

def isGlobal (s : Scope β) : Bool := s.inner.isEmpty

/-- Defines a name in the innermost frame. -/
def define (s : Scope β) (name : String) (b : β) : Except ScopeError (Scope β) :=
  match s.inner with
  | [] =>
    if (s.outermost.lookup name).isSome then .error (.duplicate name)
    else .ok { s with outermost := (name, b) :: s.outermost }
  | (kind, names) :: rest =>
    if (names.lookup name).isSome then .error (.duplicate name)
    else .ok { s with inner := (kind, (name, b) :: names) :: rest }

/-- What a name means here. -/
def resolve (s : Scope β) (name : String) : Except ScopeError β :=
  match (s.inner.findSome? fun f => f.2.lookup name).or (s.outermost.lookup name) with
  | some b => .ok b
  | none => .error (.notFound name)

end Scope

end Sysy
