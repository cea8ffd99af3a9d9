/-!
The types of values in the intermediate code.
-/

namespace Sysy.Ir

inductive Ty where
  /-- No type was given. It reads as `unit`, but is equal only to itself. -/
  | absent
  | i32
  | unit
  | ptr (elem : Ty)
  | array (elem : Ty) (length : Int)
  | func (params : List Ty) (ret : Ty)
  deriving Repr, Inhabited

namespace Ty

/-- What a pointer points to, or an array is made of. -/
def elem : Ty → Ty
  | ptr e | array e _ => e
  | _ => absent

def isUnit : Ty → Bool
  | absent | unit => true
  | _ => false

def isI32 : Ty → Bool
  | i32 => true
  | _ => false

def isPtr : Ty → Bool
  | ptr _ => true
  | _ => false

def isArray : Ty → Bool
  | array _ _ => true
  | _ => false

/-- The number of bytes that a value of a type takes, as a 64-bit number. -/
def size : Ty → Int
  | i32 | ptr _ => 4
  | array e n => Int.bmod (n * size e) 0x10000000000000000
  | _ => 0

mutual

def text : Ty → String
  | absent | unit => "unit"
  | i32 => "i32"
  | ptr e => "*" ++ text e
  | array e n => "[" ++ text e ++ ", " ++ toString n ++ "]"
  | func ps r => "(" ++ listText ps ++ ")" ++ (if r.isUnit then "" else ": " ++ text r)

/-- Types with commas between them. -/
def listText : List Ty → String
  | [] => ""
  | [t] => text t
  | t :: ts => text t ++ ", " ++ listText ts

end

mutual

def equal : Ty → Ty → Bool
  | absent, absent | i32, i32 | unit, unit => true
  | ptr a, ptr b => equal a b
  | array a n, array b m => n == m && equal a b
  | func ps r, func qs q => equalAll ps qs && equal r q
  | _, _ => false

def equalAll : List Ty → List Ty → Bool
  | [], [] => true
  | p :: ps, q :: qs => equal p q && equalAll ps qs
  | _, _ => false

end

/-- The array of numbers with the given dimensions, outermost first. -/
def ofDims : List Nat → Ty
  | [] => i32
  | n :: ns => array (ofDims ns) n

end Ty

end Sysy.Ir
