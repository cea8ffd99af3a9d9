/-!
Slash-separated paths, treated as text: cleaning, joining, and the parts of a path.
-/

namespace Sysy.Path

/-- The parts of a text between slashes; there is always at least one. -/
def split : List Char → List (List Char)
  | [] => [[]]
  | c :: r =>
    if c = '/' then [] :: split r
    else match split r with
      | [] => [[c]]
      | s :: ss => (c :: s) :: ss

def joinSlash : List (List Char) → List Char
  | [] => []
  | [s] => s
  | s :: ss => s ++ '/' :: joinSlash ss

/-- Adds one element to a path that is kept in reverse: a dot stays, two dots leave the last
element. -/
def push (rooted : Bool) (stack : List (List Char)) (s : List Char) : List (List Char) :=
  if s = [] ∨ s = ['.'] then stack
  else if s = ['.', '.'] then
    match stack with
    | [] => if rooted then [] else [s]
    | top :: below => if top = ['.', '.'] then s :: stack else below
  else s :: stack

/-- The shortest path that is equal by text: no empty and no dot elements, and two dots only at the
start of a path that does not begin at the root. -/
def cleanChars (p : List Char) : List Char :=
  let rooted := p.head? == some '/'
  let body := joinSlash ((split p).foldl (push rooted) []).reverse
  if rooted then '/' :: body else if body = [] then ['.'] else body

def clean (p : String) : String := String.ofList (cleanChars p.toList)

/-- Joins the elements that are not empty with slashes and cleans the result. -/
def join (parts : List String) : String :=
  match parts.filter (· ≠ "") with
  | [] => ""
  | ps => clean (String.intercalate "/" ps)

def isAbsolute (p : String) : Bool := p.toList.head? == some '/'

/-- The last element of a path, without trailing slashes. -/
def baseChars (p : List Char) : List Char :=
  match p with
  | [] => ['.']
  | _ :: _ =>
    match p.reverse.dropWhile (· = '/') with
    | [] => ['/']
    | r => (r.takeWhile (· ≠ '/')).reverse

def base (p : String) : String := String.ofList (baseChars p.toList)

/-- The ending of the last element that starts at its last dot, or nothing. -/
def extensionChars (p : List Char) : List Char :=
  let last := p.reverse.takeWhile (· ≠ '/')
  if '.' ∈ last then (last.takeWhile (· ≠ '.') ++ ['.']).reverse else []

def extension (p : String) : String := String.ofList (extensionChars p.toList)

/-- All but the last element, cleaned. -/
def dir (p : String) : String :=
  String.ofList (cleanChars (p.toList.reverse.dropWhile (· ≠ '/')).reverse)

end Sysy.Path
