import Sysy.Text.Integer
import Sysy.Text.Quoted

/-!
Flags among the words of a command line. A flag has a name after two dashes and perhaps a letter
after one; its value follows an equals sign or is the next word. Flags and other words may stand in
any order, up to two bare dashes, which end the flags.
-/

namespace Sysy.Command

/-- What a flag does to the options when it is given. -/
inductive Effect (σ : Type) where
  | text (assign : String → σ → σ)
  | number (assign : Int → σ → σ)
  /-- A flag that needs no value. -/
  | switch (assign : Bool → σ → σ)

structure Flag (σ : Type) where
  name : String
  letter : Option Char := none
  effect : Effect σ

inductive FlagError where
  | unknown (name : String)
  /-- A letter of no flag, in a word of letters. -/
  | unknownLetter (letter : Char) (word : String)
  | noValue (name : String)
  | noValueLetter (letter : Char) (word : String)
  | badValue (value shown cause : String)
  | badForm (word : String)
  /-- The flag that asks for help, where there is none. -/
  | help
  deriving DecidableEq, Repr

namespace FlagError

def message : FlagError → String
  | unknown name => "unknown flag: --" ++ name
  | unknownLetter c word => "unknown shorthand flag: " ++ Quoted.encodeChar c ++ " in -" ++ word
  | noValue name => "flag needs an argument: --" ++ name
  | noValueLetter c word => "flag needs an argument: " ++ Quoted.encodeChar c ++ " in -" ++ word
  | badValue value shown cause =>
    "invalid argument " ++ Quoted.encodeText value ++ " for " ++ Quoted.encodeText shown ++
      " flag: " ++ cause
  | badForm word => "bad flag syntax: " ++ word
  | help => "pflag: help requested"

end FlagError

/-- A number as the value of a flag. -/
def readNumber (value : String) : Except String Int :=
  match Integer.readSigned64 (Bytes.ofString value) with
  | .ok n => .ok n
  | .error f =>
    .error ("strconv.ParseInt: parsing " ++ Quoted.encodeText value ++ ": " ++ match f with
      | .malformed => "invalid syntax"
      | .outOfRange => "value out of range")

/-- A truth value as the value of a flag. -/
def readSwitch (value : String) : Except String Bool :=
  if value ∈ ["1", "t", "T", "true", "TRUE", "True"] then .ok true
  else if value ∈ ["0", "f", "F", "false", "FALSE", "False"] then .ok false
  else .error ("strconv.ParseBool: parsing " ++ Quoted.encodeText value ++ ": invalid syntax")

namespace Flag

variable {σ : Type}

/-- Whether the flag stands for itself, without a value. -/
def isSwitch (f : Flag σ) : Bool :=
  match f.effect with
  | .switch _ => true
  | _ => false

/-- How errors name the flag. -/
def shown (f : Flag σ) : String :=
  match f.letter with
  | some c => "-" ++ String.singleton c ++ ", --" ++ f.name
  | none => "--" ++ f.name

/-- The options after the flag was given with a value. -/
def assign (f : Flag σ) (value : String) (o : σ) : Except FlagError σ :=
  let result : Except String σ := match f.effect with
    | .text g => .ok (g value o)
    | .number g => (readNumber value).map (g · o)
    | .switch g => (readSwitch value).map (g · o)
  match result with
  | .ok o => .ok o
  | .error cause => .error (.badValue value f.shown cause)

def named? (flags : List (Flag σ)) (name : String) : Option (Flag σ) := flags.find? (·.name == name)

def lettered? (flags : List (Flag σ)) (c : Char) : Option (Flag σ) :=
  flags.find? (·.letter == some c)

/-- Where a value comes from when a flag has been read. -/
inductive Source where
  /-- The flag had all it needs. -/
  | here
  /-- The next word was taken as the value. -/
  | nextWord
  deriving DecidableEq, Repr

/-- Reads `--name` or `--name=value`, where `body` is what follows the dashes and `next` the next
word. -/
def readLong (flags : List (Flag σ)) (body : List Char) (next : Option String) (o : σ) :
    Except FlagError (σ × Source) :=
  if body = [] ∨ body.head? = some '-' ∨ body.head? = some '=' then
    .error (.badForm (String.ofList ('-' :: '-' :: body)))
  else
    let name := String.ofList (body.takeWhile (· ≠ '='))
    match named? flags name with
    | none => .error (if name = "help" then .help else .unknown name)
    | some f =>
      match body.dropWhile (· ≠ '='), next with
      | _ :: value, _ => (f.assign (String.ofList value) o).map (·, .here)
      | [], next =>
        if f.isSwitch then (f.assign "true" o).map (·, .here)
        else match next with
          | some value => (f.assign value o).map (·, .nextWord)
          | none => .error (.noValue name)

/-- Letters are looked at byte by byte. -/
def byteChar (b : UInt8) : Char := Char.ofNat b.toNat

/-- Reads a word of letters behind one dash. A letter that needs a value takes the rest of the word
for it. -/
def readLetters (flags : List (Flag σ)) (next : Option String) :
    Bytes → σ → Except FlagError (σ × Source)
  | [], o => .ok (o, .here)
  | b :: r, o =>
    let c := byteChar b
    let word := Bytes.toText (b :: r)
    if word.startsWith "test." then .ok (o, .here)
    else match lettered? flags c with
    | none => .error (if c = 'h' then .help else .unknownLetter c word)
    | some f =>
      match r with
      | 61 :: v :: value => (f.assign (Bytes.toText (v :: value)) o).map (·, .here)
      | r =>
        if f.isSwitch then
          match f.assign "true" o with
          | .ok o => readLetters flags next r o
          | .error e => .error e
        else if r ≠ [] then (f.assign (Bytes.toText r) o).map (·, .here)
        else match next with
          | some value => (f.assign value o).map (·, .nextWord)
          | none => .error (.noValueLetter c word)

/-- Reads one word as a flag, or tells that it is none. -/
def readWord (flags : List (Flag σ)) (w : String) (next : Option String) (o : σ) :
    Option (Except FlagError (σ × Source)) :=
  match w.toList with
  | '-' :: '-' :: body => some (readLong flags body next o)
  | '-' :: c :: r => some (readLetters flags next (Bytes.ofString (String.ofList (c :: r))) o)
  | _ => none

/-- Reads the words of a command line: the options that they give, and the words that are no
flags. -/
def readWords (flags : List (Flag σ)) : List String → σ → Except FlagError (σ × List String)
  | [], o => .ok (o, [])
  | w :: ws, o =>
    if w = "--" then .ok (o, ws)
    else match readWord flags w ws.head? o with
      | none => (readWords flags ws o).map fun (o, args) => (o, w :: args)
      | some (.error e) => .error e
      | some (.ok (o, .here)) => readWords flags ws o
      | some (.ok (o, .nextWord)) => readWords flags ws.tail o
termination_by ws => ws.length
decreasing_by all_goals (simp; try omega)

/-- Whether a word is a flag whose value is the next word, as far as can be told from the flags
known so far: a flag that is not known is taken to need a value. -/
def takesNext (flags : List (Flag σ)) (w : String) : Bool :=
  if '=' ∈ w.toList then false
  else match w.toList with
    | '-' :: '-' :: name => !(named? flags (String.ofList name)).any isSwitch
    | ['-', c] => c.toNat < 128 && !(lettered? flags c).any isSwitch
    | _ => false

def isPlain (w : String) : Bool := w ≠ "" && w.toList.head? ≠ some '-'

/-- The first word that is neither a flag nor the value of one, and the words around it. -/
def firstPlain? (flags : List (Flag σ)) : List String → Option (String × List String)
  | [] => none
  | w :: ws =>
    if w = "--" then none
    else if takesNext flags w then
      match ws with
      | [] | [_] => none
      | v :: ws => (firstPlain? flags ws).map fun (x, rest) => (x, w :: v :: rest)
    else if isPlain w then some (w, ws)
    else (firstPlain? flags ws).map fun (x, rest) => (x, w :: rest)

end Flag

end Sysy.Command
