import Sysy.Lowering.Shape
import Sysy.Lowering.Folding
import Mathlib.Tactic

/-!
The rules that a program has to follow, given without the code that is made for it. Names live in
frames: the global one, one for each function with its parameters and its body, and one for each
block. An expression has a kind, a statement turns the names before it into the names behind it, and
a program is valid if its items can be gone through in their order.
-/

namespace Sysy.Static
open Lowering

/-- What an expression stands for. An array is known by the dimensions of its elements. -/
inductive Kind where
  | void
  | number
  | array (elem : List Nat)
  deriving DecidableEq, Repr

def Kind.ofDims : List Nat → Kind
  | [] => .number
  | _ :: ds => .array ds

inductive Entry where
  | const (value : Word)
  /-- A number, or an array with the given dimensions. -/
  | var (dims : List Nat) (isConst : Bool)
  /-- An array that is passed to a function. The first of its dimensions is open. -/
  | param (elem : List Nat)
  | func (params : List Kind) (ret : Kind)
  deriving DecidableEq, Repr

abbrev Frame := List (String × Entry)

abbrev Env := List Frame

def Env.find? (Γ : Env) (name : String) : Option Entry := Γ.findSome? (·.lookup name)

/-- A name is added to the innermost frame, which must not have it yet. -/
inductive Defines : Env → String → Entry → Env → Prop
  | intro {frame : Frame} {Γ : Env} {name : String} {entry : Entry} (h : name ∉ frame.map (·.1)) :
      Defines (frame :: Γ) name entry (((name, entry) :: frame) :: Γ)

inductive Folds (Γ : Env) : Expr → Word → Prop
  | lit {span : Span} {w : Word} : Folds Γ (.lit span w) w
  | name {span : Span} {name : String} {w : Word} (h : Γ.find? name = some (.const w)) :
      Folds Γ (.lval span name []) w
  | unary {span : Span} {op : UnaryOp} {e : Expr} {w : Word} (h : Folds Γ e w) :
      Folds Γ (.unary span op e) (op.apply w)
  | short {span : Span} {op : BinaryOp} {l r : Expr} {a w : Word} (hl : Folds Γ l a)
      (h : op.shortcut? a = some w) :
      Folds Γ (.binary span op l r) w
  | binary {span : Span} {op : BinaryOp} {l r : Expr} {a b w : Word} (hl : Folds Γ l a)
      (hgo : op.shortcut? a = none)
      (hr : Folds Γ r b) (h : op.onWords? a b = some w) : Folds Γ (.binary span op l r) w

structure HasDims (Γ : Env) (es : List Expr) (ds : List Nat) : Prop where
  known : List.Forall₂ (fun e (d : Nat) => ∃ w, Folds Γ e w ∧ w.toInt = d ∧ 0 < d) es ds
  small : product ds ≤ 2 ^ 28

/-- The kind of an expression. -/
inductive HasKind (Γ : Env) : Expr → Kind → Prop
  | lit {span : Span} {w : Word} : HasKind Γ (.lit span w) .number
  | const {span : Span} {name : String} {w : Word} (h : Γ.find? name = some (.const w)) :
      HasKind Γ (.lval span name []) .number
  /-- Each index leads to the elements of an array. -/
  | var {span : Span} {name : String} {dims : List Nat} {isConst : Bool} {indices : List Expr}
      (h : Γ.find? name = some (.var dims isConst)) (hlen : indices.length ≤ dims.length)
      (hindices : ∀ e ∈ indices, HasKind Γ e .number) :
      HasKind Γ (.lval span name indices) (.ofDims (dims.drop indices.length))
  | param {span : Span} {name : String} {elem : List Nat} (h : Γ.find? name = some (.param elem)) :
      HasKind Γ (.lval span name []) (.array elem)
  | element {span : Span} {name : String} {elem : List Nat} {i : Expr} {indices : List Expr}
      (h : Γ.find? name = some (.param elem)) (hlen : indices.length ≤ elem.length)
        (hi : HasKind Γ i .number)
      (hindices : ∀ e ∈ indices, HasKind Γ e .number) :
      HasKind Γ (.lval span name (i :: indices)) (.ofDims (elem.drop indices.length))
  | unary {span : Span} {op : UnaryOp} {e : Expr} (h : HasKind Γ e .number) :
      HasKind Γ (.unary span op e) .number
  | binary {span : Span} {op : BinaryOp} {l r : Expr} (hl : HasKind Γ l .number)
      (hr : HasKind Γ r .number) :
      HasKind Γ (.binary span op l r) .number
  | call {span : Span} {name : String} {args : List Expr} {params : List Kind} {ret : Kind}
      (h : Γ.find? name = some (.func params ret)) (hlen : args.length = params.length)
      (hargs : ∀ p ∈ args.zip params, HasKind Γ p.1 p.2) : HasKind Γ (.call span name args) ret

def IsPlace (Γ : Env) (span : Span) (name : String) (indices : List Expr) : Prop :=
  HasKind Γ (.lval span name indices) .number ∧
    ((∃ dims, Γ.find? name = some (.var dims false)) ∨ ∃ elem, Γ.find? name = some (.param elem))

/-- The part of an array with dimensions `dims` that a list behind `filled` words stands for: the
largest one that can begin there. -/
structure IsPart (dims : List Nat) (filled : Nat) (part : List Nat) : Prop where
  suffix : part <:+ dims.tail
  nonempty : part ≠ []
  begins : product part ∣ filled
  largest : ∀ other, other <:+ dims.tail → product other ∣ filled → other.length ≤ part.length

/-- The elements of a list fill an array with dimensions `dims` from one word on to another. An
expression takes a word and a list takes a part of the array. -/
inductive Fills : (dims : List Nat) → Nat → List Init → Nat → Prop
  | nil {dims : List Nat} {n : Nat} : Fills dims n [] n
  | expr {dims : List Nat} {n k : Nat} {e : Expr} {is : List Init} (hroom : n + 1 ≤ product dims)
      (h : Fills dims (n + 1) is k) : Fills dims n (.expr e :: is) k
  | list {dims part : List Nat} {n j k : Nat} {span : Span} {elems is : List Init}
      (hpart : IsPart dims n part)
      (helems : Fills part 0 elems j) (hroom : n + product part ≤ product dims)
      (h : Fills dims (n + product part) is k) : Fills dims n (.list span elems :: is) k

def FitsShape (dims : List Nat) (i : Init) : Prop := ∃ span elems n, i = .list span elems ∧
    Fills dims 0 elems n

inductive Leaf (e : Expr) : Init → Prop
  | here : Leaf e (.expr e)
  | inside {span : Span} {elems : List Init} {i : Init} (hi : i ∈ elems) (h : Leaf e i) :
      Leaf e (.list span elems)

def IsInitial (Γ : Env) (isKnown : Bool) (e : Expr) : Prop :=
  if isKnown then ∃ w, Folds Γ e w else HasKind Γ e .number

inductive DefOk (Γ : Env) (isGlobal isConst : Bool) (d : VarDef) : Entry → Prop
  | const {e : Expr} {w : Word} (hconst : isConst = true) (hdims : d.dims = [])
      (hinit : d.init = some (.expr e))
      (h : Folds Γ e w) : DefOk Γ isGlobal isConst d (.const w)
  | number (hconst : isConst = false) (hdims : d.dims = [])
      (hinit : ∀ i, d.init = some i → ∃ e, i = .expr e ∧ IsInitial Γ isGlobal e) :
      DefOk Γ isGlobal isConst d (.var [] false)
  | array {dims : List Nat} (hdims : d.dims ≠ []) (h : HasDims Γ d.dims dims)
      (hinit : ∀ i, d.init = some i → FitsShape dims i ∧ ∀ e, Leaf e i →
        IsInitial Γ (isGlobal || isConst) e) :
      DefOk Γ isGlobal isConst d (.var dims isConst)

inductive DefsOk (isGlobal isConst : Bool) : Env → List VarDef → Env → Prop
  | nil {Γ : Env} : DefsOk isGlobal isConst Γ [] Γ
  | cons {Γ Γ₁ Γ₂ : Env} {d : VarDef} {ds : List VarDef} {entry : Entry}
      (h : DefOk Γ isGlobal isConst d entry)
      (hdef : Defines Γ d.name entry Γ₁) (hds : DefsOk isGlobal isConst Γ₁ ds Γ₂) :
      DefsOk isGlobal isConst Γ (d :: ds) Γ₂

mutual

/-- A statement of a function that is void or not, inside a loop or not, with the names before and
behind it. Only a block keeps its names to itself. -/
inductive StmtOk (isVoid : Bool) : (inLoop : Bool) → Env → Stmt → Env → Prop
  | block {inLoop : Bool} {Γ Γ' : Env} {span : Span} {ss : List Stmt}
      (h : StmtsOk isVoid inLoop ([] :: Γ) ss Γ') :
      StmtOk isVoid inLoop Γ (.block span ss) Γ
  | decl {inLoop : Bool} {Γ Γ' : Env} {span : Span} {d : Decl}
      (h : DefsOk false d.isConst Γ d.defs Γ') :
      StmtOk isVoid inLoop Γ (.decl span d) Γ'
  | assign {inLoop : Bool} {Γ : Env} {span target : Span} {name : String} {indices : List Expr}
      {value : Expr}
      (hplace : IsPlace Γ target name indices) (hvalue : HasKind Γ value .number) :
      StmtOk isVoid inLoop Γ (.assign span target name indices value) Γ
  | skip {inLoop : Bool} {Γ : Env} {span : Span} : StmtOk isVoid inLoop Γ (.expr span none) Γ
  | expr {inLoop : Bool} {Γ : Env} {span : Span} {e : Expr} {k : Kind} (h : HasKind Γ e k) :
      StmtOk isVoid inLoop Γ (.expr span (some e)) Γ
  | cond {inLoop : Bool} {Γ Γ₁ Γ₂ : Env} {span : Span} {test : Expr} {yes : Stmt} {no : Option Stmt}
      (htest : HasKind Γ test .number) (hyes : StmtOk isVoid inLoop Γ yes Γ₁)
      (hno : OptionOk isVoid inLoop Γ₁ no Γ₂) : StmtOk isVoid inLoop Γ (.cond span test yes no) Γ₂
  | loop {inLoop : Bool} {Γ Γ' : Env} {span : Span} {test : Expr} {body : Stmt}
      (htest : HasKind Γ test .number)
      (hbody : StmtOk isVoid true Γ body Γ') : StmtOk isVoid inLoop Γ (.loop span test body) Γ'
  | leave {inLoop : Bool} {Γ : Env} {span : Span} (hloop : inLoop = true) : StmtOk isVoid inLoop Γ
      (.leave span) Γ
  | next {inLoop : Bool} {Γ : Env} {span : Span} (hloop : inLoop = true) : StmtOk isVoid inLoop Γ
      (.next span) Γ
  | ret {inLoop : Bool} {Γ : Env} {span : Span} : StmtOk isVoid inLoop Γ (.ret span none) Γ
  | retVal {inLoop : Bool} {Γ : Env} {span : Span} {e : Expr} (hvoid : isVoid = false)
      (h : HasKind Γ e .number) :
      StmtOk isVoid inLoop Γ (.ret span (some e)) Γ

inductive OptionOk (isVoid : Bool) : (inLoop : Bool) → Env → Option Stmt → Env → Prop
  | none {inLoop : Bool} {Γ : Env} : OptionOk isVoid inLoop Γ none Γ
  | some {inLoop : Bool} {Γ Γ' : Env} {s : Stmt} (h : StmtOk isVoid inLoop Γ s Γ') :
      OptionOk isVoid inLoop Γ (some s) Γ'

inductive StmtsOk (isVoid : Bool) : (inLoop : Bool) → Env → List Stmt → Env → Prop
  | nil {inLoop : Bool} {Γ : Env} : StmtsOk isVoid inLoop Γ [] Γ
  | cons {inLoop : Bool} {Γ Γ₁ Γ₂ : Env} {s : Stmt} {ss : List Stmt}
      (h : StmtOk isVoid inLoop Γ s Γ₁)
      (hss : StmtsOk isVoid inLoop Γ₁ ss Γ₂) : StmtsOk isVoid inLoop Γ (s :: ss) Γ₂

end

inductive ParamOk (Γ : Env) (p : Param) : Entry → Kind → Prop
  | number (h : p.dims = none) : ParamOk Γ p (.var [] false) .number
  | array {es : List Expr} {elem : List Nat} (h : p.dims = some es) (hdims : HasDims Γ es elem) :
      ParamOk Γ p (.param elem) (.array elem)

/-- An item with the global names before and behind it. A function is known in its own body, and its
parameters have a frame together with the names of the body. -/
inductive ItemOk : Env → Item → Env → Prop
  | decl {Γ Γ' : Env} {span : Span} {d : Decl} (h : DefsOk true d.isConst Γ d.defs Γ') :
      ItemOk Γ (.decl span d) Γ'
  | func {Γ Γ₁ Γ₂ : Env} {span : Span} {d : FuncDef} {params : List (Entry × Kind)}
      (hparams : List.Forall₂ (fun p q => ParamOk Γ p q.1 q.2) d.params params)
      (hname : Defines Γ d.name (.func (params.map (·.2)) (if d.isVoid then .void else .number)) Γ₁)
      (hnames : (d.params.map (·.name)).Nodup)
      (hbody : StmtsOk d.isVoid false (((d.params.map (·.name)).zip (params.map (·.1))).reverse
        :: Γ₁) d.body Γ₂) :
      ItemOk Γ (.func span d) Γ₁

inductive ItemsOk : Env → List Item → Env → Prop
  | nil {Γ : Env} : ItemsOk Γ [] Γ
  | cons {Γ Γ₁ Γ₂ : Env} {i : Item} {is : List Item} (h : ItemOk Γ i Γ₁) (his : ItemsOk Γ₁ is Γ₂) :
      ItemsOk Γ (i :: is) Γ₂

/-- The functions of the run-time library, the latest first. -/
def library : Frame :=
  [("stoptime", .func [] .void),
   ("starttime", .func [] .void),
   ("putarray", .func [.number, .array []] .void),
   ("putch", .func [.number] .void),
   ("putint", .func [.number] .void),
   ("getarray", .func [.array []] .number),
   ("getch", .func [] .number),
   ("getint", .func [] .number)]

/-- The items of the program follow the rules, from the first one to the last. -/
def Valid (p : Program) : Prop := ∃ Γ, ItemsOk [library] p.items Γ

/-! Everything that a rule gives is given by what it is about. -/

variable {Γ Γ₁ Γ₂ : Env}

theorem Defines.eq {name : String} {entry : Entry} (h : Defines Γ name entry Γ₁)
    (h' : Defines Γ name entry Γ₂) :
    Γ₁ = Γ₂ := by
  cases h
  cases h'
  rfl

theorem Folds.eq {e : Expr} {w w' : Word} (h : Folds Γ e w) (h' : Folds Γ e w') : w = w' := by
  induction h generalizing w' with
  | lit =>
    cases h'
    rfl
  | name h =>
    cases h' with
    | name h' => simpa using h.symm.trans h'
  | unary _ ih =>
    cases h' with
    | unary h' => rw [ih h']
  | short _ h ih =>
    cases h' with
    | short hl' h' =>
      rw [ih hl'] at h
      exact Option.some.inj (h.symm.trans h')
    | binary hl' hgo' _ _ =>
      rw [ih hl', hgo'] at h
      cases h
  | binary _ hgo _ h ihl ihr =>
    cases h' with
    | short hl' h' =>
      rw [ihl hl', h'] at hgo
      cases hgo
    | binary hl' _ hr' h' =>
      rw [ihl hl', ihr hr'] at h
      exact Option.some.inj (h.symm.trans h')

theorem HasDims.eq {es : List Expr} {ds ds' : List Nat} (h : HasDims Γ es ds)
    (h' : HasDims Γ es ds') : ds = ds' := by
  obtain ⟨h, -⟩ := h
  obtain ⟨h', -⟩ := h'
  induction h generalizing ds' with
  | nil =>
    cases h'
    rfl
  | cons hd _ ih =>
    cases h' with
    | cons hd' htail' =>
      obtain ⟨w, hw, hint, -⟩ := hd
      obtain ⟨w', hw', hint', -⟩ := hd'
      rw [hw.eq hw', hint'] at hint
      rw [Int.ofNat_inj.mp hint, ih htail']

theorem HasKind.eq {e : Expr} {k k' : Kind} (h : HasKind Γ e k) (h' : HasKind Γ e k') : k = k' := by
  -- the kind is decided by the entry of the name, so the premises on parts play no role
  cases h <;> cases h' <;> simp_all

theorem DefOk.eq {isGlobal isConst : Bool} {d : VarDef} {entry entry' : Entry}
    (h : DefOk Γ isGlobal isConst d entry) (h' : DefOk Γ isGlobal isConst d entry') :
    entry = entry' := by
  cases h with
  | const hconst hdims hinit h =>
    cases h' with
    | const _ _ hinit' h' =>
      rw [hinit] at hinit'
      cases hinit'
      rw [h.eq h']
    | number hconst' => simp [hconst'] at hconst
    | array hdims' => exact absurd hdims hdims'
  | number hconst hdims _ =>
    cases h' with
    | const hconst' => simp [hconst'] at hconst
    | number => rfl
    | array hdims' => exact absurd hdims hdims'
  | array hdims h _ =>
    cases h' with
    | const _ hdims' | number _ hdims' => exact absurd hdims' hdims
    | array _ h' => rw [h.eq h']

theorem DefsOk.eq {isGlobal isConst : Bool} {ds : List VarDef} (h : DefsOk isGlobal isConst Γ ds Γ₁)
    (h' : DefsOk isGlobal isConst Γ ds Γ₂) : Γ₁ = Γ₂ := by
  induction h with
  | nil =>
    cases h'
    rfl
  | cons h hdef _ ih =>
    cases h' with
    | cons h' hdef' hds' =>
      obtain rfl := h.eq h'
      obtain rfl := hdef.eq hdef'
      exact ih hds'

mutual

theorem StmtOk.eq {isVoid inLoop : Bool} {Γ Γ₁ Γ₂ : Env} :
    ∀ {st : Stmt}, StmtOk isVoid inLoop Γ st Γ₁ →
    StmtOk isVoid inLoop Γ st Γ₂ → Γ₁ = Γ₂
  | .block .., .block _, .block _ => rfl
  | .decl .., .decl h, .decl h' => h.eq h'
  | .assign .., .assign .., .assign .. => rfl
  | .expr _ none, .skip, .skip => rfl
  | .expr _ (some _), .expr _, .expr _ => rfl
  | .cond _ _ yes none, .cond _ hyes hno, .cond _ hyes' hno' => by
    obtain rfl := StmtOk.eq hyes hyes'
    cases hno
    cases hno'
    rfl
  | .cond _ _ yes (some no), .cond _ hyes hno, .cond _ hyes' hno' => by
    obtain rfl := StmtOk.eq hyes hyes'
    cases hno with
    | some hno =>
      cases hno' with
      | some hno' => exact StmtOk.eq hno hno'
  | .loop _ _ body, .loop _ hbody, .loop _ hbody' => StmtOk.eq hbody hbody'
  | .leave _, .leave _, .leave _ => rfl
  | .next _, .next _, .next _ => rfl
  | .ret _ none, .ret, .ret => rfl
  | .ret _ (some _), .retVal .., .retVal .. => rfl

theorem StmtsOk.eq {isVoid inLoop : Bool} {Γ Γ₁ Γ₂ : Env} :
    ∀ {ss : List Stmt}, StmtsOk isVoid inLoop Γ ss Γ₁ →
    StmtsOk isVoid inLoop Γ ss Γ₂ → Γ₁ = Γ₂
  | [], .nil, .nil => rfl
  | st :: ss, .cons h hss, .cons h' hss' => by
    obtain rfl := StmtOk.eq h h'
    exact StmtsOk.eq hss hss'

end

end Sysy.Static
