import Sysy.Proofs.Lowering.Visits
import Sysy.Proofs.Naming.Additions
import Sysy.Tree.Parser

/-!
Which names are known behind a statement. A statement leaves the frames of the scope as they are,
but for the names that it declares outside of its blocks: these are added to the innermost frame.
The body of a loop and the arms of a condition are no blocks of their own, so a declaration that
stands there alone is known behind the statement.
-/

namespace Sysy

namespace Scope
variable {β : Type} {s s' : Scope β} {new new' : List (String × β)} {name : String} {b : β}

def innermost (s : Scope β) : List (String × β) :=
  match s.inner with
  | [] => s.outermost
  | frame :: _ => frame.2

def extend (s : Scope β) (new : List (String × β)) : Scope β :=
  match s.inner with
  | [] => { s with outermost := new ++ s.outermost }
  | (kind, names) :: rest => { s with inner := (kind, new ++ names) :: rest }

@[simp] theorem extend_nil (s : Scope β) : s.extend [] = s := by
  obtain ⟨_ | ⟨⟨kind, names⟩, rest⟩, outermost⟩ := s <;> rfl

theorem extend_extend (s : Scope β) (new new' : List (String × β)) :
    (s.extend new).extend new' = s.extend (new' ++ new) := by
  obtain ⟨_ | ⟨⟨kind, names⟩, rest⟩, outermost⟩ := s <;> simp [extend]

@[simp] theorem innermost_extend (s : Scope β) (new : List (String × β)) :
    (s.extend new).innermost = new ++ s.innermost := by
  obtain ⟨_ | ⟨⟨kind, names⟩, rest⟩, outermost⟩ := s <;> rfl

@[simp] theorem depth_extend (s : Scope β) (new : List (String × β)) :
    (s.extend new).depth = s.depth := by
  obtain ⟨_ | ⟨⟨kind, names⟩, rest⟩, outermost⟩ := s <;> simp [extend, depth]

theorem exit_extend_enter (s : Scope β) (kind : ScopeKind) (new : List (String × β)) :
    ((s.enter kind).extend new).exit = s := rfl

theorem extend_eq_self_iff : s.extend new = s ↔ new = [] := by
  constructor
  · intro h
    have hnames := congrArg innermost h
    simpa using hnames
  · rintro rfl
    exact extend_nil s

theorem define_ok_iff : s.define name b = .ok s' ↔ name ∉ s.innermost.map (·.1) ∧
    s' = s.extend [(name, b)] := by
  have hlookup (names : List (String × β)) : (names.lookup name).isSome = true ↔
    name ∈ names.map (·.1) := by
    simp [List.lookup_isSome_iff]
  obtain ⟨_ | ⟨⟨kind, names⟩, rest⟩, outermost⟩ := s
  · simp only [define, innermost, extend]
    by_cases h : (outermost.lookup name).isSome = true
    · rw [if_pos h]
      simp [(hlookup outermost).mp h]
    · rw [if_neg h]
      simp [(hlookup outermost).not.mp h, eq_comm]
  · simp only [define, innermost, extend]
    by_cases h : (names.lookup name).isSome = true
    · rw [if_pos h]
      simp [(hlookup names).mp h]
    · rw [if_neg h]
      simp [(hlookup names).not.mp h, eq_comm]

theorem resolve_extend (s : Scope β) (new : List (String × β)) (name : String) :
    (s.extend new).resolve name = match new.lookup name with
      | some b => .ok b
      | none => s.resolve name := by
  obtain ⟨_ | ⟨⟨kind, names⟩, rest⟩, outermost⟩ := s
  · simp only [extend, resolve, List.findSome?_nil, Option.none_or, List.lookup_append]
    cases new.lookup name <;> rfl
  · simp only [extend, resolve, List.findSome?_cons, List.lookup_append]
    cases new.lookup name <;> rfl

end Scope

mutual

/-- The names that a statement declares outside of its blocks, in the order of the source. -/
def Stmt.bareNames : Stmt → List String
  | .decl _ d => d.defs.map (·.name)
  | .cond _ _ yes no => yes.bareNames ++ bareNamesOpt no
  | .loop _ _ body => body.bareNames
  | .block _ _ | .assign _ _ _ _ _ | .expr _ _ | .leave _ | .next _ | .ret _ _ => []

def Stmt.bareNamesOpt : Option Stmt → List String
  | none => []
  | some x => x.bareNames

end

namespace Lowering
open Ir

variable {α : Type} {t : Target} {m : Module} {c : Scope Binding} {s s' : State}

/-! Expressions declare nothing. -/

abbrev Quiet (m : Module) (c : Scope Binding) (x : Lower α) : Prop :=
  Keeps (fun s : State => s.scope = c ∧ m.GrowsUnmarked s.module) x

theorem quiet_build {x : Build α} (h : Build.Unmarked m x) : Quiet m c (build x) :=
  ⟨fun _ _ _ hs hrun => ⟨(build_ok.mp hrun).2.trans hs.1, h.ok _ _ _ hs.2 (build_ok.mp hrun).1⟩⟩

theorem quiet_reject (e : LoweringError) : Quiet m c (reject e : Lower α) := .throw _

theorem quiet_resolve (name : String) (span : Span) : Quiet m c (resolve name span) := by
  refine .get_bind fun s => ?_
  split
  · exact .pure _
  · exact quiet_reject _

theorem quiet_tyOf (id : ValueId) : Quiet m c (tyOf id) := .get_bind fun _ => .pure _

theorem quiet_startBlock (t : Target) (bb : BlockId) : Quiet m c (startBlock t bb) :=
  (quiet_build (Build.unmarked_place ..)).bind fun _ => quiet_build (Build.unmarked_setCurrent ..)

theorem quiet_newBlock (t : Target) (name : String) : Quiet m c (newBlock t name) :=
  quiet_build (Build.unmarked_addBlock ..)

theorem quiet_openFresh (t : Target) : Quiet m c (openFresh t) :=
  (quiet_newBlock t "bb").bind fun bb => quiet_startBlock t bb

theorem quiet_integer (w : Word) : Quiet m c (build (Build.integer w)) :=
  quiet_build (Build.unmarked_integer w)

theorem quiet_emit (f : FuncId) (node : Node) (ty : Ty) :
    Quiet m c (build (Build.emit f node ty)) :=
  quiet_build (Build.unmarked_emit f node ty)

theorem quiet_jump (f : FuncId) (bb : BlockId) : Quiet m c (build (Build.jump f bb)) :=
  quiet_build (Build.unmarked_jump f bb)

theorem quiet_toInt (t : Target) (span : Span) (v : Operand) : Quiet m c (v.toInt t span) := by
  cases v with
  | int x _ => exact .pure x
  | place a _ => exact quiet_build (Build.unmarked_load ..)
  | array _ _ _ | void => exact quiet_reject _

theorem quiet_toPlace (name : String) (span : Span) (v : Operand) :
    Quiet m c (v.toPlace name span) := by
  unfold Operand.toPlace
  split
  · exact quiet_reject _
  · exact quiet_reject _
  · exact quiet_reject _
  · exact .pure _
  · exact quiet_reject _

theorem quiet_toArrayArg (t : Target) (v : Operand) : Quiet m c (v.toArrayArg? t) := by
  unfold Operand.toArrayArg?
  split
  · exact .pure _
  · exact (quiet_integer 0).bind fun zeroId =>
      (quiet_build (Build.unmarked_getElemPtr ..)).bind fun a => .pure _
  · exact .pure _

theorem quiet_lowerUnary (t : Target) (op : UnaryOp) (x : ValueId) :
    Quiet m c (lowerUnary t op x) := by
  refine (quiet_integer 0).bind fun zeroId => ?_
  cases op with
  | plus => exact .pure _
  | minus | not => exact (quiet_emit ..).bind fun id => .pure _

theorem quiet_lowerArg (t : Target) (callee : String) (span : Span) (param : Ty) (v : Operand) :
    Quiet m c (lowerArg t callee span param v) := by
  unfold lowerArg
  split
  · refine (quiet_toArrayArg t v).bind fun a => ?_
    split
    · refine (quiet_tyOf _).bind fun ty => ?_
      split
      · exact .pure _
      · exact quiet_reject _
    · exact quiet_reject _
  · split
    · exact quiet_reject _
    · exact quiet_toInt ..

theorem quiet_step (t : Target) (index : ValueId) (w : Walk) : Quiet m c (w.step t index) := by
  cases w with
  | inside ptr pointee => exact (quiet_build (Build.unmarked_getElemPtr ..)).bind fun id => .pure _
  | atFirst ptr pointee => exact (quiet_build (Build.unmarked_getPtr ..)).bind fun id => .pure _

theorem quiet_lowerName (t : Target) (span : Span) (name : String) (isIndexed : Bool) :
    Quiet m c (lowerName t span name isIndexed) := by
  refine (quiet_resolve name span).bind fun b => ?_
  cases b with
  | const v =>
    dsimp only
    split
    · exact quiet_reject _
    · exact (quiet_integer v).bind fun id => .pure _
  | func _ => exact quiet_reject _
  | var ptr isConst =>
    refine (quiet_tyOf ptr).bind fun ty => ?_
    split
    · exact (quiet_build (Build.unmarked_load ..)).bind fun id => .pure _
    · exact .pure _

theorem quiet_noteTruth (t : Target) (zeroId result x : ValueId) :
    Quiet m c (noteTruth t zeroId result x) :=
  (quiet_emit ..).bind fun _ => (quiet_emit ..).bind fun _ => .pure _

theorem quiet_leaveFor (t : Target) (target onward : BlockId) :
    Quiet m c (leaveFor t target onward) :=
  (quiet_jump ..).bind fun _ => quiet_startBlock ..

theorem quiet_forkLogic (t : Target) (op : BinaryOp) (first : ValueId) :
    Quiet m c (forkLogic t op first) := by
  refine (quiet_newBlock ..).bind fun more => (quiet_newBlock ..).bind fun done =>
    Keeps.bind ?_ fun _ => ?_
  · split
    · exact quiet_build (Build.unmarked_branch ..)
    · exact quiet_build (Build.unmarked_branch ..)
  · exact (quiet_startBlock ..).bind fun _ => .pure _

theorem quiet_endLogic (t : Target) (result : ValueId) (done : BlockId) :
    Quiet m c (endLogic t result done) :=
  (quiet_leaveFor ..).bind fun _ => (quiet_build (Build.unmarked_load ..)).bind fun _ => .pure _

mutual

theorem quiet_lowerExpr (t : Target) : ∀ e : Expr, Quiet m c (lowerExpr t e)
  | .lit _ v => by
    rw [lowerExpr]
    exact (quiet_integer v).bind fun id => .pure _
  | .lval span name indices => by
    rw [lowerExpr]
    refine (quiet_lowerName ..).bind fun r => ?_
    split
    · exact .pure _
    · exact (quiet_lowerIndices t span name _ indices).bind fun w => .pure _
  | .unary _ op e => by
    rw [lowerExpr]
    exact (quiet_lowerExpr t e).bind fun v => (quiet_toInt ..).bind fun x => quiet_lowerUnary t op x
  | .binary _ op l r => by
    have hscalar (e : Expr) (he : Quiet m c (lowerExpr t e)) : Quiet m c (lowerScalar t e) :=
      he.bind fun v => quiet_toInt ..
    cases hop : op.isLogical with
    | true =>
      rw [lowerExpr_logic hop]
      refine (quiet_integer 0).bind fun zeroId =>
        (quiet_build (Build.unmarked_alloc _ _ not_marked_empty)).bind fun result => ?_
      refine (hscalar l (quiet_lowerExpr t l)).bind fun lhs =>
        (quiet_noteTruth ..).bind fun first => ?_
      refine (quiet_forkLogic ..).bind fun done =>
        (hscalar r (quiet_lowerExpr t r)).bind fun rhs => ?_
      exact (quiet_noteTruth ..).bind fun _ => quiet_endLogic ..
    | false =>
      rw [lowerExpr_arith hop]
      exact (hscalar l (quiet_lowerExpr t l)).bind fun lhs =>
        (hscalar r (quiet_lowerExpr t r)).bind fun rhs =>
        (quiet_emit ..).bind fun id => .pure _
  | .call span name args => by
    rw [lowerExpr]
    refine (quiet_resolve name span).bind fun b => ?_
    split
    · refine .get_bind fun s => ?_
      split
      · exact quiet_reject _
      · split
        · exact quiet_reject _
        · refine (quiet_lowerArgs t name _ args).bind fun vs =>
            (quiet_build (Build.unmarked_call ..)).bind fun v => ?_
          split
          · exact .pure _
          · exact .pure _
    · exact quiet_reject _

theorem quiet_lowerArgs (t : Target) (callee : String) :
    ∀ (ps : List Ty) (es : List Expr), Quiet m c (lowerArgs t callee ps es)
  | p :: ps, e :: es => by
    rw [lowerArgs]
    exact (quiet_lowerExpr t e).bind fun u => (quiet_lowerArg ..).bind fun v =>
      (quiet_lowerArgs t callee ps es).bind fun vs => .pure _
  | [], es => by
    rw [lowerArgs]
    · exact .pure []
    · simp
  | p :: ps, [] => by
    rw [lowerArgs]
    · exact .pure []
    · simp

theorem quiet_lowerIndices (t : Target) (span : Span) (name : String) :
    ∀ (w : Walk) (es : List Expr),
    Quiet m c (lowerIndices t span name w es)
  | w, [] => by
    rw [lowerIndices]
    exact .pure w
  | w, e :: es => by
    rw [lowerIndices]
    split
    · exact (quiet_lowerExpr t e).bind fun v => (quiet_toInt ..).bind fun index =>
        (quiet_step t index w).bind fun w' => quiet_lowerIndices t span name w' es
    · exact quiet_reject _

end

theorem quiet_lowerScalar (t : Target) (e : Expr) : Quiet m c (lowerScalar t e) :=
  (quiet_lowerExpr t e).bind fun _ => quiet_toInt ..

theorem quiet_alloc {name : String} (f : FuncId) (ty : Ty) (h : ¬ Marked name) :
    Quiet m c (build (Build.alloc f ty name)) :=
  quiet_build (Build.unmarked_alloc f ty h)

theorem quiet_lowerCell (t : Target) (isConst : Bool) (cell : Option Expr) :
    Quiet m c (lowerCell t isConst cell) := by
  cases cell with
  | none => exact quiet_integer 0
  | some e =>
    rw [lowerCell]
    split
    · exact (keeps_foldConst e).bind fun w => quiet_integer w
    · exact quiet_lowerScalar t e

theorem quiet_elementAddr (t : Target) (is : List Nat) :
    ∀ ptr, Quiet m c (elementAddr t ptr is) := by
  induction is with
  | nil => exact fun ptr => .pure ptr
  | cons i is ih =>
    intro ptr
    rw [elementAddr]
    exact (quiet_integer _).bind fun index =>
      (quiet_build (Build.unmarked_getElemPtr ..)).bind fun next => ih next

theorem quiet_storeCells (t : Target) (slot : ValueId) (dims : List Nat) (vs : List ValueId) :
    ∀ k, Quiet m c (storeCells t slot dims k vs) := by
  induction vs with
  | nil => exact fun k => .pure ()
  | cons v vs ih =>
    intro k
    rw [storeCells]
    exact (quiet_elementAddr ..).bind fun addr => (quiet_emit ..).bind fun _ => ih (k + 1)

/-! Statements declare the names that stand outside of their blocks. -/

/-- Steps that add the given names to the innermost frame, where none of them was known, and leave
the other names as they are. They add no marked values. -/
structure Declares (x : Lower α) (names : List String) : Prop where
  grows : ∀ s a s', x s = .ok (a, s') → s.module.GrowsUnmarked s'.module
  ok : ∀ s a s', x s = .ok (a, s') → ∃ new : List (String × Binding), s'.scope =
    s.scope.extend new ∧
    new.map (·.1) = names.reverse ∧ ∀ name ∈ names, name ∉ s.scope.innermost.map (·.1)

theorem declares_of_quiet {x : Lower α} (h : ∀ {m c}, Quiet m c x) : Declares x [] where
  grows s a s' hrun := (h.ok s a s' ⟨rfl, .refl _⟩ hrun).2
  ok s a s' hrun := by
    have hscope := (h.ok s a s' ⟨rfl, .refl _⟩ hrun).1
    exact ⟨[], hscope.trans (Scope.extend_nil _).symm, rfl, by simp⟩

theorem Declares.bind {β : Type} {x : Lower α} {k : α → Lower β} {names names' : List String}
    (hx : Declares x names) (hk : ∀ a, Declares (k a) names') :
    Declares (x >>= k) (names ++ names') where
  grows s b s' hrun := by
    obtain ⟨a, s₁, hrun₁, hrun₂⟩ := bind_ok.mp hrun
    exact (hx.grows s a s₁ hrun₁).trans ((hk a).grows s₁ b s' hrun₂)
  ok s b s' hrun := by
    obtain ⟨a, s₁, hrun₁, hrun₂⟩ := bind_ok.mp hrun
    obtain ⟨new, hscope, hnew, hfresh⟩ := hx.ok s a s₁ hrun₁
    obtain ⟨new', hscope', hnew', hfresh'⟩ := (hk a).ok s₁ b s' hrun₂
    rw [hscope] at hscope' hfresh'
    refine ⟨new' ++ new, hscope'.trans (Scope.extend_extend ..), by
      rw [List.map_append, hnew, hnew', List.reverse_append],
      fun name hname => ?_⟩
    rcases List.mem_append.mp hname with hname | hname
    · exact hfresh name hname
    · have hfar := hfresh' name hname
      rw [Scope.innermost_extend, List.map_append, List.mem_append, not_or] at hfar
      exact hfar.2

theorem Declares.after {β : Type} {x : Lower α} {k : α → Lower β} {names : List String}
    (hk : ∀ a, Declares (k a) names) (hx : ∀ {m c}, Quiet m c x) :
    Declares (x >>= k) names := (declares_of_quiet hx).bind hk

theorem Declares.before {β : Type} {x : Lower α} {k : α → Lower β} {names : List String}
    (h : Declares x names) (hk : ∀ {m c} a, Quiet m c (k a)) : Declares (x >>= k) names := by
  have hboth := h.bind fun a => declares_of_quiet (hk a)
  rwa [List.append_nil] at hboth

theorem declares_define (name : String) (span : Span) (b : Binding) :
    Declares (define name span b) [name] where
  grows s u s' hrun := by
    obtain ⟨scope, -, rfl⟩ := define_ok.mp hrun
    exact .refl _
  ok s u s' hrun := by
    obtain ⟨scope, hdefine, rfl⟩ := define_ok.mp hrun
    obtain ⟨hfresh, rfl⟩ := Scope.define_ok_iff.mp hdefine
    exact ⟨[(name, b)], rfl, rfl, by simpa using hfresh⟩

theorem declares_reject (e : LoweringError) (names : List String) :
    Declares (reject e : Lower α) names where
  grows _ _ _ hrun := (reject_ok.mp hrun).elim
  ok _ _ _ hrun := (reject_ok.mp hrun).elim

theorem declares_defineConst (d : VarDef) : Declares (defineConst d) [d.name] := by
  unfold defineConst
  split
  · exact Declares.after (fun w => declares_define ..) (keeps_foldConst _)
  · exact declares_reject ..

theorem declares_slot (t : Target) (d : VarDef) (init : Option ValueId) : Declares (do
    let slot ← build (Build.alloc t.func .i32 ("@" ++ d.name))
    if let some v := init then
      let _ ← build (Build.store t.func v slot)
    define d.name d.nameSpan (.var slot false) : Lower Unit) [d.name] := by
  refine Declares.after (fun slot => ?_) (quiet_alloc _ _ (not_marked_at d.name))
  cases init with
  | none => exact declares_define ..
  | some v => exact Declares.after (fun _ => declares_define ..) (quiet_emit ..)

theorem declares_lowerLocalScalar (t : Target) (d : VarDef) :
    Declares (lowerLocalScalar t d) [d.name] := by
  unfold lowerLocalScalar
  dsimp only
  split
  · exact Declares.after (declares_slot t d) (.pure none)
  · exact Declares.after (declares_slot t d) (quiet_reject _)
  · exact Declares.after (declares_slot t d) ((quiet_lowerScalar t _).map some)

theorem declares_lowerLocalArray (t : Target) (isConst : Bool) (d : VarDef) :
    Declares (lowerLocalArray t isConst d) [d.name] := by
  refine Declares.after (fun dims => ?_) (keeps_dimsOf d.dims)
  have hslot (values : List ValueId) : Declares (do
      let slot ← build (Build.alloc t.func (Ty.ofDims dims) ("@" ++ d.name))
      storeCells t slot dims 0 values
      define d.name d.nameSpan (.var slot isConst) : Lower Unit) [d.name] :=
    Declares.after (fun slot => Declares.after (fun _ => declares_define ..) (quiet_storeCells ..))
      (quiet_alloc _ _ (not_marked_at d.name))
  dsimp only
  split
  · exact Declares.after hslot (.pure [])
  · exact Declares.after (fun cells =>
      Declares.after hslot (.mapM _ fun cell _ => quiet_lowerCell t isConst cell))
      (keeps_check _)

theorem declares_lowerLocal (t : Target) (isConst : Bool) (d : VarDef) :
    Declares (lowerLocal t isConst d) [d.name] := by
  unfold lowerLocal
  split
  · split
    · exact declares_defineConst d
    · exact declares_lowerLocalScalar t d
  · exact declares_lowerLocalArray t isConst d

theorem declares_lowerLocals (t : Target) (isConst : Bool) (ds : List VarDef) :
    Declares (ds.forM (lowerLocal t isConst)) (ds.map (·.name)) := by
  induction ds with
  | nil => exact declares_of_quiet (.pure ())
  | cons d ds ih =>
    rw [List.forM]
    exact (declares_lowerLocal t isConst d).bind fun _ => ih

theorem declares_block {names : List String} {x : Lower Unit} (h : Declares x names) : Declares (do
    enter .block
    x
    exit) [] where
  grows s u s' hrun := by
    rw [run_bind (enter_run .block)] at hrun
    obtain ⟨⟨⟩, s₁, hbody, hexit⟩ := bind_ok.mp hrun
    obtain rfl : { s₁ with scope := s₁.scope.exit } = s' := (Prod.mk.inj (Except.ok.inj hexit)).2
    have hgrows := h.grows _ _ _ hbody
    exact hgrows
  ok s u s' hrun := by
    rw [run_bind (enter_run .block)] at hrun
    obtain ⟨⟨⟩, s₁, hbody, hexit⟩ := bind_ok.mp hrun
    obtain ⟨new, hscope, -⟩ := h.ok _ _ _ hbody
    obtain rfl : { s₁ with scope := s₁.scope.exit } = s' := (Prod.mk.inj (Except.ok.inj hexit)).2
    refine ⟨[], ?_, rfl, by simp⟩
    rw [Scope.extend_nil]
    exact (congrArg Scope.exit hscope).trans (Scope.exit_extend_enter s.scope .block new)

theorem quiet_openCond (t : Target) (test : Expr) (hasElse : Bool) :
    Quiet m c (openCond t test hasElse) := by
  have helse (after : BlockId) : Quiet m c (elseBlock t hasElse after) := by
    cases hasElse with
    | false => exact .pure after
    | true => exact quiet_newBlock t "else"
  exact (quiet_lowerScalar t test).bind fun _ => (quiet_newBlock ..).bind fun _ =>
    (quiet_newBlock ..).bind fun after =>
    (helse after).bind fun _ => (quiet_build (Build.unmarked_branch ..)).bind fun _ =>
      (quiet_startBlock ..).bind fun _ => .pure _

theorem quiet_openLoop (t : Target) (test : Expr) : Quiet m c (openLoop t test) := by
  have hlabel : Quiet m c (labelLoop t) :=
    (quiet_newBlock ..).bind fun _ => (quiet_newBlock ..).bind fun _ =>
      (quiet_newBlock ..).bind fun _ => .pure _
  exact hlabel.bind fun p =>
    Keeps.bind ((quiet_leaveFor ..).bind fun _ => (quiet_lowerScalar t test).bind fun _ =>
    (quiet_build (Build.unmarked_branch ..)).bind fun _ => quiet_startBlock ..) fun _ => .pure _

mutual

/-- A statement declares its bare names: each part is lowered in the frame of the whole, and only a
block opens one. -/
theorem declares_lowerStmt (t : Target) :
    ∀ (loops : List Loop) (x : Stmt), Declares (lowerStmt t loops x) x.bareNames
  | loops, .block _ xs => by
    rw [lowerStmt, Stmt.bareNames]
    obtain ⟨names, h⟩ := declares_lowerStmts t loops xs
    exact declares_block h
  | loops, .decl _ d => by
    rw [lowerStmt, Stmt.bareNames]
    exact declares_lowerLocals t d.isConst d.defs
  | loops, .assign _ target name indices value => by
    rw [lowerStmt, Stmt.bareNames]
    exact declares_of_quiet ((quiet_lowerExpr ..).bind fun v => (quiet_toPlace ..).bind fun place =>
      (quiet_lowerScalar t value).bind fun w => (quiet_emit ..).bind fun _ => .pure ())
  | loops, .expr _ none => by
    rw [lowerStmt, Stmt.bareNames]
    exact declares_of_quiet (.pure ())
  | loops, .expr _ (some e) => by
    rw [lowerStmt, Stmt.bareNames]
    exact declares_of_quiet ((quiet_lowerExpr t e).bind fun _ => .pure ())
  | loops, .cond _ test yes none => by
    rw [lowerStmt_cond_none, Stmt.bareNames, Stmt.bareNamesOpt, List.append_nil]
    exact Declares.after (fun p => (declares_lowerStmt t loops yes).before fun _ =>
      quiet_leaveFor ..)
      (quiet_openCond ..)
  | loops, .cond _ test yes (some no) => by
    rw [lowerStmt_cond_some, Stmt.bareNames, Stmt.bareNamesOpt]
    exact Declares.after (fun p => (declares_lowerStmt t loops yes).bind fun _ => Declares.after
      (fun _ => (declares_lowerStmt t loops no).before fun _ => quiet_leaveFor ..)
        (quiet_leaveFor ..))
      (quiet_openCond ..)
  | loops, .loop _ test body => by
    rw [lowerStmt_loop, Stmt.bareNames]
    exact Declares.after (fun l => (declares_lowerStmt t (l :: loops) body).before fun _ =>
      quiet_leaveFor ..)
      (quiet_openLoop ..)
  | [], .leave span | [], .next span => by
    rw [lowerStmt, Stmt.bareNames]
    exact declares_reject ..
  | l :: loops, .leave span | l :: loops, .next span => by
    rw [lowerStmt, Stmt.bareNames]
    exact declares_of_quiet ((quiet_jump ..).bind fun _ => quiet_openFresh t)
  | loops, .ret span none => by
    rw [lowerStmt, Stmt.bareNames]
    · exact declares_of_quiet ((quiet_jump ..).bind fun _ => quiet_openFresh t)
    · simp
  | loops, .ret span (some e) => by
    rw [lowerStmt, Stmt.bareNames]
    dsimp only
    refine declares_of_quiet ?_
    split
    · exact (quiet_reject _).bind fun _ => (quiet_jump ..).bind fun _ => quiet_openFresh t
    · exact (quiet_lowerScalar t e).bind fun v => (quiet_emit ..).bind fun _ =>
        (quiet_jump ..).bind fun _ => quiet_openFresh t

theorem declares_lowerStmts (t : Target) (loops : List Loop) :
    ∀ xs : List Stmt, ∃ names, Declares (lowerStmts t loops xs) names
  | [] => by
    rw [lowerStmts]
    exact ⟨[], declares_of_quiet (.pure ())⟩
  | x :: xs => by
    rw [lowerStmts]
    obtain ⟨names, h⟩ := declares_lowerStmts t loops xs
    exact ⟨x.bareNames ++ names, (declares_lowerStmt t loops x).bind fun _ => h⟩

end

/-- Behind a statement a name means what it meant before, unless the statement declares it outside
of its blocks. Such a name is new in the innermost frame. -/
theorem names_behind {loops : List Loop} {x : Stmt} (hrun : lowerStmt t loops x s = .ok ((), s')) :
    s'.scope.depth = s.scope.depth ∧
    (∀ name, name ∉ x.bareNames → s'.scope.resolve name = s.scope.resolve name) ∧
    (∀ name ∈ x.bareNames, name ∉ s.scope.innermost.map (·.1) ∧
      ∃ b, (name, b) ∈ s'.scope.innermost ∧ s'.scope.resolve name = .ok b) ∧
    (s'.scope = s.scope ↔ x.bareNames = []) := by
  obtain ⟨new, hscope, hnew, hfresh⟩ := (declares_lowerStmt t loops x).ok s () s' hrun
  have hlookup (name : String) : (new.lookup name).isSome = true ↔ name ∈ x.bareNames := by
    rw [← List.mem_reverse, ← hnew]
    simp [List.lookup_isSome_iff]
  refine ⟨by
    rw [hscope, Scope.depth_extend], fun name hname => ?_, fun name hname =>
      ⟨hfresh name hname, ?_⟩, ?_⟩
  · rw [hscope, Scope.resolve_extend, Option.not_isSome_iff_eq_none.mp
      ((hlookup name).not.mpr hname)]
  · obtain ⟨b, hb⟩ := Option.isSome_iff_exists.mp ((hlookup name).mpr hname)
    obtain ⟨before, after, rfl, -⟩ := List.lookup_eq_some_iff.mp hb
    exact ⟨b, by
      rw [hscope, Scope.innermost_extend]; simp, by rw [hscope, Scope.resolve_extend, hb]⟩
  · rw [hscope, Scope.extend_eq_self_iff, ← List.map_eq_nil_iff (f := (·.1)), hnew,
      List.reverse_eq_nil_iff]

/-- The body of a function without parameters and result is about to be lowered. -/
def bodySample : State where
  module := ({} : Module).withFunc (laidOut 1 "f" [] .unit [])
  scope := { inner := [(.function, [])], outermost := [("f", .func 1)] }

def targetSample : Target := { func := 1, name := "f", result := none, exit := 2 }

/-- `if (1) int y; else { int z; }` -/
def armsSample : Stmt :=
  .cond {} (.lit {} 1) (.decl {} ⟨false, [⟨"y", {}, [], none⟩]⟩)
    (some (.block {} [.decl {} ⟨false, [⟨"z", {}, [], none⟩]⟩]))

theorem names_behind_armsSample :
    ∃ s', lowerStmt targetSample [] armsSample bodySample = .ok ((), s') ∧
      s'.scope.depth = 2 ∧ s'.scope.resolve "z" = bodySample.scope.resolve "z" ∧
      (∃ b, s'.scope.resolve "y" = .ok b) ∧ s'.scope ≠ bodySample.scope := by
  obtain ⟨⟨⟨⟩, s'⟩, hrun⟩ : ∃ end_, lowerStmt targetSample [] armsSample bodySample = .ok end_ :=
    exists_of_isOk (by decide +kernel)
  obtain ⟨hdepth, hold, hnew, hsame⟩ := names_behind hrun
  have hbare : armsSample.bareNames = ["y"] := by decide +kernel
  rw [hbare] at hold hnew hsame
  obtain ⟨-, b, -, hb⟩ := hnew "y" (by decide)
  exact ⟨s', hrun, hdepth, hold "z" (by decide), ⟨b, hb⟩, fun heq => absurd (hsame.mp heq)
    (by decide)⟩

def firstStmt? (p : Program) : Option (Span × FuncDef × Stmt) :=
  match p.items with
  | .func span d :: _ => d.body.head?.map fun x => (span, d, x)
  | _ => none

theorem nested_of_firstStmt? {p : Program} {span : Span} {d : FuncDef} {x : Stmt}
    (h : firstStmt? p = some (span, d, x)) :
    .func span d ∈ p.items ∧ Stmt.Nested d.body 0 x := by
  unfold firstStmt? at h
  split at h
  · rename_i span' d' is hitems
    obtain ⟨x', hx, heq⟩ := Option.map_eq_some_iff.mp h
    obtain ⟨rfl, rfl, rfl⟩ : span' = span ∧ d' = d ∧ x' = x := by simpa using heq
    exact ⟨hitems ▸ List.mem_cons_self .., .here (List.mem_of_mem_head? hx)⟩
  · cases h

def isDecl : Stmt → Bool
  | .decl _ _ => true
  | _ => false

def leaks (name : String) (x : Stmt) : Bool :=
  match lowerStmt targetSample [] x bodySample with
  | .ok (_, s') => !(bodySample.scope.resolve name).isOk && (s'.scope.resolve name).isOk
  | .error _ => false

/-- A statement that is no declaration can make a name known behind it: a declaration may stand
alone as the arm of a condition. -/
theorem not_forall_names_kept :
    ¬ ∀ (content : Bytes) span d n x t loops s s', (parse 0 0 (lexemes 0 content)).errors = 0 →
      .func span d ∈ (parse 0 0 (lexemes 0 content)).program.items → Stmt.Nested d.body n x →
      (∀ span' dec, x ≠ .decl span' dec) → lowerStmt t loops x s = .ok ((), s') →
      s'.scope.depth = s.scope.depth ∧ ∀ name, s'.scope.resolve name = s.scope.resolve name := by
  intro hkept
  let content := Bytes.ofString "void f() { if (1) int y; }"
  have herrors : (parse 0 0 (lexemes 0 content)).errors = 0 := by decide +kernel
  have hleaks : (firstStmt? (parse 0 0 (lexemes 0 content)).program).any
    (fun p => !isDecl p.2.2 && leaks "y" p.2.2) =
      true := by decide +kernel
  obtain ⟨⟨span, d, x⟩, hfirst, hx⟩ := (Option.any_eq_true _ _).mp hleaks
  obtain ⟨hitem, hnested⟩ := nested_of_firstStmt? hfirst
  obtain ⟨hdecl, hx⟩ := Bool.and_eq_true_iff.mp hx
  have hother : ∀ span' dec, x ≠ .decl span' dec := by
    rintro span' dec rfl
    exact Bool.false_ne_true hdecl
  unfold leaks at hx
  split at hx
  · rename_i u s' hrun
    obtain ⟨hunknown, hknown⟩ := Bool.and_eq_true_iff.mp hx
    have hsame := (hkept content span d 0 x targetSample [] bodySample s' herrors hitem hnested
      hother hrun).2 "y"
    rw [hsame] at hknown
    rw [hknown] at hunknown
    cases hunknown
  · cases hx

end Lowering

end Sysy
