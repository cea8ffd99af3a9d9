import Sysy.Ir.Validity
import Sysy.Proofs.Ir.Construction
import Sysy.Proofs.Naming.Freshness

/-!
Which values the text of a module mentions by name, and in which order. `Prints` says what a piece
of the text is, given the names of the values that it mentions, and `Spells` also that it names them
one after the other.
-/

namespace Sysy.Ir

/-- The name that a value asks for. Values without one are numbered. -/
def Value.baseName? (v : Value) : Option String :=
  if v.name ≠ "" then some v.name
  else match v.node with
    | .arg i => some s!"@arg{i}"
    | _ => none

def Module.baseName? (m : Module) (id : ValueId) : Option String := (m.value? id).bind (·.baseName?)

def Module.operandMentions (m : Module) : (depth : Nat) → ValueId → List ValueId
  | 0, _ => []
  | depth + 1, id => match m.node? id with
    | none | some (.integer _) | some .zeroInit => []
    | some (.aggregate es) => es.flatMap (m.operandMentions depth)
    | some _ => [id]

def Module.useMentions (m : Module) (id : ValueId) : List ValueId :=
  m.operandMentions (m.values.size + 1) id

def Value.isResult (v : Value) : Bool :=
  match v.node with
  | .alloc | .load _ | .getPtr _ _ | .getElemPtr _ _ | .binary _ _ _ => true
  | .call _ _ => !v.ty.isUnit
  | _ => false

/-- The values that an instruction mentions. The arguments of a call come before its result. -/
def Module.instMentions (m : Module) (id : ValueId) : List ValueId :=
  match m.value? id with
  | none => []
  | some v => match v.node with
    | .alloc => [id]
    | .load s => id :: m.useMentions s
    | .store x d => m.useMentions x ++ m.useMentions d
    | .getPtr s i | .getElemPtr s i => id :: (m.useMentions s ++ m.useMentions i)
    | .binary _ l r => id :: (m.useMentions l ++ m.useMentions r)
    | .branch c _ _ => m.useMentions c
    | .call _ args => args.flatMap m.useMentions ++ if v.ty.isUnit then [] else [id]
    | .ret (some x) => m.useMentions x
    | _ => []

def Func.mentions (m : Module) (fn : Func) : List ValueId :=
  (fn.args.zip fn.params).map (·.1) ++ fn.insts.flatMap m.instMentions

/-! The text of a module when each value `x` has the name `ν x`. -/

def Module.operandText (m : Module) (ν : ValueId → String) : (depth : Nat) → ValueId → String
  | 0, _ => "<none>"
  | depth + 1, x => match m.node? x with
    | none => "<none>"
    | some (.integer w) => toString w.toInt
    | some .zeroInit => "zeroinit"
    | some (.aggregate es) =>
      "\x7b" ++ String.intercalate ", " (es.map (m.operandText ν depth)) ++ "\x7d"
    | some _ => ν x

section Text

variable (m : Module) (ν : ValueId → String)

def Module.useText (x : ValueId) : String := m.operandText ν (m.values.size + 1) x

def Module.instText (fn : Func) (x : ValueId) : String :=
  match m.value? x with
  | none => ""
  | some v => match v.node with
    | .alloc => ν x ++ " = alloc " ++ v.ty.elem.text
    | .load s => ν x ++ " = load " ++ m.useText ν s
    | .store y d => "store " ++ m.useText ν y ++ ", " ++ m.useText ν d
    | .getPtr s i => ν x ++ " = getptr " ++ m.useText ν s ++ ", " ++ m.useText ν i
    | .getElemPtr s i => ν x ++ " = getelemptr " ++ m.useText ν s ++ ", " ++ m.useText ν i
    | .binary op l r => ν x ++ " = " ++ op.name ++ " " ++ m.useText ν l ++ ", " ++ m.useText ν r
    | .branch c y n =>
      "br " ++ m.useText ν c ++ ", %" ++ fn.blockName y ++ ", %" ++ fn.blockName n
    | .jump t => "jump %" ++ fn.blockName t
    | .call callee args =>
      let name := ((m.func? callee).map (·.name)).getD ""
      let call := "call @" ++ name ++ "(" ++ String.intercalate ", " (args.map (m.useText ν)) ++ ")"
      if v.ty.isUnit then call else ν x ++ " = " ++ call
    | .ret none => "ret"
    | .ret (some y) => "ret " ++ m.useText ν y
    | k => "<" ++ k.kindName ++ ">"

def Module.blockText (fn : Func) (bb : BlockId) : String :=
  let lines := (((fn.block? bb).map (·.insts.toList)).getD []).map fun x =>
    "  " ++ m.instText ν fn x ++ "\n"
  "%" ++ fn.blockName bb ++ ":\n" ++ String.join lines

def Module.funcText (fn : Func) : String :=
  let params := (fn.args.zip fn.params).map fun q => ν q.1 ++ ": " ++ q.2.text
  "fun @" ++ fn.name ++ "(" ++ String.intercalate ", " params ++ ")" ++ Printer.retText fn.ret ++
    " \x7b\n" ++ String.join (fn.layout.toList.map (m.blockText ν fn)) ++ "\x7d\n"

def Module.globalText (x : ValueId) : String :=
  let init := match m.node? x with
    | some (.global i) => i
    | _ => 0
  "global " ++ ν x ++ " = alloc " ++ (m.tyOf x).elem.text ++ ", " ++ m.useText ν init ++ "\n"

def Module.declText : String :=
  String.join ((m.funcs.toList.filter (·.isDeclared)).map Printer.declaration)

def Module.sectionTexts : List String :=
  let globals := m.globals.toList.map (m.globalText ν)
  (if m.declText = "" then [] else [m.declText]) ++
    (if globals.isEmpty then [] else [String.join globals]) ++
    (m.funcs.toList.filter (!·.isDeclared)).map (m.funcText ν)

def Module.textUnder : String := String.intercalate "\n" (m.sectionTexts ν)

end Text

namespace Printer

variable {α β : Type} {m : Module} {s t : Names} {id : ValueId} {ids ids' : List ValueId}
  {n b : String}

def Names.name? (s : Names) (id : ValueId) : Option String := s.given.getD id none

def Names.Fits (s : Names) (m : Module) : Prop := s.given.size = m.values.size + 1

theorem nameOf_again (h : s.name? id = some n) : nameOf m id s = (n, s) := by
  unfold Names.name? at h
  simp only [nameOf, bind, StateT.bind, get, getThe, MonadStateOf.get, StateT.get, pure, h]
  rfl

theorem baseName?_getD (m : Module) (id : ValueId) :
    ((m.value? id).getD { node := .zeroInit, ty := .absent }).baseName? = m.baseName? id := by
  unfold Module.baseName?
  cases m.value? id <;> rfl

theorem nameOf_new (h : s.name? id = none) :
    nameOf m id s = match m.baseName? id with
      | some b => (uniqueName s.taken b,
        { s with
          given := s.given.setIfInBounds id (some (uniqueName s.taken b))
          taken := entered s.taken b (uniqueName s.taken b) })
      | none => ("%" ++ toString s.next,
        { s with given := s.given.setIfInBounds id (some ("%" ++ toString s.next)),
                 next := s.next + 1 }) := by
  unfold Names.name? at h
  rw [← baseName?_getD]
  simp only [nameOf, bind, StateT.bind, get, getThe, MonadStateOf.get, StateT.get, pure, h]
  generalize (m.value? id).getD { node := .zeroInit, ty := .absent } = v
  unfold Value.baseName?
  split_ifs
  · rfl
  · cases v.node <;> rfl

theorem name?_of_given {s' : Names} {x : ValueId}
    (hgiven : s'.given = s.given.setIfInBounds id (some n)) (h : id < s.given.size) :
    s'.name? x = if x = id then some n else s.name? x := by
  unfold Names.name?
  rw [hgiven]
  by_cases hx : x = id
  · subst hx
    simp [Array.getD_eq_getD_getElem?, h]
  · simp [Array.getD_eq_getD_getElem?, hx, Array.getElem?_setIfInBounds_ne (Ne.symm hx)]

theorem Names.Fits.lt (h : s.Fits m) (hid : id ≤ m.values.size) : id < s.given.size := by
  rw [h]
  exact Nat.lt_succ_of_le hid

/-- A value has its name already, or it is given one. -/
theorem nameOf_cases (m : Module) (id : ValueId) (s : Names) :
    (∃ n, s.name? id = some n ∧ nameOf m id s = (n, s)) ∨
    ∃ n s', s.name? id = none ∧ nameOf m id s = (n, s') ∧ s'.given = s.given.setIfInBounds id
      (some n) := by
  cases h : s.name? id with
  | some n => exact .inl ⟨n, rfl, nameOf_again h⟩
  | none =>
    rw [nameOf_new h]
    cases m.baseName? id with
    | some b => exact .inr ⟨_, _, rfl, rfl, rfl⟩
    | none => exact .inr ⟨_, _, rfl, rfl, rfl⟩

/-- A piece of text that mentions the values `ids` and gives names to those that have none. It is
`text ν` when they come to have the names `ν`. -/
structure Prints (m : Module) (x : Print α) (ids : List ValueId) (text : (ValueId → String) →
    α) : Prop where
  within : ∀ id ∈ ids, id ≤ m.values.size
  fits : ∀ s : Names, s.Fits m → (x s).2.Fits m
  keeps : ∀ s : Names, s.Fits m → ∀ id n, s.name? id = some n → (x s).2.name? id = some n
  named : ∀ s : Names, s.Fits m → ∀ id ∈ ids, ∃ n, (x s).2.name? id = some n
  reads : ∀ (s : Names) (ν : ValueId → String), s.Fits m →
    (∀ id ∈ ids, (x s).2.name? id = some (ν id)) → (x s).1 = text ν

namespace Prints

theorem pure (m : Module) (a : α) : Prints m (pure a) [] fun _ => a where
  within := by simp
  fits _ h := h
  keeps _ _ _ _ h := h
  named := by simp
  reads _ _ _ _ := rfl

theorem bind {x : Print α} {k : α → Print β} {a : (ValueId → String) → α}
    {b : α → (ValueId → String) → β} (hx : Prints m x ids a) (hk : ∀ c, Prints m (k c) ids' (b c)) :
    Prints m (x >>= k) (ids ++ ids') fun ν => b (a ν) ν where
  within id hid := (List.mem_append.mp hid).elim (hx.within id)
    ((hk (x { given := #[] }).1).within id)
  fits s hs := (hk _).fits _ (hx.fits s hs)
  keeps s hs id n h := (hk _).keeps _ (hx.fits s hs) id n (hx.keeps s hs id n h)
  named s hs id hid := by
    rcases List.mem_append.mp hid with hid | hid
    · obtain ⟨n, hn⟩ := hx.named s hs id hid
      exact ⟨n, (hk _).keeps _ (hx.fits s hs) id n hn⟩
    · exact (hk _).named _ (hx.fits s hs) id hid
  reads s ν hs h := by
    have hfirst : ∀ id ∈ ids, (x s).2.name? id = some (ν id) := by
      intro id hid
      obtain ⟨n, hn⟩ := hx.named s hs id hid
      rw [hn, ← (hk _).keeps _ (hx.fits s hs) id n hn]
      exact h id (List.mem_append_left _ hid)
    rw [← hx.reads s ν hs hfirst]
    exact (hk _).reads _ ν (hx.fits s hs) fun id hid => h id (List.mem_append_right _ hid)

theorem get_bind {k : Names → Print β} {b : (ValueId → String) → β}
    (hk : ∀ s, Prints m (k s) ids b) : Prints m (get >>= k) ids b where
  within := (hk { given := #[] }).within
  fits s := (hk s).fits s
  keeps s := (hk s).keeps s
  named s := (hk s).named s
  reads s := (hk s).reads s

theorem mapM {γ : Type} {f : γ → Print α} {g : γ → List ValueId} {a : γ → (ValueId → String) → α}
    (l : List γ) (h : ∀ c ∈ l, Prints m (f c) (g c) (a c)) :
    Prints m (l.mapM f) (l.flatMap g) fun ν => l.map (a · ν) := by
  induction l with
  | nil => exact pure m []
  | cons c l ih =>
    rw [List.mapM_cons, List.flatMap_cons]
    refine (h c (List.mem_cons_self ..)).bind (b := fun t ν => t :: l.map (a · ν)) fun t => ?_
    rw [← List.append_nil (l.flatMap g)]
    exact (ih fun c hc => h c (List.mem_cons_of_mem _ hc)).bind (b := fun ts _ => t :: ts)
      fun ts => pure m (t :: ts)

theorem nameOf (hid : id ≤ m.values.size) : Prints m (nameOf m id) [id] fun ν => ν id where
  within := by simpa using hid
  fits s hs := by
    rcases nameOf_cases m id s with ⟨n, -, hrun⟩ | ⟨n, s', -, hrun, hgiven⟩
    · rwa [hrun]
    · rw [hrun]
      exact ((congrArg Array.size hgiven).trans (Array.size_setIfInBounds ..)).trans hs
  keeps s hs x n hx := by
    rcases nameOf_cases m id s with ⟨n, -, hrun⟩ | ⟨n, s', hnone, hrun, hgiven⟩
    · rwa [hrun]
    · have hne : x ≠ id := by
        rintro rfl
        cases hnone.symm.trans hx
      rw [hrun, name?_of_given hgiven (hs.lt hid), if_neg hne]
      exact hx
  named s hs x hx := by
    obtain rfl := List.mem_singleton.mp hx
    rcases nameOf_cases m x s with ⟨n, hsome, hrun⟩ | ⟨n, s', hnone, hrun, hgiven⟩
    · exact ⟨n, hrun ▸ hsome⟩
    · exact ⟨n, by rw [hrun, name?_of_given hgiven (hs.lt hid), if_pos rfl]⟩
  reads s ν hs h := by
    have hname := h id (List.mem_singleton_self _)
    rcases nameOf_cases m id s with ⟨n, hsome, hrun⟩ | ⟨n, s', hnone, hrun, hgiven⟩
    · rw [hrun] at hname ⊢
      exact Option.some.inj (hsome.symm.trans hname)
    · rw [hrun, name?_of_given hgiven (hs.lt hid), if_pos rfl] at hname
      rw [hrun]
      exact Option.some.inj hname

end Prints

def nameAll (m : Module) (ids : List ValueId) (s : Names) : Names :=
  ids.foldl (fun s id => (nameOf m id s).2) s

theorem nameAll_append (m : Module) (ids ids' : List ValueId) (s : Names) :
    nameAll m (ids ++ ids') s = nameAll m ids' (nameAll m ids s) := List.foldl_append

structure Spells (m : Module) (x : Print α) (ids : List ValueId)
    (text : (ValueId → String) → α) : Prop
    extends Prints m x ids text where
  order : ∀ s, (x s).2 = nameAll m ids s

namespace Spells

theorem pure (m : Module) (a : α) : Spells m (pure a) [] fun _ => a := ⟨.pure m a, fun _ => rfl⟩

theorem bind {x : Print α} {k : α → Print β} {a : (ValueId → String) → α}
    {b : α → (ValueId → String) → β} (hx : Spells m x ids a) (hk : ∀ c, Spells m (k c) ids' (b c)) :
    Spells m (x >>= k) (ids ++ ids') fun ν => b (a ν) ν := by
  refine ⟨hx.toPrints.bind fun c => (hk c).toPrints, fun s => ?_⟩
  rw [nameAll_append, ← hx.order s]
  exact (hk _).order _

theorem map {x : Print α} {a : (ValueId → String) → α} (h : Spells m x ids a) (f : α → β) :
    Spells m (do return f (← x)) ids fun ν => f (a ν) := by
  rw [← List.append_nil ids]
  exact h.bind (b := fun c _ => f c) fun c => pure m (f c)

theorem mapM {γ : Type} {f : γ → Print α} {g : γ → List ValueId} {a : γ → (ValueId → String) → α}
    (l : List γ) (h : ∀ c ∈ l, Spells m (f c) (g c) (a c)) :
    Spells m (l.mapM f) (l.flatMap g) fun ν => l.map (a · ν) := by
  induction l with
  | nil => exact pure m []
  | cons c l ih =>
    rw [List.mapM_cons, List.flatMap_cons]
    exact (h c (List.mem_cons_self ..)).bind (b := fun t ν => t :: l.map (a · ν)) fun t =>
      (ih fun c hc => h c (List.mem_cons_of_mem _ hc)).map (t :: ·)

theorem nameOf (hid : id ≤ m.values.size) : Spells m (nameOf m id) [id] fun ν => ν id :=
  ⟨.nameOf hid, fun _ => rfl⟩

theorem operand_succ (m : Module) (depth : Nat) (id : ValueId) :
    Printer.operand m (depth + 1) id = (match m.node? id with
      | none => return "<none>"
      | some (.integer w) => return toString w.toInt
      | some .zeroInit => return "zeroinit"
      | some (.aggregate es) => do
        let parts ← es.mapM (Printer.operand m depth)
        return "\x7b" ++ String.intercalate ", " parts ++ "\x7d"
      | some _ => Printer.nameOf m id) := rfl

theorem operandMentions_succ (m : Module) (depth : Nat) (id : ValueId) :
    m.operandMentions (depth + 1) id = match m.node? id with
      | none | some (.integer _) | some .zeroInit => []
      | some (.aggregate es) => es.flatMap (m.operandMentions depth)
      | some _ => [id] := rfl

theorem operandText_succ (m : Module) (ν : ValueId → String) (depth : Nat) (id : ValueId) :
    m.operandText ν (depth + 1) id = match m.node? id with
      | none => "<none>"
      | some (.integer w) => toString w.toInt
      | some .zeroInit => "zeroinit"
      | some (.aggregate es) =>
        "\x7b" ++ String.intercalate ", " (es.map (m.operandText ν depth)) ++ "\x7d"
      | some _ => ν id := rfl

theorem operand (m : Module) (depth : Nat) :
    ∀ id, Spells m (operand m depth id) (m.operandMentions depth id)
      (m.operandText · depth id) := by
  induction depth with
  | zero => exact fun id => pure m "<none>"
  | succ depth ih =>
    intro id
    rw [operand_succ, operandMentions_succ, funext (operandText_succ m · depth id)]
    cases hnode : m.node? id with
    | none => exact pure m "<none>"
    | some node =>
      obtain ⟨v, hv, -⟩ := Option.map_eq_some_iff.mp hnode
      have hname : Spells m (Printer.nameOf m id) [id] fun ν => ν id :=
        nameOf (Module.bounds_of_value? hv).2
      cases node with
      | integer w => exact pure m _
      | zeroInit => exact pure m _
      | aggregate es => exact (mapM es fun e _ => ih e).map _
      | _ => exact hname

theorem use (m : Module) (id : ValueId) : Spells m (use m id) (m.useMentions id) (m.useText · id) :=
  operand m _ id

theorem inst (m : Module) (fn : Func) (id : ValueId) :
    Spells m (inst m fn id) (m.instMentions id) (m.instText · fn id) := by
  rw [Printer.inst, Module.instMentions]
  simp only [Module.instText]
  cases hv : m.value? id with
  | none => exact pure m ""
  | some v =>
    have hname : Spells m (Printer.nameOf m id) [id] fun ν => ν id :=
      nameOf (Module.bounds_of_value? hv).2
    dsimp only
    cases hnode : v.node with
    | alloc => exact hname.map (· ++ " = alloc " ++ v.ty.elem.text)
    | load x => exact hname.bind fun n => (use m x).map (n ++ " = load " ++ ·)
    | store x d => exact (use m x).bind fun x => (use m d).map ("store " ++ x ++ ", " ++ ·)
    | getPtr x i =>
      exact hname.bind fun n => (use m x).bind fun x =>
        (use m i).map (n ++ " = getptr " ++ x ++ ", " ++ ·)
    | getElemPtr x i =>
      exact hname.bind fun n => (use m x).bind fun x =>
        (use m i).map (n ++ " = getelemptr " ++ x ++ ", " ++ ·)
    | binary op l r =>
      exact hname.bind fun n => (use m l).bind fun l =>
        (use m r).map (n ++ " = " ++ op.name ++ " " ++ l ++ ", " ++ ·)
    | branch c y n =>
      exact (use m c).map ("br " ++ · ++ ", %" ++ fn.blockName y ++ ", %" ++ fn.blockName n)
    | jump t => exact pure m _
    | call callee args =>
      let call (texts : List String) : String := "call @" ++
        ((m.func? callee).map (·.name)).getD "" ++ "(" ++ String.intercalate ", " texts ++ ")"
      refine (mapM args fun x _ => use m x).bind
        (b := fun texts ν => if v.ty.isUnit then call texts else ν id ++ " = " ++ call texts)
        fun texts => ?_
      split
      · exact pure m _
      · exact hname.map (· ++ " = " ++ call texts)
    | ret x =>
      cases x with
      | none => exact pure m "ret"
      | some x => exact (use m x).map ("ret " ++ ·)
    | _ => exact pure m _

theorem block (m : Module) (fn : Func) (bb : BlockId) : Spells m (block m fn bb)
    ((((fn.block? bb).map (·.insts.toList)).getD []).flatMap m.instMentions)
    (m.blockText · fn bb) :=
  (mapM _ fun id _ => (inst m fn id).map fun text => "  " ++ text ++ "\n").map fun lines =>
    "%" ++ fn.blockName bb ++ ":\n" ++ String.join lines

end Spells

end Printer

end Sysy.Ir
