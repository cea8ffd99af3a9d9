import Sysy.Proofs.Lowering.Growth

/-!
The steps that lowering a body is made of, each with what it needs and what it leaves behind. A
state is `At` a place in a body: its current block is open or finished, and the blocks `P` are still
to be laid out.
-/

namespace Sysy.Lowering
open Ir

variable {α β : Type} {t : Target} {s s' s'' : State} {e : Bool} {P : Set Nat}
  {m m' : Module} {f : Nat}

structure Callable (fn : Func) : Prop where
  params : ∀ ty ∈ fn.params, ty.IsParam
  ret : fn.ret = .i32 ∨ fn.ret = .unit

def BindingOk (m : Module) (f : FuncId) : Binding → Prop
  | .const _ => True
  | .var ptr _ => ∃ ty, m.Readable f ptr (.ptr ty) ∧ ty.IsObject
  | .func g => ∃ callee, m.func? g = some callee ∧ Callable callee

structure ScopeOk (m : Module) (f : FuncId) (scope : Scope Binding) : Prop where
  outer : ∀ p ∈ scope.outermost, ∀ g, BindingOk m g p.2
  inner : ∀ frame ∈ scope.inner, ∀ p ∈ frame.2, BindingOk m f p.2

theorem BindingOk.extends {b : Binding} (h : BindingOk m f b) (he : Extends m m') :
    BindingOk m' f b := by
  cases b with
  | const _ => trivial
  | var ptr _ =>
    obtain ⟨ty, hr, hty⟩ := h
    exact ⟨ty, he.readable hr, hty⟩
  | func g =>
    obtain ⟨callee, hg, hc⟩ := h
    obtain ⟨callee', hg', hb⟩ := he.func hg
    exact ⟨callee', hg', by rw [hb.params]; exact hc.params, by rw [hb.ret]; exact hc.ret⟩

theorem ScopeOk.extends {scope : Scope Binding} (h : ScopeOk m f scope) (he : Extends m m') :
    ScopeOk m' f scope :=
  ⟨fun p hp g => (h.outer p hp g).extends he, fun fr hfr p hp => (h.inner fr hfr p hp).extends he⟩

theorem ScopeOk.resolve {scope : Scope Binding} {name : String} {b : Binding}
    (h : ScopeOk m f scope) (hr : scope.resolve name = .ok b) : BindingOk m f b := by
  have hlookup (l : List (String × Binding)) (c : Binding) (hl : l.lookup name = some c) :
    (name, c) ∈ l := by
    induction l with
    | nil => cases hl
    | cons p l ih =>
      rw [List.lookup_cons] at hl
      split at hl
      · rename_i heq
        obtain rfl := Option.some.inj hl
        rw [beq_iff_eq] at heq
        simp [heq]
      · exact List.mem_cons_of_mem _ (ih hl)
  rw [Scope.resolve] at hr
  split at hr
  · rename_i c hc
    obtain rfl : c = b := by simpa using hr
    rcases hin : scope.inner.findSome? fun fr => fr.2.lookup name with _ | d
    · rw [hin, Option.none_or] at hc
      exact h.outer _ (hlookup _ _ hc) f
    · rw [hin, Option.some_or] at hc
      obtain rfl := Option.some.inj hc
      obtain ⟨fr, hfr, hd⟩ := List.exists_of_findSome?_eq_some hin
      exact h.inner fr hfr _ (hlookup _ _ hd)
  · cases hr

/-- The state is inside the body of a function: `e` tells whether the current block is finished, and
the blocks `P` are not laid out yet. -/
structure At (t : Target) (e : Bool) (P : Set Nat) (s : State) : Prop where
  body : ∃ fn, Body s.module t.func fn ∧ s.module.Ended (fn.code fn.current) = e ∧
    ∀ bb, bb ∈ P ↔ 0 < bb ∧ bb ≤ fn.blocks.size ∧ bb ∉ fn.layout.toList
  result : ∀ r, t.result = some r → s.module.Readable t.func r (.ptr .i32)
  exit : t.exit = 2
  scope : ScopeOk s.module t.func s.scope
  inside : s.scope.inner ≠ []

def IsTarget (m : Module) (f : FuncId) (bb : BlockId) : Prop :=
  ∃ fn, m.func? f = some fn ∧ fn.entry < bb ∧ bb ≤ fn.blocks.size

theorem IsTarget.extends {bb : Nat} (h : IsTarget m f bb) (he : Extends m m') :
    IsTarget m' f bb := by
  obtain ⟨fn, hf, h₁, h₂⟩ := h
  obtain ⟨fn', hf', hb⟩ := he.func hf
  exact ⟨fn', hf', by rw [hb.entry]; exact h₁, h₂.trans hb.size⟩

theorem At.isTarget {bb : Nat} (h : At t e P s) (hbb : bb ∈ P) : IsTarget s.module t.func bb := by
  obtain ⟨fn, hbody, -, hP⟩ := h.body
  obtain ⟨h₁, h₂, h₃⟩ := (hP bb).mp hbb
  have hne : bb ≠ 1 := by
    rintro rfl
    exact h₃ (List.mem_of_mem_head? hbody.first)
  have := hbody.entry
  exact ⟨fn, hbody.found, by lia, h₂⟩

structure Moves (t : Target) (s s' : State) : Prop where
  grows : Grows t.func s.module s'.module
  scope : s'.scope = s.scope

theorem Moves.refl (t : Target) (s : State) : Moves t s s := ⟨.refl, rfl⟩

theorem Moves.trans (h : Moves t s s') (h' : Moves t s' s'') : Moves t s s'' :=
  ⟨h.grows.trans h'.grows, h'.scope.trans h.scope⟩

theorem Moves.extends (h : Moves t s s') : Extends s.module s'.module := h.grows.extends

theorem Moves.readable {id : Nat} {ty : Ty} (h : Moves t s s')
    (hr : s.module.Readable t.func id ty) :
    s'.module.Readable t.func id ty := h.extends.readable hr

/-- A step keeps everything about a state that does not depend on the function in work. -/
theorem At.next {e' : Bool} {P' : Set Nat} {fn' : Func} (h : At t e P s)
    (hs : Step t.func s.module m') (hbody : Body m' t.func fn')
    (hended : m'.Ended (fn'.code fn'.current) = e')
    (hP : ∀ bb, bb ∈ P' ↔ 0 < bb ∧ bb ≤ fn'.blocks.size ∧ bb ∉ fn'.layout.toList) :
    Moves t s { s with module := m' } ∧ At t e' P' { s with module := m' } :=
  ⟨⟨.single hs, rfl⟩,
    ⟨fn', hbody, hended, hP⟩, fun r hr => hs.extends.readable (h.result r hr), h.exit,
    h.scope.extends hs.extends, h.inside⟩

instance : Trans (Moves t) (Moves t) (Moves t) := ⟨Moves.trans⟩

theorem Gives.along {M M' : State → State → Prop} [Trans M M' M'] {x : Lower α} {k : α → Lower β}
    {Q : α → State → Prop} {R : β → State → Prop} (hx : Gives x s fun a s' => M s s' ∧ Q a s')
    (hk : ∀ a s', M s s' → Q a s' → Gives (k a) s' fun b s'' => M' s' s'' ∧ R b s'') :
    Gives (x >>= k) s fun b s'' => M' s s'' ∧ R b s'' := by
  refine Gives.bind hx ?_
  rintro a s' ⟨hm, hQ⟩
  refine (hk a s' hm hQ).mono ?_
  rintro b s'' ⟨hm', hR⟩
  exact ⟨Trans.trans hm hm', hR⟩

def Yields (t : Target) (P : Set Nat) (s : State) (x : Lower α) (R : α → Module → Prop) : Prop :=
  Gives x s fun a s' => Moves t s s' ∧ At t false P s' ∧ R a s'.module

namespace Yields
variable {x : Lower α} {k : α → Lower β} {R : α → Module → Prop} {R' : β → Module → Prop}

theorem bind (hx : Yields t P s x R)
    (hk : ∀ a s', Moves t s s' → At t false P s' → R a s'.module → Yields t P s' (k a) R') :
    Yields t P s (x >>= k) R' :=
  Gives.along hx fun a s' hm ⟨ha, hR⟩ => hk a s' hm ha hR

theorem pure {a : α} (h : At t false P s) (hR : R a s.module) : Yields t P s (pure a) R :=
  Gives.pure ⟨.refl t s, h, hR⟩

theorem reject {e : LoweringError} : Yields t P s (reject e : Lower α) R := Gives.reject

theorem get_bind {k : State → Lower β} (h : Yields t P s (k s) R') :
    Yields t P s (get >>= k) R' := h

end Yields

theorem yields_integer (h : At t false P s) (w : Word) :
    Yields t P s (build (Build.integer w)) fun id m => m.Readable t.func id .i32 := by
  obtain ⟨fn, hbody, hended, hP⟩ := h.body
  have hpos := (Module.bounds_of_func? hbody.found).1
  have hbody' : Body _ t.func fn :=
    hbody.add (v := { node := .integer w, ty := .i32 }) (Nat.ne_of_lt hpos)
  refine Gives.build (Build.integer_eq _ w) ?_
  obtain ⟨hm, ha⟩ :=
    h.next (.constant w) hbody' ((hbody.ended_eq (Extends.add _ _) _).trans hended) hP
  exact ⟨hm, ha, { node := .integer w, ty := .i32 }, by
    rw [Module.value?_add, if_pos rfl], rfl, trivial⟩

theorem At.takes {fn : Func} (h : At t false P s) (hf : s.module.func? t.func = some fn) :
    Build.Takes s.module t.func fn.current := by
  obtain ⟨fn', hbody, hended, -⟩ := h.body
  obtain rfl := Option.some.inj (hbody.found.symm.trans hf)
  obtain ⟨h₁, h₂⟩ := hbody.bounds _ hbody.current
  exact (hbody.takes_iff h₁ h₂).mpr hended

theorem At.entry_takes {fn : Func} (h : At t e P s) (hf : s.module.func? t.func = some fn) :
    Build.Takes s.module t.func fn.entry := by
  obtain ⟨fn', hbody, -, -⟩ := h.body
  obtain rfl := Option.some.inj (hbody.found.symm.trans hf)
  have := hbody.blocks
  rw [hbody.entry, hbody.takes_iff (by lia) (by lia)]
  exact hbody.entry_open

theorem At.func (h : At t e P s) : ∃ fn, s.module.func? t.func = some fn ∧ fn.entry = 1 ∧
    fn.current ≠ 1 := by
  obtain ⟨fn, hbody, -, -⟩ := h.body
  exact ⟨fn, hbody.found, hbody.entry, hbody.current_ne⟩

theorem At.inst {fn : Func} {v : Value} (h : At t false P s) (hf : s.module.func? t.func = some fn)
    (hfunc : v.func = t.func) (hblock : v.block = fn.current ∨ v.node = .alloc)
    (hok : InstOk s.module t.func fn v.block v.node v.ty) :
    Moves t s { s with module := s.module.close t.func v } ∧
      At t v.node.isTerminator P { s with module := s.module.close t.func v } := by
  obtain ⟨fn', hbody, hended, hP⟩ := h.body
  obtain rfl := Option.some.inj (hbody.found.symm.trans hf)
  have htakes : Build.Takes s.module t.func v.block := by
    rcases hblock with hb | hnode
    · rw [hb]; exact h.takes hf
    · have hbb : v.block = fn'.entry := (hnode ▸ hok).block_of_alloc
      rw [hbb]
      exact h.entry_takes hf
  have hbody' := hbody.close hfunc htakes hblock hok
  refine h.next (.inst hf hfunc htakes hblock hok) hbody' ?_ ?_
  · obtain ⟨_, b, hf', hb, -⟩ := htakes
    obtain rfl := Option.some.inj (hf.symm.trans hf')
    rw [Func.code_record, Func.code_push hb]
    split
    · rw [Module.ended_append (by rw [Module.value?_close, if_pos rfl])]
    · rename_i hne
      rcases hblock with hb' | hnode
      · exact absurd hb'.symm hne
      · rw [hbody.ended_eq (Extends.close hf hb), hnode]
        exact hended
  · intro bb
    simp only [Func.record, Func.push, Array.size_modify]
    exact hP bb

def IsNew (t : Target) (s' : State) (id : ValueId) (node : Node) (ty : Ty) : Prop :=
  ∃ v, s'.module.value? id = some v ∧ v.node = node ∧ v.ty = ty ∧ v.func = t.func

theorem At.emit {fn : Func} {node : Node} {ty : Ty} (h : At t false P s)
    (hf : s.module.func? t.func = some fn) (hty : Typed s.module t.func node ty) {x : Build ValueId}
    (hx : x s.module = .ok (s.module.values.size + 1,
      s.module.append t.func { node, ty, func := t.func, block := fn.current })) :
    Gives (build x) s fun id s' => Moves t s s' ∧ At t false P s' ∧ IsNew t s' id node ty := by
  obtain ⟨fn', hf', hentry, hcur⟩ := h.func
  obtain rfl := Option.some.inj (hf'.symm.trans hf)
  have hok : InstOk s.module t.func fn' fn'.current node ty :=
    .plain (by rw [hentry]; exact hcur) hty
  have hleave : node.successors = [] ∧ node.isTerminator = false :=
    by cases hty <;> exact ⟨rfl, rfl⟩
  obtain ⟨hm, ha⟩ :=
    h.inst (v := { node, ty, func := t.func, block := fn'.current }) hf rfl (.inl rfl) hok
  rw [← Module.close_eq_append _ hleave.1] at hx
  refine Gives.build hx ⟨hm, hleave.2 ▸ ha, { node, ty, func := t.func, block := fn'.current }, ?_,
    rfl, rfl, rfl⟩
  rw [Module.value?_close, if_pos rfl]

theorem IsNew.readable {id : Nat} {node : Node} {ty : Ty} (h : IsNew t s' id node ty)
    (hnode : ∀ v : Value, v.node = node → v.func = t.func → v.IsReadable t.func) :
    s'.module.Readable t.func id ty := by
  obtain ⟨v, hv, hn, hty, hfunc⟩ := h
  exact ⟨v, hv, hty, hnode v hn hfunc⟩

theorem yields_load {src : Nat} {ty : Ty} (h : At t false P s)
    (hsrc : s.module.Readable t.func src (.ptr ty)) (hty : ty.IsParam) :
    Yields t P s (build (Build.load t.func src)) fun id m => m.Readable t.func id ty := by
  obtain ⟨fn, hf, -, -⟩ := h.func
  have helem : (s.module.tyOf src).elem = ty := congrArg Ty.elem hsrc.tyOf_eq
  refine (h.emit hf (.load hsrc hty) (by rw [Build.load_eq hf (h.takes hf), helem])).mono ?_
  rintro id s' ⟨hm, ha, hnew⟩
  exact ⟨hm, ha, hnew.readable fun v hn hv => by simp only [Value.IsReadable, hn]; exact hv⟩

theorem yields_store {val dest : Nat} (h : At t false P s)
    (hval : s.module.Readable t.func val .i32) (hdest : s.module.Readable t.func dest (.ptr .i32)) :
    Yields t P s (build (Build.store t.func val dest)) fun _ _ => True := by
  obtain ⟨fn, hf, -, -⟩ := h.func
  refine (h.emit hf (.store hval hdest) (Build.emit_eq hf (h.takes hf) _ _)).mono ?_
  rintro id s' ⟨hm, ha, -⟩
  exact ⟨hm, ha, trivial⟩

theorem yields_binary {op : Arith} {lhs rhs : Nat} (h : At t false P s) (hop : op ≠ .unnamed)
    (hlhs : s.module.Readable t.func lhs .i32) (hrhs : s.module.Readable t.func rhs .i32) :
    Yields t P s (build (Build.binary t.func op lhs rhs)) fun id m =>
      m.Readable t.func id .i32 := by
  obtain ⟨fn, hf, -, -⟩ := h.func
  refine (h.emit hf (.binary hop hlhs hrhs) (Build.emit_eq hf (h.takes hf) _ _)).mono ?_
  rintro id s' ⟨hm, ha, hnew⟩
  exact ⟨hm, ha, hnew.readable fun v hn hv => by simp only [Value.IsReadable, hn]; exact hv⟩

theorem yields_getPtr {src index : Nat} {ds : List Nat} (h : At t false P s) (hds : Shaped ds)
    (hsrc : s.module.Readable t.func src (.ptr (.ofDims ds)))
    (hindex : s.module.Readable t.func index .i32) :
    Yields t P s (build (Build.getPtr t.func src index)) fun id m =>
      m.Readable t.func id (.ptr (.ofDims ds)) := by
  obtain ⟨fn, hf, -, -⟩ := h.func
  refine (h.emit hf (.getPtr hds hsrc hindex)
    (by rw [Build.getPtr_eq hf (h.takes hf), hsrc.tyOf_eq])).mono ?_
  rintro id s' ⟨hm, ha, hnew⟩
  exact ⟨hm, ha, hnew.readable fun v hn hv => by simp only [Value.IsReadable, hn]; exact hv⟩

theorem yields_getElemPtr {src index d : Nat} {ds : List Nat} (h : At t false P s)
    (hds : Shaped (d :: ds)) (hsrc : s.module.Readable t.func src (.ptr (.ofDims (d :: ds))))
    (hindex : s.module.Readable t.func index .i32) :
    Yields t P s (build (Build.getElemPtr t.func src index)) fun id m =>
      m.Readable t.func id (.ptr (.ofDims ds)) := by
  obtain ⟨fn, hf, -, -⟩ := h.func
  have hty : (s.module.tyOf src).elem.elem = .ofDims ds :=
    congrArg (fun ty : Ty => ty.elem.elem) hsrc.tyOf_eq
  refine (h.emit hf (.getElemPtr hds hsrc hindex)
    (by rw [Build.getElemPtr_eq hf (h.takes hf), hty])).mono ?_
  rintro id s' ⟨hm, ha, hnew⟩
  exact ⟨hm, ha, hnew.readable fun v hn hv => by simp only [Value.IsReadable, hn]; exact hv⟩

theorem yields_call {g : Nat} {callee : Func} {args : List ValueId} (h : At t false P s)
    (hg : s.module.func? g = some callee)
    (hargs : List.Forall₂ (s.module.Readable t.func) args callee.params) :
    Yields t P s (build (Build.call t.func g args)) fun id m =>
      m.Readable t.func id callee.ret := by
  obtain ⟨fn, hf, -, -⟩ := h.func
  refine (h.emit hf (.call hg hargs) (Build.call_eq hf (h.takes hf) hg args)).mono ?_
  rintro id s' ⟨hm, ha, hnew⟩
  exact ⟨hm, ha, hnew.readable fun v hn hv => by simp only [Value.IsReadable, hn]; exact hv⟩

theorem yields_alloc {ty : Ty} (h : At t false P s) (hty : ty.IsObject) (name : String) :
    Yields t P s (build (Build.alloc t.func ty name)) fun id m =>
      m.Readable t.func id (.ptr ty) := by
  obtain ⟨fn, hf, -, -⟩ := h.func
  let v : Value := { node := .alloc, ty := .ptr ty, name, func := t.func, block := fn.entry }
  obtain ⟨hm, ha⟩ := h.inst (v := v) hf rfl (.inr rfl) (.alloc rfl hty)
  have heq := Build.alloc_eq hf (h.entry_takes hf) ty name
  rw [← Module.close_eq_append _ rfl] at heq
  exact Gives.build heq ⟨hm, ha, v, by rw [Module.value?_close, if_pos rfl], rfl, rfl⟩

theorem gives_jump {bb : Nat} (h : At t false P s) (hbb : IsTarget s.module t.func bb) :
    Gives (build (Build.jump t.func bb)) s fun _ s' => Moves t s s' ∧ At t true P s' := by
  obtain ⟨fn, hf, hentry, hcur⟩ := h.func
  obtain ⟨fn', hf', h₁, h₂⟩ := hbb
  obtain rfl := Option.some.inj (hf.symm.trans hf')
  obtain ⟨hm, ha⟩ :=
    h.inst (v := { node := .jump bb, ty := .unit, func := t.func, block := fn.current })
    hf rfl (.inl rfl) (.leave (by rw [hentry]; exact hcur) (.jump h₁ h₂))
  exact Gives.build (Build.jump_eq hf (h.takes hf) bb) ⟨hm, ha⟩

theorem gives_branch {cond yes no : Nat} (h : At t false P s)
    (hcond : s.module.Readable t.func cond .i32) (hyes : IsTarget s.module t.func yes)
    (hno : IsTarget s.module t.func no) :
    Gives (build (Build.branch t.func cond yes no)) s fun _ s' =>
      Moves t s s' ∧ At t true P s' := by
  obtain ⟨fn, hf, hentry, hcur⟩ := h.func
  obtain ⟨fn₁, hf₁, hy₁, hy₂⟩ := hyes
  obtain ⟨fn₂, hf₂, hn₁, hn₂⟩ := hno
  obtain rfl := Option.some.inj (hf.symm.trans hf₁)
  obtain rfl := Option.some.inj (hf.symm.trans hf₂)
  obtain ⟨hm, ha⟩ := h.inst
    (v := { node := .branch cond yes no, ty := .unit, func := t.func, block := fn.current })
    hf rfl (.inl rfl) (.leave (by rw [hentry]; exact hcur) (.branch hcond hy₁ hy₂ hn₁ hn₂))
  exact Gives.build (Build.branch_eq hf (h.takes hf) cond yes no) ⟨hm, ha⟩

theorem gives_newBlock (h : At t e P s) {name : String} (hname : name ∈ bodyHints) :
    Gives (newBlock t name) s fun bb s' => Moves t s s' ∧ At t e (insert bb P) s' ∧ bb ∉ P ∧
    bb ≠ 2 := by
  obtain ⟨fn, hbody, hended, hP⟩ := h.body
  have hblocks := hbody.blocks
  have hbody' := hbody.label hname
  have hcode : (fn.addBlock name).2.code (fn.addBlock name).2.current = fn.code fn.current :=
    Func.code_addBlock _
  have hsize : (fn.addBlock name).2.blocks.size = fn.blocks.size + 1 := by simp [Func.addBlock]
  have hplaced : fn.blocks.size + 1 ∉ fn.layout.toList := fun hmem => by
    have := (hbody.bounds _ hmem).2
    lia
  have hP' (bb : Nat) : bb ∈ insert (fn.blocks.size + 1) P ↔
      0 < bb ∧ bb ≤ (fn.addBlock name).2.blocks.size ∧ bb ∉ (fn.addBlock name).2.layout.toList := by
    rw [Set.mem_insert_iff, hP, hsize]
    constructor
    · rintro (rfl | ⟨h₁, h₂, h₃⟩)
      · exact ⟨by lia, le_rfl, hplaced⟩
      · exact ⟨h₁, by lia, h₃⟩
    · rintro ⟨h₁, h₂, h₃⟩
      by_cases hbb : bb = fn.blocks.size + 1
      · exact .inl hbb
      · exact .inr ⟨h₁, by lia, h₃⟩
  have hstep : Step t.func s.module _ := .label hbody.found hname
  have hended' := (hbody.ended_eq hstep.extends fn.current).trans hended
  rw [← hcode] at hended'
  obtain ⟨hm, ha⟩ := h.next hstep hbody' hended' hP'
  refine Gives.build (Build.addBlock_eq hbody.found name) ⟨hm, ha, fun hmem => ?_, by lia⟩
  have := ((hP _).mp hmem).2.1
  lia

theorem startBlock_eq (t : Target) (bb : BlockId) (s : State) :
    startBlock t bb s = .ok ((), { s with module := s.module.modifyFunc t.func (·.start bb) }) := by
  have : startBlock t bb s = .ok ((), { s with module :=
      (s.module.modifyFunc t.func (·.place bb)).modifyFunc t.func fun fn =>
        { fn with current := bb } }) := rfl
  rw [this, Module.modifyFunc_modifyFunc]
  rfl

theorem gives_startBlock {bb : Nat} (h : At t true P s) (hbb : bb ∈ P) (hne : bb ≠ 2) :
    Gives (startBlock t bb) s fun _ s' => Moves t s s' ∧ At t false (P \ {bb}) s' := by
  obtain ⟨fn, hbody, hended, hP⟩ := h.body
  obtain ⟨h₁, h₂, h₃⟩ := (hP bb).mp hbb
  have hexit : bb ≠ fn.exit := by rw [hbody.exit]; exact hne
  have hbody' := hbody.start hended h₁ h₂ h₃ hexit
  have hstep : Step t.func s.module _ := .start hbody.found hended h₁ h₂ h₃ hexit
  have hlayout : (fn.start bb).layout.toList = fn.layout.toList ++ [bb] := by
    simp [Func.start, Func.place]
  have hP' (x : Nat) : x ∈ P \ {bb} ↔
      0 < x ∧ x ≤ (fn.start bb).blocks.size ∧ x ∉ (fn.start bb).layout.toList := by
    rw [Set.mem_sdiff, hP, hlayout, List.mem_append, Set.mem_singleton_iff,
      List.mem_singleton, not_or]
    simp only [and_assoc]
    rfl
  have hended' : (s.module.modifyFunc t.func (·.start bb)).Ended
    ((fn.start bb).code (fn.start bb).current) =
      false := by
    have hnil : (fn.start bb).code (fn.start bb).current = [] := hbody.empty bb h₃
    rw [hnil]
    rfl
  obtain ⟨hm, ha⟩ := h.next hstep hbody' hended' hP'
  rw [Gives, startBlock_eq]
  exact ⟨hm, ha⟩

theorem gives_openBlock {bb : Nat} (h : At t true (insert bb P) s) (hbb : bb ∉ P) (hne : bb ≠ 2) :
    Gives (startBlock t bb) s fun _ s' => Moves t s s' ∧ At t false P s' := by
  have hstart := gives_startBlock h (Set.mem_insert _ _) hne
  rwa [Set.insert_sdiff_self_of_notMem hbb] at hstart

/-- Two new blocks can be opened in either order. -/
theorem notMem_insert_swap {a b : Nat} (ha : a ∉ P) (hb : b ∉ insert a P) :
    a ∉ insert b P ∧ b ∉ P := by
  simp only [Set.mem_insert_iff, not_or] at hb ⊢
  exact ⟨⟨Ne.symm hb.1, ha⟩, hb.2⟩

end Sysy.Lowering
