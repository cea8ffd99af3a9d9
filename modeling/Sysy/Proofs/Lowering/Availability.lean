import Sysy.Proofs.Lowering.WellTyped

/-!
The values at hand. While a body is lowered, each block is given the set of values that are sure to
be computed when it is entered: those that were at hand when the block was made. An instruction uses
values of the entry, of its own block and of that set, and a jump goes to no block that asks for
more than there is.
-/

namespace Sysy

structure Scope.All {β : Type} (B : β → Prop) (scope : Scope β) : Prop where
  outer : ∀ p ∈ scope.outermost, B p.2
  inner : ∀ frame ∈ scope.inner, ∀ p ∈ frame.2, B p.2

namespace Scope.All
variable {β : Type} {B B' : β → Prop} {scope scope' : Scope β} {name : String} {b : β}

theorem mono (h : scope.All B) (hB : ∀ b, B b → B' b) : scope.All B' :=
  ⟨fun p hp => hB _ (h.outer p hp), fun fr hfr p hp => hB _ (h.inner fr hfr p hp)⟩

theorem resolve (h : scope.All B) (hr : scope.resolve name = .ok b) : B b := by
  rw [Scope.resolve] at hr
  split at hr
  · rename_i c hc
    obtain rfl : c = b := by simpa using hr
    rcases Option.or_eq_some_iff.mp hc with hin | ⟨-, hout⟩
    · obtain ⟨fr, hfr, hd⟩ := List.exists_of_findSome?_eq_some hin
      obtain ⟨_, _, hnames, -⟩ := List.lookup_eq_some_iff.mp hd
      exact h.inner fr hfr (name, c) (by simp [hnames])
    · obtain ⟨_, _, hnames, -⟩ := List.lookup_eq_some_iff.mp hout
      exact h.outer (name, c) (by simp [hnames])
  · cases hr

theorem define (h : scope.All B) (hb : B b) (hdef : scope.define name b = .ok scope') :
    scope'.All B := by
  rw [Scope.define] at hdef
  split at hdef
  · split at hdef
    · cases hdef
    · obtain rfl := Except.ok.inj hdef
      refine ⟨fun p hp => ?_, h.inner⟩
      rcases List.mem_cons.mp hp with rfl | hp
      · exact hb
      · exact h.outer p hp
  · rename_i kind names rest hcons
    split at hdef
    · cases hdef
    · obtain rfl := Except.ok.inj hdef
      have hinner := h.inner
      rw [hcons] at hinner
      refine ⟨h.outer, fun fr hfr p hp => ?_⟩
      rcases List.mem_cons.mp hfr with rfl | hfr
      · rcases List.mem_cons.mp hp with rfl | hp
        · exact hb
        · exact hinner _ (List.mem_cons_self ..) p hp
      · exact hinner fr (List.mem_cons_of_mem _ hfr) p hp

theorem enter (h : scope.All B) (kind : ScopeKind) : (scope.enter kind).All B := by
  refine ⟨h.outer, fun fr hfr p hp => ?_⟩
  rcases List.mem_cons.mp hfr with rfl | hfr
  · cases hp
  · exact h.inner fr hfr p hp

theorem exit (h : scope.All B) : scope.exit.All B :=
  ⟨h.outer, fun fr hfr => h.inner fr (List.mem_of_mem_tail hfr)⟩

end Scope.All

namespace Ir

def Node.isInst (k : Node) : Bool := isInstNumber k.kindNumber

theorem InstOk.operand {m : Module} {f bb : Nat} {fn : Func} {node : Node} {ty : Ty}
    (h : InstOk m f fn bb node ty) : ∀ x ∈ node.operands,
    (∃ ty, m.Readable f x ty) ∨ ∃ v i, m.value? x = some v ∧ v.node = .arg i ∧ v.func = f ∧
      bb = fn.entry ∧ ∃ dest, node = .store x dest ∧ m.Readable f dest (.ptr v.ty) := by
  intro x hx
  rcases h.operand_cases hx with ⟨ty, hread, -⟩ | ⟨v, i, hv, hnode, hfunc, hbb, -, -, hdest⟩
  · exact .inl ⟨ty, hread⟩
  · exact .inr ⟨v, i, hv, hnode, hfunc, hbb, hdest⟩

end Ir

namespace Lowering
open Ir

variable {α β : Type} {t : Target} {s s' s'' : State} {e : Bool} {P : Set Nat} {m m' : Module}
  {f : Nat} {fn : Func}
  {D D' D'' : BlockId → Set ValueId}

/-- The set `D bb` of values is computed whenever the block `bb` is entered. An instruction uses
values of the entry, of its own block, and of that set. -/
structure Dominated (m : Module) (fn : Func) (D : BlockId → Set ValueId) : Prop where
  entry : D 1 = ∅
  exit : D 2 = ∅
  use : ∀ bb, ∀ id ∈ fn.code bb, ∀ v, m.value? id = some v →
    ∀ x ∈ v.node.operands, ∃ w, m.value? x = some w ∧
    (w.node.isInst = true → x ∈ fn.code 1 ∨ x ∈ fn.code bb ∨ x ∈ D bb)
  edge : ∀ bb, ∀ id ∈ fn.code bb, ∀ v, m.value? id = some v →
    ∀ next ∈ v.node.successors, ∀ x ∈ D next,
    x ∈ fn.code bb ∨ x ∈ D bb

def Fixed (m : Module) (x : ValueId) : Prop :=
  ∃ v, m.value? x = some v ∧ (v.node = .alloc ∨ v.node.isInst = false)

theorem Fixed.extends {x : Nat} (h : Fixed m x) (he : Extends m m') : Fixed m' x := by
  obtain ⟨v, hv, hnode⟩ := h
  exact ⟨v, he.value hv, hnode⟩

def IsRooted (m : Module) : Binding → Prop
  | .var ptr _ => Fixed m ptr
  | _ => True

def Live (t : Target) (D : BlockId → Set ValueId) (s : State) : Set ValueId :=
  {x | ∃ fn, s.module.func? t.func = some fn ∧ (x ∈ fn.code fn.current ∨ x ∈ D fn.current)}

def Usable (t : Target) (D : BlockId → Set ValueId) (s : State) (x : ValueId) : Prop :=
  ∃ w, s.module.value? x = some w ∧ (w.node.isInst = true →
    (∃ fn, s.module.func? t.func = some fn ∧ x ∈ fn.code 1) ∨ x ∈ Live t D s)

/-- The body that is lowered uses only what it has computed. -/
structure Flow (t : Target) (D : BlockId → Set ValueId) (s : State) : Prop where
  dominated : ∀ fn, s.module.func? t.func = some fn → Dominated s.module fn D
  rooted : s.scope.All (IsRooted s.module)
  result : ∀ r, t.result = some r → Fixed s.module r

structure Drift (t : Target) (D : BlockId → Set ValueId) (s : State) (D' : BlockId → Set ValueId)
    (s' : State) : Prop where
  grown : Extends s.module s'.module
  keep : ∀ bb, IsTarget s.module t.func bb → D' bb = D bb

structure Past (t : Target) (D : BlockId → Set ValueId) (s : State) (D' : BlockId → Set ValueId)
    (s' : State) : Prop extends Drift t D s D' s' where
  live : Live t D s ⊆ Live t D' s'

theorem Drift.trans (h : Drift t D s D' s') (h' : Drift t D' s' D'' s'') : Drift t D s D'' s'' :=
  ⟨h.grown.trans h'.grown, fun bb hbb => (h'.keep bb (hbb.extends h.grown)).trans (h.keep bb hbb)⟩

theorem Past.refl (t : Target) (D : BlockId → Set ValueId) (s : State) : Past t D s D s :=
  ⟨⟨.refl _, fun _ _ => rfl⟩, subset_rfl⟩

theorem Past.trans (h : Past t D s D' s') (h' : Past t D' s' D'' s'') : Past t D s D'' s'' :=
  ⟨h.toDrift.trans h'.toDrift, h.live.trans h'.live⟩

theorem Usable.past {x : Nat} (h : Usable t D s x) (hp : Past t D s D' s') : Usable t D' s' x := by
  obtain ⟨w, hw, hinst⟩ := h
  refine ⟨w, hp.grown.value hw, fun hi => ?_⟩
  rcases hinst hi with ⟨fn, hf, hx⟩ | hx
  · obtain ⟨fn', hf', hb⟩ := hp.grown.func hf
    exact .inl ⟨fn', hf', (hb.code 1).subset hx⟩
  · exact .inr (hp.live hx)

theorem Usable.of_not_inst {x : Nat} {w : Value} (hw : s.module.value? x = some w)
    (hi : w.node.isInst = false) :
    Usable t D s x := ⟨w, hw, fun h => by rw [hi] at h; cases h⟩

theorem Coded.entry_of_alloc {x : Nat} {v : Value} (h : Coded m f fn) (hv : m.value? x = some v)
    (hread : v.IsReadable f) (halloc : v.node = .alloc) : x ∈ fn.code 1 := by
  have hfunc : v.func = f := by simpa only [Value.IsReadable, halloc] using hread
  have hmem := h.own x v hv hfunc (by simp [halloc])
  obtain ⟨u, hu, -, -, hok⟩ := h.inst _ x hmem
  obtain rfl := Option.some.inj (hv.symm.trans hu)
  rw [halloc] at hok
  rwa [hok.block_of_alloc, h.entry] at hmem

theorem Usable.of_fixed {x : Nat} {ty : Ty} (h : At t e P s) (hr : s.module.Readable t.func x ty)
    (hx : Fixed s.module x) : Usable t D s x := by
  obtain ⟨w, hw, hnode⟩ := hx
  obtain ⟨w', hw', -, hread⟩ := hr
  obtain rfl := Option.some.inj (hw.symm.trans hw')
  rcases hnode with halloc | hnot
  · obtain ⟨fn, hbody, -⟩ := h.body
    exact ⟨w, hw, fun _ => .inl ⟨fn, hbody.found, hbody.entry_of_alloc hw hread halloc⟩⟩
  · exact .of_not_inst hw hnot

/-! What the steps of lowering a body keep. -/

theorem Dominated.extends (h : Dominated m fn D) (hc : Coded m f fn) (he : Extends m m') :
    Dominated m' fn D := by
  have hold : ∀ bb, ∀ id ∈ fn.code bb, ∀ v, m'.value? id = some v → m.value? id = some v := by
    intro bb id hid v hv
    obtain ⟨w, hw⟩ := hc.defined hid
    rwa [hw, ← he.value hw]
  refine ⟨h.entry, h.exit, fun bb id hid v hv x hx => ?_, fun bb id hid v hv => h.edge bb id hid v
    (hold bb id hid v hv)⟩
  obtain ⟨w, hw, hinst⟩ := h.use bb id hid v (hold bb id hid v hv) x hx
  exact ⟨w, he.value hw, hinst⟩

/-- Code that only gets longer keeps its uses and jumps; new code has to be looked at. -/
theorem Dominated.grow {fn' : Func} (h : Dominated m fn D) (hcode : ∀ bb, fn.code bb ⊆ fn'.code bb)
    (hnew : ∀ bb, ∀ id ∈ fn'.code bb, id ∉ fn.code bb → ∀ v, m.value? id = some v →
      (∀ x ∈ v.node.operands, ∃ w, m.value? x = some w ∧ (w.node.isInst = true → x ∈ fn'.code 1 ∨
        x ∈ fn'.code bb ∨ x ∈ D bb)) ∧ ∀ next ∈ v.node.successors, ∀ x ∈ D next, x ∈ fn'.code bb ∨
          x ∈ D bb) : Dominated m fn' D := by
  refine ⟨h.entry, h.exit, fun bb id hid v hv x hx => ?_, fun bb id hid v hv next hnext x hx => ?_⟩
  · by_cases hold : id ∈ fn.code bb
    · obtain ⟨w, hw, hinst⟩ := h.use bb id hold v hv x hx
      refine ⟨w, hw, fun hi => ?_⟩
      rcases hinst hi with h₁ | h₂ | h₃
      · exact .inl (hcode 1 h₁)
      · exact .inr (.inl (hcode bb h₂))
      · exact .inr (.inr h₃)
    · exact (hnew bb id hid hold v hv).1 x hx
  · by_cases hold : id ∈ fn.code bb
    · exact (h.edge bb id hold v hv next hnext x hx).imp_left fun hmem => hcode bb hmem
    · exact (hnew bb id hid hold v hv).2 next hnext x hx

theorem Dominated.close {v : Value} (h : Dominated m fn D) (hc : Coded m f fn)
    (htakes : Build.Takes m f v.block)
    (huse : ∀ x ∈ v.node.operands, ∃ w, m.value? x = some w ∧
      (w.node.isInst = true → x ∈ fn.code 1 ∨ x ∈ fn.code v.block ∨ x ∈ D v.block))
    (hedge : ∀ next ∈ v.node.successors, ∀ x ∈ D next, x ∈ fn.code v.block ∨ x ∈ D v.block) :
    Dominated (m.close f v) ((fn.push v.block (m.values.size + 1)).record v.node.successors
      (m.values.size + 1)) D := by
  have hcode (x : Nat) := Coded.code_close (m.values.size + 1) htakes hc.found x
  have he : Extends m (m.close f v) := by
    obtain ⟨fn', b, hf', hb, -⟩ := htakes
    exact Extends.close hf' hb
  have hsub : ∀ bb, fn.code bb ⊆
      ((fn.push v.block (m.values.size + 1)).record v.node.successors (m.values.size + 1)).code
        bb := by
    intro bb x hx
    rw [hcode]
    split
    · exact List.mem_append_left _ hx
    · exact hx
  refine (h.extends hc he).grow hsub fun bb id hid hnot w hw => ?_
  rw [hcode] at hid
  split at hid
  · rename_i hbb
    subst hbb
    obtain rfl : id = m.values.size + 1 := by
      rcases List.mem_append.mp hid with hold | hlast
      · exact absurd hold hnot
      · exact List.mem_singleton.mp hlast
    rw [Module.value?_close, if_pos rfl] at hw
    obtain rfl := Option.some.inj hw
    refine ⟨fun x hx => ?_, fun next hnext x hx => ?_⟩
    · obtain ⟨w, hw, hinst⟩ := huse x hx
      refine ⟨w, he.value hw, fun hi => ?_⟩
      rcases hinst hi with h₁ | h₂ | h₃
      · exact .inl (hsub _ h₁)
      · exact .inr (.inl (hsub _ h₂))
      · exact .inr (.inr h₃)
    · exact (hedge next hnext x hx).imp_left fun hmem => hsub _ hmem
  · exact absurd hid hnot

theorem Dominated.label (h : Dominated m fn D) (hc : Coded m f fn) (name : String)
    (S : Set ValueId) :
    Dominated m (fn.addBlock name).2 (Function.update D (fn.blocks.size + 1) S) := by
  have hblocks := hc.blocks
  have hnew : fn.code (fn.blocks.size + 1) = [] := hc.empty _ fun hmem => by
    have := (hc.bounds _ hmem).2
    lia
  have hne : ∀ bb, ∀ id ∈ fn.code bb, bb ≠ fn.blocks.size + 1 := by
    rintro bb id hid rfl
    rw [hnew] at hid
    cases hid
  refine ⟨?_, ?_, fun bb id hid v hv x hx => ?_, fun bb id hid v hv next hnext x hx => ?_⟩
  · rw [Function.update_of_ne (by lia), h.entry]
  · rw [Function.update_of_ne (by lia), h.exit]
  · simp only [Func.code_addBlock] at hid ⊢
    rw [Function.update_of_ne (hne bb id hid)]
    exact h.use bb id hid v hv x hx
  · simp only [Func.code_addBlock] at hid ⊢
    obtain ⟨v', hv', -, -, hok⟩ := hc.inst bb id hid
    obtain rfl := Option.some.inj (hv.symm.trans hv')
    have hle := (hok.successors next hnext).2
    rw [Function.update_of_ne (by lia)] at hx
    rw [Function.update_of_ne (hne bb id hid)]
    exact h.edge bb id hid v hv next hnext x hx

theorem Flow.rooted_of {s' : State} (h : Flow t D s) (he : Extends s.module s'.module)
    (hs : s'.scope = s.scope) :
    s'.scope.All (IsRooted s'.module) ∧ ∀ r, t.result = some r → Fixed s'.module r := by
  refine ⟨hs ▸ h.rooted.mono fun b hb => ?_, fun r hr => (h.result r hr).extends he⟩
  cases b with
  | var ptr _ => exact Fixed.extends hb he
  | const _ | func _ => trivial

def Flows (t : Target) (D : BlockId → Set ValueId) (s : State) (x : Lower α)
    (R : α → (BlockId → Set ValueId) → State → Prop) : Prop :=
  Gives x s fun a s' => ∃ D', Flow t D' s' ∧ Past t D s D' s' ∧ R a D' s'

namespace Flows
variable {x : Lower α} {k : α → Lower β} {Q : α → State → Prop} {R : α → (BlockId → Set ValueId) →
  State → Prop}
  {R' : β → (BlockId → Set ValueId) → State → Prop}

theorem bind (hq : Gives x s Q) (hx : Flows t D s x R)
    (hk : ∀ a s' D', Q a s' → Flow t D' s' → Past t D s D' s' → R a D' s' →
      Flows t D' s' (k a) R') : Flows t D s (x >>= k) R' := by
  refine Gives.bind (hq.and hx) ?_
  rintro a s' ⟨hQ, D', hf, hp, hR⟩
  refine (hk a s' D' hQ hf hp hR).mono ?_
  rintro b s'' ⟨D'', hf', hp', hR'⟩
  exact ⟨D'', hf', hp.trans hp', hR'⟩

theorem next (hx : Flows t D s x R)
    (hk : ∀ a s' D', Flow t D' s' → Past t D s D' s' → R a D' s' → Flows t D' s' (k a) R') :
    Flows t D s (x >>= k) R' := bind hx hx fun a s' D' _ => hk a s' D'

theorem pure {a : α} (h : Flow t D s) (hR : R a D s) : Flows t D s (pure a) R :=
  Gives.pure ⟨D, h, .refl t D s, hR⟩

theorem reject {e : LoweringError} : Flows t D s (reject e : Lower α) R := Gives.reject

theorem get_bind {k : State → Lower β} (h : Flows t D s (k s) R') : Flows t D s (get >>= k) R' := h

theorem mono {R' : α → (BlockId → Set ValueId) → State → Prop} (h : Flows t D s x R)
    (hR : ∀ a D s, R a D s → R' a D s) : Flows t D s x R' :=
  Gives.mono h fun _ _ ⟨D', hf, hp, hr⟩ => ⟨D', hf, hp, hR _ _ _ hr⟩

end Flows

theorem Flow.module (h : Flow t D s) {m' : Module} (he : Extends s.module m')
    (hd : ∀ fn, m'.func? t.func = some fn → Dominated m' fn D') :
    Flow t D' { s with module := m' } := by
  obtain ⟨hrooted, hresult⟩ := h.rooted_of he (show (State.mk m' s.scope).scope = s.scope from rfl)
  exact ⟨hd, hrooted, hresult⟩

theorem flows_integer (h : At t false P s) (hf : Flow t D s) (w : Word) :
    Flows t D s (build (Build.integer w)) fun id D s => Usable t D s id := by
  obtain ⟨fn, hbody, -⟩ := h.body
  refine Gives.build (Build.integer_eq _ w) ⟨D, hf.module (Extends.add _ _) fun fn' hf' => ?_,
    ?_, ?_⟩
  · obtain rfl := Option.some.inj (hbody.found.symm.trans hf')
    exact (hf.dominated fn hbody.found).extends hbody.toCoded (Extends.add _ _)
  · exact ⟨⟨Extends.add _ _, fun _ _ => rfl⟩, fun x hx => hx⟩
  · exact .of_not_inst (by rw [Module.value?_add, if_pos rfl]) rfl

/-- An instruction whose operands can be used is added to the current block, or a local to the
entry. -/
theorem Flow.inst {v : Value} (h : At t false P s) (hf : Flow t D s)
    (hfn : s.module.func? t.func = some fn) (htakes : Build.Takes s.module t.func v.block)
    (hblock : v.block = fn.current ∨ v.node = .alloc ∧ v.block = 1)
    (huse : ∀ x ∈ v.node.operands, Usable t D s x)
    (hedge : ∀ next ∈ v.node.successors, D next ⊆ Live t D s) :
    Flow t D { s with module := s.module.close t.func v } ∧
      Past t D s D { s with module := s.module.close t.func v } ∧
      (v.block = fn.current → s.module.values.size + 1 ∈ Live t D
        { s with module := s.module.close t.func v }) := by
  obtain ⟨fn', hbody, -⟩ := h.body
  obtain rfl := Option.some.inj (hbody.found.symm.trans hfn)
  have hcode (x : Nat) :=
    Coded.code_close (m := s.module) (f := t.func) (v := v) (s.module.values.size + 1) htakes
    hbody.found x
  have he : Extends s.module (s.module.close t.func v) := by
    obtain ⟨_, b, hf', hb, -⟩ := htakes
    exact Extends.close hf' hb
  have hfound : (s.module.close t.func v).func? t.func =
    some ((fn'.push v.block (s.module.values.size + 1)).record
      v.node.successors (s.module.values.size + 1)) :=
        by rw [Module.func?_close _ _ hfn, if_pos rfl]
  have hlive : ∀ x, x ∈ Live t D s → x ∈ fn'.code fn'.current ∨ x ∈ D fn'.current := by
    rintro x ⟨fn₁, hf₁, hx⟩
    obtain rfl := Option.some.inj (hfn.symm.trans hf₁)
    exact hx
  -- a local has no operands and goes nowhere, so it may come behind code that is in the entry
  -- already
  refine ⟨hf.module he fun fn₁ hf₁ => ?_, ⟨⟨he, fun _ _ => rfl⟩, fun x hx => ?_⟩, fun hcur => ?_⟩
  · obtain rfl := Option.some.inj (hfound.symm.trans hf₁)
    refine (hf.dominated fn' hfn).close hbody.toCoded htakes (fun x hx => ?_)
      fun next hnext x hx => ?_
    · obtain ⟨w, hw, hinst⟩ := huse x hx
      refine ⟨w, hw, fun hi => ?_⟩
      rcases hblock with hcur | ⟨halloc, -⟩
      · rw [hcur]
        rcases hinst hi with ⟨fn₁, hf₁, hmem⟩ | hmem
        · obtain rfl := Option.some.inj (hfn.symm.trans hf₁)
          exact .inl hmem
        · exact .inr (hlive x hmem)
      · rw [halloc] at hx
        simp [Node.operands] at hx
    · rcases hblock with hcur | ⟨halloc, -⟩
      · rw [hcur]
        exact hlive x (hedge next hnext hx)
      · rw [halloc] at hnext
        cases hnext
  · refine ⟨_, hfound, ?_⟩
    rw [hcode]
    refine (hlive x hx).imp_left fun hmem => ?_
    change x ∈ if fn'.current = v.block then _ else _
    split
    · exact List.mem_append_left _ hmem
    · exact hmem
  · refine ⟨_, hfound, .inl ?_⟩
    rw [hcode]
    change _ ∈ if fn'.current = v.block then _ else _
    rw [if_pos hcur.symm]
    exact List.mem_append_right _ (List.mem_singleton.mpr rfl)

theorem flows_emit (h : At t false P s) (hf : Flow t D s) {node : Node} {ty : Ty}
    {x : Build ValueId} (huse : ∀ y ∈ node.operands, Usable t D s y) (hnone : node.successors = [])
    (hx : ∀ fn, s.module.func? t.func = some fn → Build.Takes s.module t.func fn.current →
      x s.module = .ok (s.module.values.size + 1,
        s.module.append t.func { node, ty, func := t.func, block := fn.current })) :
    Flows t D s (build x) fun id D s => Usable t D s id := by
  obtain ⟨fn, hfn, -, -⟩ := h.func
  have hrun := hx fn hfn (h.takes hfn)
  rw [← Module.close_eq_append _ hnone] at hrun
  obtain ⟨hf', hp, hlive⟩ :=
    Flow.inst (v := { node, ty, func := t.func, block := fn.current }) h hf hfn (h.takes hfn)
    (.inl rfl) huse (by simp [hnone])
  exact Gives.build hrun ⟨D, hf', hp, _, by
    rw [Module.value?_close, if_pos rfl], fun _ => .inr (hlive rfl)⟩

theorem flows_load {src : Nat} (h : At t false P s) (hf : Flow t D s) (hsrc : Usable t D s src) :
    Flows t D s (build (Build.load t.func src)) fun id D s => Usable t D s id :=
  flows_emit h hf (by simp +contextual [Node.operands, hsrc]) rfl fun _ hfn htakes =>
    Build.load_eq hfn htakes src

theorem flows_store {val dest : Nat} (h : At t false P s) (hf : Flow t D s)
    (hval : Usable t D s val) (hdest : Usable t D s dest) :
    Flows t D s (build (Build.store t.func val dest)) fun _ _ _ => True :=
  (flows_emit h hf (by simp +contextual [Node.operands, hval, hdest]) rfl
    fun _ hfn htakes => Build.emit_eq hfn htakes (.store val dest) .unit).mono fun _ _ _ _ =>
      trivial

theorem flows_binary {op : Arith} {lhs rhs : Nat} (h : At t false P s) (hf : Flow t D s)
    (hlhs : Usable t D s lhs) (hrhs : Usable t D s rhs) :
    Flows t D s (build (Build.binary t.func op lhs rhs)) fun id D s => Usable t D s id :=
  flows_emit h hf (by simp +contextual [Node.operands, hlhs, hrhs]) rfl
    fun _ hfn htakes => Build.emit_eq hfn htakes (.binary op lhs rhs) .i32

theorem flows_stride (d : Stride) {src index : Nat} (h : At t false P s) (hf : Flow t D s)
    (hsrc : Usable t D s src) (hindex : Usable t D s index) :
    Flows t D s (build (d.build t.func src index)) fun id D s => Usable t D s id := by
  cases d with
  | whole =>
    exact flows_emit h hf (by simp +contextual [Node.operands, hsrc, hindex]) rfl
      fun _ hfn htakes => Build.getPtr_eq hfn htakes src index
  | element =>
    exact flows_emit h hf (by simp +contextual [Node.operands, hsrc, hindex]) rfl
      fun _ hfn htakes => Build.getElemPtr_eq hfn htakes src index

theorem flows_call {g : Nat} {callee : Func} {args : List ValueId} (h : At t false P s)
    (hf : Flow t D s) (hg : s.module.func? g = some callee) (hargs : ∀ x ∈ args, Usable t D s x) :
    Flows t D s (build (Build.call t.func g args)) fun id D s => Usable t D s id :=
  flows_emit h hf (by simp +contextual [Node.operands, hargs]) rfl
    fun _ hfn htakes => Build.call_eq hfn htakes hg args

theorem flows_alloc (h : At t false P s) (hf : Flow t D s) (ty : Ty) (name : String) :
    Flows t D s (build (Build.alloc t.func ty name)) fun id _ s => Fixed s.module id := by
  obtain ⟨fn, hfn, hentry, -⟩ := h.func
  have hrun := Build.alloc_eq hfn (h.entry_takes hfn) ty name
  rw [← Module.close_eq_append _ rfl] at hrun
  obtain ⟨hf', hp, -⟩ :=
    Flow.inst (v := { node := .alloc, ty := .ptr ty, name, func := t.func, block := fn.entry }) h hf
    hfn (h.entry_takes hfn) (.inr ⟨rfl, hentry⟩) (by simp [Node.operands]) (by
      simp [Node.successors])
  exact Gives.build hrun ⟨D, hf', hp, _, by rw [Module.value?_close, if_pos rfl], .inl rfl⟩

theorem flows_jump {bb : Nat} (h : At t false P s) (hf : Flow t D s) (hbb : D bb ⊆ Live t D s) :
    Gives (build (Build.jump t.func bb)) s fun _ s' => Flow t D s' ∧ Past t D s D s' := by
  obtain ⟨fn, hfn, -, -⟩ := h.func
  obtain ⟨hf', hp, -⟩ :=
    Flow.inst (v := { node := .jump bb, ty := .unit, func := t.func, block := fn.current }) h hf hfn
    (h.takes hfn) (.inl rfl) (by simp [Node.operands]) (by simpa [Node.successors] using hbb)
  exact Gives.build (Build.jump_eq hfn (h.takes hfn) bb) ⟨hf', hp⟩

theorem flows_branch {cond yes no : Nat} (h : At t false P s) (hf : Flow t D s)
    (hcond : Usable t D s cond) (hyes : D yes ⊆ Live t D s) (hno : D no ⊆ Live t D s) :
    Gives (build (Build.branch t.func cond yes no)) s fun _ s' =>
      Flow t D s' ∧ Past t D s D s' := by
  obtain ⟨fn, hfn, -, -⟩ := h.func
  obtain ⟨hf', hp, -⟩ := Flow.inst
    (v := { node := .branch cond yes no, ty := .unit, func := t.func, block := fn.current }) h hf
      hfn (h.takes hfn)
    (.inl rfl) (by simp +contextual [Node.operands, hcond]) (by simp [Node.successors, hyes, hno])
  exact Gives.build (Build.branch_eq hfn (h.takes hfn) cond yes no) ⟨hf', hp⟩

theorem flows_newBlock (h : At t e P s) (hf : Flow t D s) (name : String) :
    Gives (newBlock t name) s fun bb s' => ∃ D', Flow t D' s' ∧ Past t D s D' s' ∧
      D' bb = Live t D s ∧ Live t D' s' = Live t D s := by
  obtain ⟨fn, hbody, -⟩ := h.body
  have hbefore : fn.Before (fn.addBlock name).2 := Func.before_addBlock name
  have he : Extends s.module _ :=
    Extends.modifyFunc hbody.found (fun fn => (fn.addBlock name).2) hbefore
  have hfound : (s.module.modifyFunc t.func fun fn => (fn.addBlock name).2).func? t.func =
    some (fn.addBlock name).2 := by
    rw [Module.func?_modifyFunc _ _ (Module.bounds_of_func? hbody.found).1, if_pos rfl, hbody.found]
    rfl
  have hcur := (hbody.bounds _ hbody.current).2
  have hlive : Live t (Function.update D (fn.blocks.size + 1) (Live t D s))
      { s with module := s.module.modifyFunc t.func fun fn => (fn.addBlock name).2 } =
        Live t D s := by
    ext x
    constructor
    · rintro ⟨fn₁, hf₁, hx⟩
      obtain rfl := Option.some.inj (hfound.symm.trans hf₁)
      refine ⟨fn, hbody.found, ?_⟩
      rw [Func.code_addBlock, Function.update_of_ne (by simp only [Func.addBlock]; lia)] at hx
      exact hx
    · rintro ⟨fn₁, hf₁, hx⟩
      obtain rfl := Option.some.inj (hbody.found.symm.trans hf₁)
      refine ⟨_, hfound, ?_⟩
      rw [Func.code_addBlock, Function.update_of_ne (by simp only [Func.addBlock]; lia)]
      exact hx
  refine Gives.build (Build.addBlock_eq hbody.found name) ⟨_, hf.module he fun fn₁ hf₁ => ?_,
    ⟨⟨he, fun bb hbb => ?_⟩, hlive.symm.subset⟩, Function.update_self .., hlive⟩
  · obtain rfl := Option.some.inj (hfound.symm.trans hf₁)
    have hd := (hf.dominated fn hbody.found).label hbody.toCoded name (Live t D s)
    exact ⟨hd.entry, hd.exit, hd.use, hd.edge⟩
  · obtain ⟨fn₁, hf₁, -, hle⟩ := hbb
    obtain rfl := Option.some.inj (hbody.found.symm.trans hf₁)
    exact Function.update_of_ne (by lia) ..

theorem flows_startBlock (h : At t e P s) (hf : Flow t D s) (bb : BlockId) :
    Gives (startBlock t bb) s fun _ s' => Flow t D s' ∧ Drift t D s D s' ∧ D bb ⊆ Live t D s' := by
  obtain ⟨fn, hbody, -⟩ := h.body
  have he : Extends s.module _ := Extends.modifyFunc hbody.found (·.start bb) Func.before_start
  have hfound : (s.module.modifyFunc t.func (·.start bb)).func? t.func = some (fn.start bb) := by
    rw [Module.func?_modifyFunc _ _ (Module.bounds_of_func? hbody.found).1, if_pos rfl, hbody.found]
    rfl
  rw [Gives, startBlock_eq]
  refine ⟨hf.module he fun fn₁ hf₁ => ?_, ⟨he, fun _ _ => rfl⟩, fun x hx => ⟨_, hfound, .inr hx⟩⟩
  obtain rfl := Option.some.inj (hfound.symm.trans hf₁)
  have hd := hf.dominated fn hbody.found
  exact ⟨hd.entry, hd.exit, hd.use, hd.edge⟩

end Lowering

end Sysy
