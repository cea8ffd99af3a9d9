import Sysy.Proofs.Constancy.Declarations

/-!
Constant arrays outside functions. Behind the declaration every item leaves the array alone: another
global has storage of its own, and a function copies its arguments into new locals before it goes on
with its body.
-/

namespace Sysy.Lowering
open Ir

variable {t : Target} {s s' s₀ s₁ s₂ s₃ : State} {m : Module} {f : FuncId} {fn : Func}
  {x id : ValueId} {d : FuncDef}
  {bb : BlockId}

theorem of_insert {node : Node} {ty : Ty} {name : String} {y : Build ValueId}
    (hrun : build y s = .ok (id, s')) (hy : y s.module = Build.insert f bb node ty name s.module) :
    s'.scope = s.scope ∧ Extends s.module s'.module ∧ id = s.module.values.size + 1 ∧
      s'.module.values.size = s.module.values.size + 1 ∧ s'.module.node? id = some node := by
  obtain ⟨hbuild, hscope⟩ := build_ok.mp hrun
  obtain ⟨⟨fn, b, hf, hb, -⟩, rfl, hm⟩ := Build.insert_ok.mp (hy.symm.trans hbuild)
  rw [hm]
  exact ⟨hscope, Extends.append (v := { node, ty, name, func := f, block := bb }) hf hb, rfl,
    Module.size_values_append ..,
    Module.node?_eq ((Module.value?_append ..).trans (if_pos rfl))⟩

theorem shields_lowerParams (ps : List (Param × Ty × ValueId)) :
    ∀ {s : State}, lowerParams f ps s = .ok ((), s') →
    Extends s.module s'.module ∧ (Extends s'.module m → x ≤ s.module.values.size →
      Guarded m x s.scope → Shields m x s s') := by
  induction ps with
  | nil =>
    intro s hrun
    obtain ⟨-, rfl⟩ := pure_ok.mp hrun
    exact ⟨.refl _, fun _ _ hg => ⟨.of_size rfl, hg⟩⟩
  | cons p ps ih =>
    intro s hrun
    obtain ⟨p, ty, arg⟩ := p
    rw [lowerParams] at hrun
    obtain ⟨slot, s₁, halloc, hrun⟩ := bind_ok.mp hrun
    obtain ⟨copy, s₂, hstore, hrun⟩ := bind_ok.mp hrun
    obtain ⟨⟨⟩, s₃, hdefine, hrun⟩ := bind_ok.mp hrun
    obtain ⟨hscope₁, he₁, hslot, hsize₁, hnode₁⟩ := of_insert halloc rfl
    obtain ⟨hscope₂, he₂, hcopy, hsize₂, hnode₂⟩ := of_insert hstore
      (show _ = Build.insert f _ (.store arg slot) .unit "" s₁.module from rfl)
    obtain ⟨scope, hdef, rfl⟩ := define_ok.mp hdefine
    obtain ⟨he₃, hrest⟩ := ih hrun
    refine ⟨(he₁.trans he₂).trans he₃, fun he hle hg => ?_⟩
    have halloc : m.node? slot = some .alloc := (he₂.trans (he₃.trans he)).node_eq hnode₁
    have hnew : ¬ m.Rooted x slot := not_rooted_of_storage hle (by lia) (.inl halloc)
    have hg₃ : Guarded m x scope := by
      rw [hscope₂, hscope₁] at hdef
      refine hg.define ?_ hdef
      rintro a ⟨⟩
      exact hnew
    have hfirst : Spares m x s { s₂ with scope } := by
      intro id val dest hlt hid hnode
      change id ≤ s₂.module.values.size at hid
      obtain rfl | rfl : id = slot ∨ id = copy := by lia
      · cases halloc.symm.trans hnode
      · cases ((he₃.trans he).node_eq hnode₂).symm.trans hnode
        exact hnew
    have hshields := hrest he (hle.trans (he₁.trans he₂).size_values) hg₃
    exact ⟨hfirst.trans hshields.spares, hshields.guarded⟩

theorem exists_withGlobal {isConst : Bool} {v : VarDef} (h : Ready s)
    (hscalar : (isConst && v.dims.isEmpty) = false)
    (hrun : lowerGlobal isConst v s = .ok ((), s')) :
    ∃ init s₁, globalInit v s = .ok (init, s₁) ∧ Touches 0 s.module s₁.module ∧
      s'.module = withGlobal s₁.module { node := .global init, ty := .ptr (s₁.module.tyOf init),
                                         name := "@" ++ v.name } ∧
      s.scope.define v.name (.var (s₁.module.values.size + 1) isConst) = .ok s'.scope := by
  rw [lowerGlobal, if_neg (by simp [hscalar])] at hrun
  obtain ⟨init, s₁, hinit, hrun⟩ := bind_ok.mp hrun
  obtain ⟨ptr, s₂, hglobal, hdefine⟩ := bind_ok.mp hrun
  obtain ⟨scope, hdef, rfl⟩ := define_ok.mp hdefine
  obtain ⟨hscope, ht, -⟩ := (gives_globalInit h.sound.linked v).ok hinit
  obtain ⟨rfl, rfl⟩ := eq_of_build hglobal rfl
  exact ⟨init, s₁, hinit, ht, rfl, hscope ▸ hdef⟩

theorem newStorage_lowerGlobal {isConst : Bool} {v : VarDef} (h : Ready s)
    (hscalar : (isConst && v.dims.isEmpty) = false) (hrun : lowerGlobal isConst v s = .ok ((), s'))
    (he : Extends s'.module m) : ∃ x, NewStorage m isConst v.name x s s' := by
  obtain ⟨init, s₁, -, ht, hm, hdef⟩ := exists_withGlobal h hscalar hrun
  have hvalue := value?_withGlobal s₁.module
    { node := .global init, ty := .ptr (s₁.module.tyOf init), name := "@" ++ v.name }
  rw [← hm] at hvalue
  have hle := ht.grown.size_values
  exact ⟨_, hdef, by
    lia, (Module.bounds_of_value? hvalue).2, .inr ⟨init, he.node_eq (Module.node?_eq hvalue)⟩⟩

theorem binds_lowerGlobal {isConst : Bool} {v : VarDef} (h : Ready s)
    (hrun : lowerGlobal isConst v s = .ok ((), s')) (he : Extends s'.module m) :
    Binds m isConst v.name s s' := by
  cases hscalar : isConst && v.dims.isEmpty with
  | false =>
    obtain ⟨x, hnew⟩ := newStorage_lowerGlobal h hscalar hrun he
    exact hnew.binds
  | true =>
    unfold lowerGlobal at hrun
    rw [if_pos hscalar] at hrun
    exact binds_defineConst hrun

section
variable {val dest : ValueId}

theorem Opens.lt_of_store {params : List Ty} {args : List ValueId} (h : Opens s d params args t s')
    (he : Extends s'.module m) (hown : ∃ v, m.value? id = some v ∧ v.func = t.func)
    (hnode : m.node? id = some (.store val dest)) :
    s'.module.values.size < id := by
  obtain ⟨v, hv, hfunc⟩ := hown
  by_contra hle
  obtain ⟨w, hw⟩ := Module.exists_value? (Module.bounds_of_value? hv).1 (not_lt.mp hle)
  obtain rfl := Option.some.inj ((he.value hw).symm.trans hv)
  have hstore : w.node = .store val dest := Option.some.inj ((Module.node?_eq hv).symm.trans hnode)
  obtain ⟨fn, hc, -, -, -, -, hempty, -⟩ := h.entering.code
  have hid := hc.own id w hw hfunc (by simp [hstore])
  -- all code so far is in the entry, and makes room for the result
  by_cases hblock : w.block = 1
  · obtain ⟨fn', hf', hcode⟩ := h.entry
    obtain rfl := Option.some.inj (hc.found.symm.trans hf')
    rw [hblock, hcode, Option.mem_toList] at hid
    obtain ⟨w', hw', halloc, -⟩ := h.alloc id hid
    obtain rfl := Option.some.inj (hw.symm.trans hw')
    cases hstore.symm.trans halloc
  · rw [hempty _ hblock] at hid
    cases hid

theorem Lowered.clean (h : Lowered m fn d t s₀ s₁ s₂ s₃) (hx : m.IsStorage x)
    (hle : x ≤ s₀.module.values.size) (hg : Guarded m x s₀.scope) (hid : id ∈ fn.code bb)
    (hnode : m.node? id = some (.store val dest)) : ¬ m.Rooted x dest := by
  obtain ⟨fn₂, -, -, -, -, he₃⟩ := h.completes
  have he₂ := he₃.trans h.grown
  have hp₂ := ((lasts_lowerStmts h.begins.here h.within.targets d.body).ok h.body).1
  have he₁ := hp₂.grows.extends.trans he₂
  obtain ⟨params, args, s, s', hopens, hparams, hset⟩ := h.begins.copies
  -- the parameters are copied from `s` to `s'`, and the body begins in `s₁`
  obtain ⟨heₚ, hcopied⟩ := shields_lowerParams (x := x) (m := m) _ hparams
  obtain ⟨fnₛ, hcₛ, -⟩ := hopens.entering.code
  obtain ⟨fnₚ, hfₚ, -⟩ := heₚ.func hcₛ.found
  obtain rfl : { s' with module := s'.module.modifyFunc t.func fun fn => { fn with current := 3 } }
    = s₁ :=
    (Prod.mk.inj (Except.ok.inj hset)).2
  have he' : Extends s'.module m :=
    Extends.trans (.modifyFunc hfₚ (fun fn => { fn with current := 3 })
    ⟨rfl, rfl, rfl, rfl, rfl, rfl, rfl, le_rfl, fun _ => List.prefix_rfl⟩) he₁
  have hleₛ := hle.trans hopens.entering.touches.grown.size_values
  have hgₛ : Guarded m x s.scope := by
    rw [hopens.scope]
    refine ⟨fun p hp a ha => ?_, fun fr hfr p hp => ?_⟩
    · rcases List.mem_cons.mp hp with rfl | hp
      · cases ha
      · exact hg.outer p hp a ha
    · rw [List.mem_singleton] at hfr
      subst hfr
      cases hp
  -- the slot of the result is made with the function, and `x` was there before
  have hresult : ∀ r, t.result = some r → ¬ m.Rooted x r := by
    intro r hr
    obtain ⟨v, hv, halloc, hfunc⟩ := hopens.alloc r hr
    refine not_rooted_of_storage hle ?_ (.inl (halloc ▸ Module.node?_eq ((heₚ.trans he').value hv)))
    by_contra hold
    obtain ⟨w, hw⟩ := Module.exists_value? (Module.bounds_of_value? hv).1 (not_lt.mp hold)
    obtain rfl := Option.some.inj ((hopens.entering.touches.grown.value hw).symm.trans hv)
    have := h.ready.sound.owner r w hw
    have := hopens.func
    lia
  have hfirst := hcopied he' hleₛ hgₛ
  have hbody := shields_lowerStmts hx hresult h.begins.here h.within.targets
    (hleₛ.trans heₚ.size_values) hfirst.guarded d.body
    h.body he₂
  have hlate := hopens.lt_of_store (heₚ.trans he') (h.owns hid) hnode
  exact (hfirst.spares.trans hbody.spares) id val dest hlate (h.le_of_store hid hnode) hnode

end

/-! Item after item. -/

structure Untouched (m : Module) (x : ValueId) (s : State) : Prop where
  made : x ≤ s.module.values.size
  guarded : Guarded m x s.scope
  clean : ∀ g fn, s.module.func? g = some fn → fn.layout ≠ #[] →
    ∀ bb, ∀ id ∈ fn.code bb, ∀ val dest,
    m.node? id = some (.store val dest) → ¬ m.Rooted x dest

/-- Between two items nothing leads to storage that is not there yet. -/
theorem Ready.guarded (h : Ready s) (hl : Linked m) (hlt : s.module.values.size < x) :
    Guarded m x s.scope := by
  refine ⟨fun p hp a ha => ?_, fun fr hfr => ?_⟩
  · have hb := h.bound p hp 0
    rw [ha] at hb
    exact not_rooted_of_bound hl hb hlt
  · rw [h.top] at hfr
    cases hfr

theorem untouched_lowerGlobal_const {v : VarDef} (h : Ready s) (hl : Linked m)
    (hrun : lowerGlobal true v s = .ok ((), s')) (he : Extends s'.module m)
    (hlt : s.module.values.size < x) (hle : x ≤ s'.module.values.size) : Untouched m x s' := by
  obtain ⟨hext, hfuncs⟩ := (keeps_lowerGlobal h true v).ok hrun
  refine ⟨hle, (binds_lowerGlobal h hrun he).guarded (.inr rfl) (h.guarded hl hlt), ?_⟩
  intro g fn hg hcode bb id hid val dest hnode hrooted
  rw [hfuncs] at hg
  obtain ⟨-, -, ⟨hlayout, -⟩ | hfin⟩ := h.sound.funcs g fn hg
  · exact hcode hlayout
  · obtain ⟨w, hw, -⟩ := hfin.inst bb id hid
    have := Module.bounds_of_value? hw
    have := hl.le_of_rooted hrooted
    have : dest < id := hl.lt_of_operand hnode (by
      simp [Node.operands]
      lia)
    lia

structure Later (s s' : State) : Prop where
  ready : Ready s'
  grown : Extends s.module s'.module
  funcs : ∀ g fn, s.module.func? g = some fn → s'.module.func? g = some fn

theorem Later.refl (h : Ready s) : Later s s := ⟨h, .refl _, fun _ _ hg => hg⟩

theorem Later.trans {s'' : State} (h : Later s s') (h' : Later s' s'') : Later s s'' :=
  ⟨h'.ready, h.grown.trans h'.grown, fun g fn hg => h'.funcs g fn (h.funcs g fn hg)⟩

theorem later_lowerGlobal (h : Ready s) (isConst : Bool) (v : VarDef) :
    Gives (lowerGlobal isConst v) s fun _ s' => Later s s' :=
  ((gives_lowerGlobal h isConst v).and (keeps_lowerGlobal h isConst v)).mono
    fun _ _ ⟨h', he, hfuncs⟩ =>
    ⟨h', he, fun g _ hg => (hfuncs g).trans hg⟩

theorem later_lowerGlobals (isConst : Bool) (vs : List VarDef) : ∀ {s}, Ready s →
    Gives (vs.forM (lowerGlobal isConst)) s fun _ s' => Later s s' := by
  induction vs with
  | nil => exact fun h => Gives.pure (.refl h)
  | cons v vs ih =>
    intro s h
    rw [List.forM]
    refine Gives.bind (later_lowerGlobal h isConst v) ?_
    rintro _ s₁ h₁
    exact (ih h₁.ready).mono fun _ _ h' => h₁.trans h'

theorem later_lowerFunc (h : Ready s) (d : FuncDef) : Gives (lowerFunc d) s fun _ s' =>
    Later s s' := by
  refine ((gives_lowerFunc h d).and (keeps_lowerFunc h d)).mono ?_
  rintro _ s' ⟨h', t, s₁, s₂, s₃, fn, hlow, -, ht, -⟩
  refine ⟨h', ht.grown, fun g gn hg => (ht.other g ?_).trans hg⟩
  rintro rfl
  have := hlow.begins.func
  have := Module.bounds_of_func? hg
  lia

theorem lowerItem_run (h : Ready s) (i : Item) : lowerItem i s = match i with
    | .decl _ d => d.defs.forM (lowerGlobal d.isConst) s
    | .func _ d => lowerFunc d s := by
  have hglobal : s.scope.isGlobal = true := by simp [Scope.isGlobal, h.top]
  unfold lowerItem
  rw [run_bind get_run, if_pos hglobal]
  cases i <;> rfl

theorem lowerItems_append (is js : List Item) :
    lowerItems (is ++ js) = (do lowerItems is; lowerItems js) := by
  induction is with
  | nil => rfl
  | cons i is ih => rw [List.cons_append, lowerItems, ih, lowerItems, bind_assoc]

theorem later_lowerItem (h : Ready s) (i : Item) : Gives (lowerItem i) s fun _ s' =>
    Later s s' := by
  unfold Gives
  rw [lowerItem_run h]
  cases i with
  | decl span d => exact later_lowerGlobals d.isConst d.defs h
  | func span d => exact later_lowerFunc h d

theorem later_lowerItems (is : List Item) : ∀ {s}, Ready s → Gives (lowerItems is) s fun _ s' =>
    Later s s' := by
  induction is with
  | nil => exact fun h => Gives.pure (.refl h)
  | cons i is ih =>
    intro s h
    rw [lowerItems]
    refine Gives.bind (later_lowerItem h i) ?_
    rintro _ s₁ h₁
    exact (ih h₁.ready).mono fun _ _ h' => h₁.trans h'

namespace Untouched
variable {isConst : Bool}

theorem globals (vs : List VarDef) :
    ∀ {s}, Untouched m x s → Ready s → vs.forM (lowerGlobal isConst) s = .ok ((), s') →
    Extends s'.module m → Untouched m x s' := by
  induction vs with
  | nil =>
    intro s hu _ hrun _
    obtain ⟨-, rfl⟩ := pure_ok.mp hrun
    exact hu
  | cons v vs ih =>
    intro s hu h hrun he
    rw [List.forM] at hrun
    obtain ⟨⟨⟩, s₁, hv, hvs⟩ := bind_ok.mp hrun
    obtain ⟨h₁, hext, hfuncs⟩ :=
      ((gives_lowerGlobal h isConst v).and (keeps_lowerGlobal h isConst v)).ok hv
    have he₁ := ((later_lowerGlobals isConst vs h₁).ok hvs).grown.trans he
    exact ih ⟨hu.made.trans hext.size_values, (binds_lowerGlobal h hv he₁).guarded
      (.inl hu.made) hu.guarded,
      fun g fn hg => hu.clean g fn ((hfuncs g).symm.trans hg)⟩ h₁ hvs he

theorem func (hu : Untouched m x s) (h : Ready s) (hx : m.IsStorage x)
    (hrun : lowerFunc d s = .ok ((), s')) (he : Extends s'.module m) : Untouched m x s' := by
  obtain ⟨t, s₁, s₂, s₃, fn, hlow, hfound, ht, hscope, -⟩ := (keeps_lowerFunc h d).ok hrun
  refine ⟨hu.made.trans ht.grown.size_values, ?_, fun g gn hg hcode bb id hid val dest hnode => ?_⟩
  · rw [hscope]
    refine ⟨fun p hp a ha => ?_, fun fr hfr => ?_⟩
    · rcases List.mem_cons.mp hp with rfl | hp
      · cases ha
      · exact hu.guarded.outer p hp a ha
    · cases hfr
  · by_cases hne : g = t.func
    · subst hne
      obtain rfl := Option.some.inj (hfound.symm.trans hg)
      exact (hlow.extends he).clean hx hu.made hu.guarded hid hnode
    · exact hu.clean g gn ((ht.other g hne).symm.trans hg) hcode bb id hid val dest hnode

theorem items (hx : m.IsStorage x) (is : List Item) :
    ∀ {s}, Untouched m x s → Ready s → lowerItems is s = .ok ((), s') →
    Extends s'.module m → Untouched m x s' := by
  induction is with
  | nil =>
    intro s hu _ hrun _
    obtain ⟨-, rfl⟩ := pure_ok.mp hrun
    exact hu
  | cons i is ih =>
    intro s hu h hrun he
    rw [lowerItems] at hrun
    obtain ⟨⟨⟩, s₁, hi, his⟩ := bind_ok.mp hrun
    have h₁ := (gives_lowerItem h i).ok hi
    have he₁ := ((later_lowerItems is h₁).ok his).grown.trans he
    rw [lowerItem_run h] at hi
    refine ih ?_ h₁ his he
    cases i with
    | decl span d => exact hu.globals d.defs h hi he₁
    | func span d => exact hu.func h hx hi he₁

end Untouched

theorem lower_ok {p : Program} (h : p.lower = .ok m) (hs : {} = s) :
    ∃ s', (do openLibrary; lowerItems p.items : Lower Unit) s = .ok ((), s') ∧ s'.module = m := by
  unfold Program.lower at h
  rw [hs] at h
  split at h
  · rename_i s' heq
    exact ⟨s', heq, Except.ok.inj h⟩
  · cases h

theorem items_around {p : Program} {done rest : List Item} {span : Span} {dec : Decl} {v : VarDef}
    {before after : List VarDef} (h : p.lower = .ok m)
    (hitems : p.items = done ++ .decl span dec :: rest) (hconst : dec.isConst = true)
    (hdefs : dec.defs = before ++ v :: after) :
    ∃ s₀ s s' sₙ sₑ, (do openLibrary; lowerItems done : Lower Unit) {} = .ok ((), s₀) ∧
      before.forM (lowerGlobal true) s₀ = .ok ((), s) ∧ lowerGlobal true v s = .ok ((), s') ∧
      after.forM (lowerGlobal true) s' = .ok ((), sₙ) ∧ lowerItems rest sₙ = .ok ((), sₑ) ∧
      sₑ.module = m ∧ Ready s ∧ Ready s' ∧ Later s' sₙ ∧ Later sₙ sₑ := by
  generalize hstart : ({} : State) = s₁
  obtain ⟨sₑ, hall, hm⟩ := lower_ok h hstart
  rw [hitems, lowerItems_append, ← bind_assoc] at hall
  obtain ⟨⟨⟩, s₀, hdone, hall⟩ := bind_ok.mp hall
  have h₀ := (gives_lowerProgram ⟨span, done⟩ hstart.symm).ok hdone
  rw [lowerItems] at hall
  obtain ⟨⟨⟩, sₙ, hitem, hrest⟩ := bind_ok.mp hall
  rw [lowerItem_run h₀] at hitem
  dsimp only at hitem
  rw [hdefs, hconst] at hitem
  obtain ⟨s, hbefore, hitem⟩ := forM_append_ok hitem
  rw [List.forM] at hitem
  obtain ⟨⟨⟩, s', hrun, hafter⟩ := bind_ok.mp hitem
  have hs := ((later_lowerGlobals true before h₀).ok hbefore).ready
  have hs' := (gives_lowerGlobal hs true v).ok hrun
  have hn := (later_lowerGlobals true after hs').ok hafter
  exact ⟨s₀, s, s', sₙ, sₑ, hdone, hbefore, hrun, hafter, hrest, hm, hs, hs', hn,
    (later_lowerItems rest hn.ready).ok hrest⟩

def Unstored (m : Module) (x : ValueId) : Prop :=
  ∀ fn ∈ m.funcs.toList, fn.isDeclared = false → ∀ bb, ∀ id ∈ fn.code bb, ∀ val dest, m.node? id =
    some (.store val dest) →
    ¬ m.Rooted x dest

theorem unstored_of_global {sₙ sₑ : State} {v : VarDef} {after : List VarDef} {rest : List Item}
    (hs : Ready s) (hrun : lowerGlobal true v s = .ok ((), s')) (hs' : Ready s')
    (hafter : after.forM (lowerGlobal true) s' = .ok ((), sₙ)) (hn : Later s' sₙ)
    (hrest : lowerItems rest sₙ = .ok ((), sₑ)) (hₑ : Later sₙ sₑ) (hx : sₑ.module.IsStorage x)
    (hlt : s.module.values.size < x) (hle : x ≤ s'.module.values.size) : Unstored sₑ.module x := by
  have hu :=
    untouched_lowerGlobal_const hs hₑ.ready.sound.linked hrun (hn.grown.trans hₑ.grown) hlt hle
  have hend := (hu.globals after hs' hafter hₑ.grown).items hx rest hn.ready hrest (.refl _)
  intro fn hfn hcode bb id hid val dest hnode
  obtain ⟨g, hfin⟩ := hₑ.ready.sound.finished hfn hcode
  exact hend.clean g fn hfin.found (by simpa [Func.isDeclared] using hcode) bb id hid val dest hnode

end Sysy.Lowering
