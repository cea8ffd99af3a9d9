import Sysy.Proofs.Constancy.Stores
import Sysy.Proofs.Lowering.Labels

/-!
Constant arrays. A constant array is stored into only by the code that its own declaration makes:
code before it does not know its storage, and behind it the storage goes by a constant name for as
long as it has one.
-/

namespace Sysy.Ir

theorem InstOk.readable_src {m : Module} {f : FuncId} {fn : Func} {bb : BlockId} {node : Node}
    {ty : Ty} {src : ValueId} (h : InstOk m f fn bb node ty)
    (hplace : ∃ index, node = .getElemPtr src index ∨ node = .getPtr src index) :
    ∃ ty, m.Readable f src ty := by
  obtain ⟨index, rfl | rfl⟩ := hplace
  · cases h with
    | plain _ ht =>
      cases ht with
      | getElemPtr _ hsrc _ => exact ⟨_, hsrc⟩
    | leave _ hl => cases hl
  · cases h with
    | plain _ ht =>
      cases ht with
      | getPtr _ hsrc _ => exact ⟨_, hsrc⟩
    | leave _ hl => cases hl

theorem InstOk.store_cases {m : Module} {f : FuncId} {fn : Func} {bb : BlockId} {val dest : ValueId}
    {ty : Ty} (h : InstOk m f fn bb (.store val dest) ty) :
    (m.Readable f val .i32 ∨ ∃ i, m.node? val = some (.arg i)) ∧ ∃ ty, m.Readable f dest ty := by
  cases h with
  | param _ harg hnode _ _ _ hdest =>
    exact ⟨.inr ⟨_, by rw [Module.node?_eq harg, hnode]⟩, _, hdest⟩
  | plain _ ht =>
    cases ht with
    | store hval hdest => exact ⟨.inl hval, _, hdest⟩
  | leave _ hl => cases hl

end Sysy.Ir

namespace Sysy.Lowering
open Ir

variable {t : Target} {s s' s₀ s₁ s₂ s₃ : State} {P : Set Nat} {m : Module} {x : ValueId}
  {fn : Func} {loops : List Loop}
  {body xs : List Stmt}

/-! The code behind a place in a body. -/

def Onward (m : Module) (x : ValueId) (s' s₂ : State) : Prop :=
  x ≤ s'.module.values.size → Guarded m x s'.scope → Spares m x s' s₂

theorem Onward.before (h' : Onward m x s' s₂) (hsize : s.module.values.size ≤ s'.module.values.size)
    (h : x ≤ s.module.values.size → Guarded m x s.scope → Shields m x s s') : Onward m x s s₂ := by
  intro hle hg
  have hshields := h hle hg
  exact hshields.spares.trans (h' (hle.trans hsize) hshields.guarded)

theorem Onward.leaveFor {target onward : BlockId} (hon : Onward m x s' s₂) (h : At t false P s)
    (hrun : leaveFor t target onward s = .ok ((), s')) (he : Extends s'.module m) :
    Onward m x s s₂ :=
  hon.before (extends_leaveFor h hrun).size_values fun _ hg => shields_leaveFor h hg hrun he

theorem Within.grows (h : Within t s₂ loops xs s) (hrun : lowerStmts t loops xs s = .ok ((), s')) :
    Grows t.func s'.module s₂.module := by
  obtain ⟨s'', hrun', hgrows⟩ := h.run
  obtain ⟨-, rfl⟩ := Prod.mk.inj (Except.ok.inj (hrun.symm.trans hrun'))
  exact hgrows

section
variable (hx : m.IsStorage x) (hresult : ∀ r, t.result = some r → ¬ m.Rooted x r)
  (he : Extends s₂.module m)
include hx hresult he

theorem Within.onward_head {y : Stmt} {ys : List Stmt} (h : Within t s₂ loops (y :: ys) s)
    (hrun : lowerStmts t loops (y :: ys) s = .ok ((), s')) (hon : Onward m x s' s₂) :
    ∃ s'', lowerStmt t loops y s = .ok ((), s'') ∧ Extends s''.module m ∧ Onward m x s'' s₂ := by
  have hend := h.grows hrun
  obtain ⟨s'', hy, hrest, hgrows⟩ := h.head
  rw [lowerStmts, run_bind hy] at hrun
  obtain ⟨P, hat⟩ := hrest.here
  obtain ⟨hp, -⟩ := (lasts_lowerStmts hat hrest.targets ys).ok hrun
  exact ⟨s'', hy, hgrows.extends.trans he, hon.before hp.grows.extends.size_values fun hle hg =>
    shields_lowerStmts hx hresult hat hrest.targets hle hg ys hrun (hend.extends.trans he)⟩

/-- What is lowered behind the statements of a visit spares `x` from the end of the statements
on. -/
theorem Visits.onward (hrun : lowerStmts t [] body s₁ = .ok ((), s₂))
    (hbody : Within t s₂ [] body s₁) (h : Visits t body s₁ loops xs s) :
    ∃ s', lowerStmts t loops xs s = .ok ((), s') ∧ Onward m x s' s₂ := by
  induction h with
  | start => exact ⟨s₂, hrun, fun _ _ => .of_size rfl⟩
  | next _ hy ih =>
    obtain ⟨s', hrun', hon⟩ := ih
    rw [lowerStmts, run_bind hy] at hrun'
    exact ⟨s', hrun', hon⟩
  | block h ih =>
    obtain ⟨s', hrun', hon⟩ := ih
    obtain ⟨s'', hblock, -, hon⟩ := (h.within hbody).onward_head hx hresult he hrun' hon
    rw [lowerStmt, run_bind (enter_run .block)] at hblock
    obtain ⟨⟨⟩, s₃, hxs, hclose⟩ := bind_ok.mp hblock
    obtain rfl : { s₃ with scope := s₃.scope.exit } = s'' := (Prod.mk.inj (Except.ok.inj hclose)).2
    exact ⟨s₃, hxs, hon.before le_rfl fun _ hg => ⟨.of_size rfl, hg.exit⟩⟩
  | @yes loops span test y no ys s s₃ p h hopen ih =>
    obtain ⟨s', hrun', hon⟩ := ih
    have hin := h.within hbody
    obtain ⟨P, hat⟩ := hin.here
    obtain ⟨s'', hcond, he'', hon⟩ := hin.onward_head hx hresult he hrun' hon
    rw [lowerStmts_single]
    cases no with
    | none =>
      obtain ⟨s₄, Q, -, hyes, hleave, -⟩ := cond_parts hat hin.targets hcond hopen
      exact ⟨s₄, hyes.run, hon.leaveFor hyes.behind hleave he''⟩
    | some z =>
      obtain ⟨s₄, s₅, s₆, Q, R, -, hyes, hturn, -, hno, hleave, hm₆⟩ :=
        cond_else_parts hat hin.targets hcond hopen
      have he₆ := hm₆.extends.trans he''
      -- the second arm is lowered behind the first one, though it is not run behind it
      have hon₅ : Onward m x s₅ s₂ :=
        (hon.leaveFor hno.behind hleave he'').before hno.passes.grows.extends.size_values
        fun hle hg => shields_lowerStmt hx hresult hno.here hno.targets hle hg z hno.run he₆
      exact ⟨s₄, hyes.run, hon₅.leaveFor hyes.behind hturn (hno.passes.grows.extends.trans he₆)⟩
  | @no loops span test y z ys s s₃ s₄ s₅ p h hopen hy hturn ih =>
    obtain ⟨s', hrun', hon⟩ := ih
    have hin := h.within hbody
    obtain ⟨s'', hcond, he'', hon⟩ := hin.onward_head hx hresult he hrun' hon
    have harm := (hin.cond hopen).2 z s₄ s₅ rfl hy hturn
    obtain ⟨Q, hat⟩ := harm.here
    rw [lowerStmt_cond_some, run_bind hopen, run_bind hy, run_bind hturn] at hcond
    obtain ⟨⟨⟩, s₆, hz, hleave⟩ := bind_ok.mp hcond
    rw [lowerStmts_single]
    exact ⟨s₆, hz, hon.leaveFor ((lasts_lowerStmt hat harm.targets z).ok hz).2 hleave he''⟩
  | @body loops span test y ys s s₃ l h hopen ih =>
    obtain ⟨s', hrun', hon⟩ := ih
    have hin := h.within hbody
    obtain ⟨P, hat⟩ := hin.here
    obtain ⟨s'', hloop, he'', hon⟩ := hin.onward_head hx hresult he hrun' hon
    obtain ⟨s₄, Q, -, hturn, hleave, -⟩ := loop_parts hat hin.targets hloop hopen
    rw [lowerStmts_single]
    exact ⟨s₄, hturn.run, hon.leaveFor hturn.behind hleave he''⟩

end

/-! Constants inside functions. -/

section
variable {bb : BlockId} {id val dest : ValueId} {d : FuncDef}

theorem Completes.mem_of_store {fn' : Func} {m' : Module} {first : BlockId}
    (h : Completes t first fn fn' m') (he : Extends m' m) (hid : id ∈ fn'.code bb)
    (hnode : m.node? id = some (.store val dest)) : id ∈ fn.code bb := by
  have hnew {j : ValueId} {v : Value} (hv : m'.value? j = some v)
    (hne : ∀ val dest, v.node ≠ .store val dest) : id ≠ j := by
    rintro rfl
    exact hne _ _ (Option.some.inj ((Module.node?_eq (he.value hv)).symm.trans hnode))
  have hmore {j : ValueId} {v : Value} {ids : List ValueId} (hmem : id ∈ ids ++ [j])
    (hv : m'.value? j = some v)
      (hne : ∀ val dest, v.node ≠ .store val dest) : id ∈ ids := by
    rcases List.mem_append.mp hmem with hmem | hmem
    · exact hmem
    · exact (hnew hv hne (List.mem_singleton.mp hmem)).elim
  by_cases hone : bb = 1
  · subst hone
    obtain ⟨j, v, hcode, hv, hjump⟩ := h.entry
    exact hmore (hcode ▸ hid) hv (by simp [hjump])
  by_cases htwo : bb = 2
  · subst htwo
    obtain ⟨before, r, v, val', hcode, hv, hret, hbefore⟩ := h.exit
    have hmem := hmore (hcode ▸ hid) hv (by simp [hret])
    rcases hbefore with ⟨-, rfl, -⟩ | ⟨slot, l, u, -, rfl, -, hu, hload⟩
    · cases hmem
    · exact (hnew hu (by simp [hload]) (List.mem_singleton.mp hmem)).elim
  by_cases hcur : bb = fn.current
  · subst hcur
    rcases h.tail with ⟨-, hcode, -⟩ | ⟨j, v, hcode, hv, hjump⟩
    · rw [hcode] at hid
      cases hid
    · exact hmore (hcode ▸ hid) hv (by simp [hjump])
  · rwa [h.other bb hone hcur htwo] at hid

theorem Lowered.within (h : Lowered m fn d t s₀ s₁ s₂ s₃) : Within t s₂ [] d.body s₁ :=
  ⟨⟨_, h.begins.here⟩, by simp [LoopsOk], s₂, h.body, .refl⟩

theorem Lowered.completes (h : Lowered m fn d t s₀ s₁ s₂ s₃) : ∃ fn₂, Coded s₂.module t.func fn₂ ∧
    Finished s₃.module t.func fn ∧ Completes t 3 fn₂ fn s₃.module ∧
    Touches t.func s₀.module s₃.module ∧
    Extends s₂.module s₃.module := by
  obtain ⟨hp₂, h₂⟩ := (lasts_lowerStmts h.begins.here h.within.targets d.body).ok h.body
  obtain ⟨-, fn₂, fn₃, hf₂, hfin, hwork, hcompletes⟩ := (h.begins.gives_finish hp₂ h₂).ok h.finish
  obtain rfl := Option.some.inj (hfin.found.symm.trans h.found)
  obtain ⟨fn₂', hbody, -⟩ := h₂.body
  obtain rfl := Option.some.inj (hf₂.symm.trans hbody.found)
  obtain ⟨params, args, ret, hE, -⟩ := h.begins.entering
  exact ⟨fn₂, hbody.toCoded, hfin, hcompletes,
    hE.touches.trans ((Touches.of_grows hp₂.grows).trans hwork.touches),
    hwork.touches.grown⟩

theorem Lowered.owns (h : Lowered m fn d t s₀ s₁ s₂ s₃) (hid : id ∈ fn.code bb) :
    ∃ v, m.value? id = some v ∧ v.func = t.func := by
  obtain ⟨fn₂, -, hfin, -⟩ := h.completes
  obtain ⟨v, hv, hfunc, -⟩ := hfin.inst bb id hid
  exact ⟨v, h.grown.value hv, hfunc⟩

theorem Lowered.le_of_store (h : Lowered m fn d t s₀ s₁ s₂ s₃) (hid : id ∈ fn.code bb)
    (hnode : m.node? id = some (.store val dest)) : id ≤ s₂.module.values.size := by
  obtain ⟨fn₂, hcoded, -, hcompletes, -⟩ := h.completes
  obtain ⟨v, hv⟩ := hcoded.defined (hcompletes.mem_of_store h.grown hid hnode)
  exact (Module.bounds_of_value? hv).2

theorem func_of_rooted {g : FuncId} {gn : Func} {y : ValueId} {ty : Ty} (hfin : Finished m g gn)
    (hx : m.node? x = some .alloc) (h : m.Rooted x y) (hread : m.Readable g y ty) :
    ∃ v, m.value? x = some v ∧ v.func = g := by
  have hown {y src : ValueId} {ty : Ty} {node : Node} (hnode : m.node? y = some node)
    (hread : m.Readable g y ty)
      (hplace : ∃ index, node = .getElemPtr src index ∨ node = .getPtr src index) :
        ∃ ty, m.Readable g src ty := by
    obtain ⟨v, hv, -, hreadable⟩ := hread
    obtain rfl := Option.some.inj ((Module.node?_eq hv).symm.trans hnode)
    have hfunc : v.func = g := by
      obtain ⟨index, heq | heq⟩ := hplace
      · simpa [Value.IsReadable, heq] using hreadable
      · simpa [Value.IsReadable, heq] using hreadable
    have hid := hfin.own y v hv hfunc (by obtain ⟨index, heq | heq⟩ := hplace <;> simp [heq])
    obtain ⟨w, hw, -, -, hok⟩ := hfin.inst _ y hid
    obtain rfl := Option.some.inj (hv.symm.trans hw)
    exact hok.readable_src hplace
  induction h generalizing ty with
  | root =>
    obtain ⟨v, hv, -, hreadable⟩ := hread
    have hnode : v.node = .alloc := Option.some.inj ((Module.node?_eq hv).symm.trans hx)
    exact ⟨v, hv, by simpa [Value.IsReadable, hnode] using hreadable⟩
  | elem hnode _ ih =>
    obtain ⟨ty', hsrc⟩ := hown hnode hread ⟨_, .inl rfl⟩
    exact ih hsrc
  | ptr hnode _ ih =>
    obtain ⟨ty', hsrc⟩ := hown hnode hread ⟨_, .inr rfl⟩
    exact ih hsrc

theorem alloc_of_grows {f : FuncId} (hgrows : Grows f s.module s'.module) (he : Extends s'.module m)
    (hx : m.IsStorage x) (hlt : s.module.values.size < x) (hle : x ≤ s'.module.values.size) :
    ∃ v, m.value? x = some v ∧ v.node = .alloc ∧ (v.func = f ∨ v.func = 0) := by
  obtain ⟨v, hv⟩ := Module.exists_value? (Nat.zero_lt_of_lt hlt) hle
  have hnode := Module.node?_eq (he.value hv)
  rcases (Touches.of_grows hgrows).fresh x v hv with hold | ⟨hfunc, hglobal⟩
  · have := Module.bounds_of_value? hold
    lia
  rcases hx with hx | ⟨init, hx⟩
  · exact ⟨v, he.value hv, Option.some.inj (hnode.symm.trans hx), hfunc⟩
  · exact (hglobal init (Option.some.inj (hnode.symm.trans hx))).elim

theorem func_of_place {f g : FuncId} {gn : Func} {y : ValueId} {ty : Ty}
    (hgrows : Grows f s.module s'.module) (he : Extends s'.module m) (hfin : Finished m g gn)
    (hx : m.IsStorage x) (hlt : s.module.values.size < x) (hle : x ≤ s'.module.values.size)
    (hrooted : m.Rooted x y) (hread : m.Readable g y ty) : g = f := by
  obtain ⟨v, hv, halloc, hfunc⟩ := alloc_of_grows hgrows he hx hlt hle
  obtain ⟨w, hw, hwfunc⟩ := func_of_rooted hfin (halloc ▸ Module.node?_eq hv) hrooted hread
  obtain rfl := Option.some.inj (hv.symm.trans hw)
  have := Module.bounds_of_func? hfin.found
  rcases hfunc with hfunc | hfunc
  · exact hwfunc.symm.trans hfunc
  · lia

/-- Code of the module that stores into `x` was made between the two states. -/
def OwnStores (m : Module) (x : ValueId) (s s' : State) : Prop :=
  ∀ fn ∈ m.funcs.toList, fn.isDeclared = false → ∀ bb, ∀ id ∈ fn.code bb, ∀ val dest, m.node? id =
    some (.store val dest) → m.Rooted x dest →
    s.module.values.size < id ∧ id ≤ s'.module.values.size

theorem forM_append_ok {α : Type} {f : α → Lower Unit} {as bs : List α}
    (hrun : (as ++ bs).forM f s = .ok ((), s')) :
    ∃ s₁, as.forM f s = .ok ((), s₁) ∧ bs.forM f s₁ = .ok ((), s') := by
  change forM (as ++ bs) f s = _ at hrun
  rw [List.forM_append] at hrun
  obtain ⟨⟨⟩, s₁, has, hbs⟩ := bind_ok.mp hrun
  exact ⟨s₁, has, hbs⟩

theorem Lowered.around {span : Span} {dec : Decl} {v : VarDef} {before after : List VarDef}
    {sᵥ : State} (hlow : Lowered m fn d t s₀ s₁ s₂ s₃)
    (hvisit : Visits t d.body s₁ loops (.decl span dec :: xs) sᵥ)
    (hdefs : dec.defs = before ++ v :: after)
    (hbefore : before.forM (lowerLocal t dec.isConst) sᵥ = .ok ((), s))
    (hrun : lowerLocal t dec.isConst v s = .ok ((), s')) :
    ∃ P s₄, At t false P s ∧ At t false P s' ∧
      lowerStmt t loops (.decl span dec) sᵥ = .ok ((), s₄) ∧
      after.forM (lowerLocal t dec.isConst) s' = .ok ((), s₄) ∧
      Extends s'.module s₄.module ∧ Extends s₄.module m := by
  obtain ⟨fn₂, -, -, -, -, he₃⟩ := hlow.completes
  have hin := hvisit.within hlow.within
  obtain ⟨P, hat⟩ := hin.here
  obtain ⟨s₄, hdecl, -, hgrows⟩ := hin.head
  have hdecl' := hdecl
  rw [lowerStmt, hdefs] at hdecl'
  obtain ⟨s₅, hbefore', hrest⟩ := forM_append_ok hdecl'
  obtain ⟨-, rfl⟩ := Prod.mk.inj (Except.ok.inj (hbefore.symm.trans hbefore'))
  rw [List.forM, run_bind hrun] at hrest
  obtain ⟨hp, h⟩ := (lasts_lowerLocals dec.isConst before hat).ok hbefore
  obtain ⟨hp', h'⟩ := (lasts_lowerLocal h dec.isConst v).ok hrun
  obtain ⟨hp₄, -⟩ := (lasts_lowerLocals dec.isConst after h').ok hrest
  exact ⟨P, s₄, h, h', hdecl, hrest, hp₄.grows.extends, hgrows.extends.trans (he₃.trans hlow.grown)⟩

theorem Lowered.onward {span : Span} {dec : Decl} {v : VarDef} {before after : List VarDef}
    {sᵥ : State} (hl : Linked m) (hlow : Lowered m fn d t s₀ s₁ s₂ s₃)
    (hvisit : Visits t d.body s₁ loops (.decl span dec :: xs) sᵥ)
    (hdefs : dec.defs = before ++ v :: after)
    (hbefore : before.forM (lowerLocal t dec.isConst) sᵥ = .ok ((), s))
    (hrun : lowerLocal t dec.isConst v s = .ok ((), s')) (hx : m.IsStorage x)
    (hlt : s.module.values.size < x) :
    Onward m x s' s₂ := by
  obtain ⟨P, s₄, h, h', hdecl, hafter, he, he₄⟩ := hlow.around hvisit hdefs hbefore hrun
  have hresult : ∀ r, t.result = some r → ¬ m.Rooted x r := by
    intro r hr hrooted
    obtain ⟨w, hw, -⟩ := h.result r hr
    have := hl.le_of_rooted hrooted
    have := Module.bounds_of_value? hw
    lia
  obtain ⟨fn₂, -, -, -, -, he₃⟩ := hlow.completes
  have he₂ := he₃.trans hlow.grown
  obtain ⟨sₑ, hrunₑ, honₑ⟩ := hvisit.onward hx hresult he₂ hlow.body hlow.within
  obtain ⟨s₅, hdecl', -, hon⟩ := (hvisit.within hlow.within).onward_head hx hresult he₂ hrunₑ honₑ
  obtain ⟨-, rfl⟩ := Prod.mk.inj (Except.ok.inj (hdecl.symm.trans hdecl'))
  exact hon.before he.size_values fun hle hg => shields_lowerLocals hx after h' hle hg hafter he₄

/-- A constant array inside a function is stored into by the code of its declaration alone. -/
theorem ownStores_of_local {span : Span} {dec : Decl} {v : VarDef} {before after : List VarDef}
    {sᵥ : State} (hs : Sound m) (hlow : Lowered m fn d t s₀ s₁ s₂ s₃)
    (hfound : m.func? t.func = some fn)
    (hvisit : Visits t d.body s₁ loops (.decl span dec :: xs) sᵥ) (hconst : dec.isConst = true)
    (hdefs : dec.defs = before ++ v :: after)
    (hbefore : before.forM (lowerLocal t true) sᵥ = .ok ((), s))
    (hrun : lowerLocal t true v s = .ok ((), s')) (hx : m.IsStorage x)
    (hlt : s.module.values.size < x) (hle : x ≤ s'.module.values.size) : OwnStores m x s s' := by
  rw [← hconst] at hbefore hrun
  obtain ⟨P, s₄, h, -, -, -, he₄, he⟩ := hlow.around hvisit hdefs hbefore hrun
  have he' := he₄.trans he
  have hon := hlow.onward hs.linked hvisit hdefs hbefore hrun hx hlt
  obtain ⟨hp', -⟩ := (lasts_lowerLocal h dec.isConst v).ok hrun
  have hguarded : Guarded m x s'.scope := (binds_lowerLocal h hrun he').guarded (.inr hconst)
    (guarded_of_scopeOk hs.linked h.scope hlt)
  have hspares := hon hle hguarded
  intro gn hgn hcode bb id hid val dest hnode hrooted
  obtain ⟨g, hfin⟩ := hs.finished hgn hcode
  -- the store is in the function that the array belongs to
  obtain rfl : g = t.func := by
    obtain ⟨w, hw, -, -, hok⟩ := hfin.inst bb id hid
    rw [Option.some.inj ((Module.node?_eq hw).symm.trans hnode)] at hok
    obtain ⟨-, ty, hread⟩ := hok.store_cases
    exact func_of_place hp'.grows he' hfin hx hlt hle hrooted hread
  obtain rfl := Option.some.inj (hfound.symm.trans hfin.found)
  have hid₂ := hlow.le_of_store hid hnode
  have hxdest := hs.linked.le_of_rooted hrooted
  have hdest : dest < id := hs.linked.lt_of_operand hnode (by
    simp [Node.operands]
    lia)
  refine ⟨by lia, ?_⟩
  by_contra hlate
  exact hspares id val dest (by lia) hid₂ hnode hrooted

end

end Sysy.Lowering
