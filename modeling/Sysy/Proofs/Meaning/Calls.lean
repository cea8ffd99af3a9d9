import Sysy.Proofs.Meaning.Entries

/-!
Calls. A run goes through the entry of a function into its body, and from the end of the body
through the exit, where it returns what the evaluation of the call gives.
-/

namespace Sysy.Lowering
open Ir

variable {m : Module} {fn : Func} {d : FuncDef} {t : Target} {s₀ s₁ s₂ s₃ : State}

theorem Coded.nodup_code {f : FuncId} (h : Coded m f fn) (bb : BlockId) : (fn.code bb).Nodup :=
  (h.sorted bb).imp Nat.ne_of_lt

theorem Completes.tail_of_led {fn' : Func} {m' : Module} {body bb : BlockId} {id : ValueId}
    {v : Value} (h : Completes t body fn fn' m') (hfin : Finished m t.func fn')
    (hid : id ∈ fn'.code bb) (hv : m.value? id = some v) (hnext : fn.current ∈ v.node.successors) :
    ∃ j v, fn'.code fn.current = fn.code fn.current ++ [j] ∧ m'.value? j = some v ∧
    v.node = .jump t.exit := by
  rcases h.tail with ⟨-, -, hnone⟩ | htail
  · exact absurd ((hfin.jumps fn.current id).mpr ⟨v, bb, hv, hid, hnext⟩) (hnone id)
  · exact htail

end Sysy.Lowering

namespace Sysy.Meaning
open Ir Lowering

theorem length_eq_of_bindParams {ev : Expr → Run Word} (ps : List Param) :
    ∀ {vs : List Value} {env env' : Env}
    {σ σ' : Memory}, bindParams ev env ps vs σ = some (env', σ') → ps.length = vs.length := by
  induction ps with
  | nil =>
    intro vs env env' σ σ' h
    cases vs with
    | nil => rfl
    | cons v vs => exact (failure_some.mp h).elim
  | cons p ps ih =>
    intro vs env env' σ σ' h
    cases vs with
    | nil => exact (failure_some.mp h).elim
    | cons v vs =>
      rw [bindParams] at h
      obtain ⟨r, σ₁, -, h⟩ := bind_some.mp h
      rw [List.length_cons, List.length_cons, ih h]

namespace World

/-- A function of the code and its definition, with the states that it was lowered in. What it was
lowered with are globals of the program. -/
structure Compiled (W : World) (d : FuncDef) (t : Target) (fn : Func)
    (s₀ s₁ s₂ s₃ : State) : Prop where
  lowered : Lowered W.module fn d t s₀ s₁ s₂ s₃
  finished : Finished W.module t.func fn
  plain : arePlain d.body = true
  names : ∀ a, W.Names (base W.module) a ⟨[],
    (d.name, .func t.func) :: s₀.scope.outermost⟩ W.globals

variable {W : World} {v : Visit} {d : FuncDef} {t : Target} {fn : Func} {s₀ s₁ s₂ s₃ : State}
  {L L' : Layout} {a a' : Activation}
  {st st' : Store} {σ σ' σ₁ : Memory} {env : Env} {xs : List Value} {ys : List Val}
    {done more rest : List ValueId} {n : Nat}
  {out : Outcome} {callers : List Activation}

theorem Prologue.allocs (hnodup : (v.fn.code 1).Nodup) (more : List ValueId) :
    ∀ {done : List ValueId} {a : Activation}
    {st : Store}, W.Prologue v done a L σ st → a.rest = more ++ rest →
    (∀ x ∈ more, IsLocal W.module v.target.func x) →
    ∃ a' st', a'.rest = rest ∧ Knows a a' ∧ W.Prologue v (done ++ more) a' L σ st' := by
  induction more with
  | nil =>
    intro done a st h hrest _
    exact ⟨a, st, hrest, .refl a, by rwa [List.append_nil]⟩
  | cons x more ih =>
    intro done a st h hrest hlocals
    obtain ⟨vals, -, hknows, h₁⟩ := h.alloc hnodup hrest (hlocals x (List.mem_cons_self ..))
    obtain ⟨a', st', hrest', hknows', h'⟩ := ih h₁ rfl fun y hy =>
      hlocals y (List.mem_cons_of_mem _ hy)
    exact ⟨a', st', hrest', hknows.trans hknows', by rwa [List.append_assoc] at h'⟩

theorem step_jump {j : ValueId} {bb : BlockId} (hfn : W.module.func? a.func = some fn)
    (hrest : a.rest = [j]) (hnode : W.module.node? j = some (.jump bb)) (callers : List Activation)
    (st : Store) :
    step W.module W.lib W.fill (.running a callers st) =
      some (.running { a with block := bb, rest := fn.code bb } callers st) := by
  rw [show step W.module W.lib W.fill (.running a callers st) = _ from
    Setting.step_eq (k := W.setting callers) hrest hnode (by simp) callers st]
  change Ir.exec W.module W.lib j { a with rest := [] } callers st (.jump bb) = _
  simp [Ir.exec, Activation.goTo, hfn]

namespace Compiled

theorem room (h : W.Compiled d t fn s₀ s₁ s₂ s₃) (hv : v.target = t) (hfn : v.fn = fn) {j : ValueId}
    (hp : W.Prologue v done a L σ st) (hcode : fn.code 1 = done ++ [j])
    (hj : W.module.node? j ≠ some .alloc)
    (hresult : ∀ x, t.result = some x → IsLocal W.module t.func x) : W.Room t v.size a L st := by
  subst hv hfn
  -- all locals of the function stand in its entry
  have hdone (x : ValueId) (hx : IsLocal W.module v.target.func x) : x ∈ done := by
    obtain ⟨w, hw, hnode, hfunc⟩ := hx
    have hmem := h.finished.own x w hw hfunc (by simp [hnode])
    obtain ⟨w', hw', -, -, hok⟩ := h.finished.inst _ x hmem
    obtain rfl := Option.some.inj (hw.symm.trans hw')
    rw [hnode] at hok
    rw [hok.block_of_alloc, h.finished.entry, hcode, List.mem_append, List.mem_singleton] at hmem
    refine hmem.resolve_right ?_
    rintro rfl
    exact hj (hnode ▸ Module.node?_eq hw)
  refine ⟨fun x hx => ?_, fun x y hx hy => ?_, hresult⟩
  · obtain ⟨k, hk, -⟩ := hp.env x (hdone x hx.1) hx.1
    obtain ⟨hspare, vals, hmem, hlen⟩ := hp.vacant x (hdone x hx.1) hx _ hk
    exact ⟨_, vals, hk, hspare, hmem, hlen⟩
  · exact hp.apart x (hdone x hx.1) y (hdone y hy.1) hx.1 hy.1

theorem consts (h : W.Compiled d t fn s₀ s₁ s₂ s₃) : ConstsAgree s₀.scope W.globals := by
  intro name w hname
  refine (h.names (.enter fn [])).consts name w ?_
  obtain ⟨m, inner, outermost⟩ := s₀
  obtain rfl : inner = [] := h.lowered.ready.top
  have hne : name ≠ d.name := by
    rintro rfl
    have hnone : outermost.lookup d.name = none := by
      rw [List.lookup_eq_none_iff]
      intro p hp
      rw [bne_iff_ne]
      rintro heq
      exact h.lowered.begins.fresh (List.mem_map.mpr ⟨p, hp, heq.symm⟩)
    simp [Scope.resolve, hnone] at hname
  have hbeq : (name == d.name) = false := by simpa using hne
  simpa [Scope.resolve, List.lookup_cons, hbeq] using hname

theorem opens {params : List Ty} {args : List ValueId} {s : State}
    (h : W.Compiled d t fn s₀ s₁ s₂ s₃) (hopens : Opens s₀ d params args t s)
    (he : Extends s.module W.module) (hv : v.target = t) (hfn : v.fn = fn)
    (hagree : Agree v.layout σ v.store) :
    ∃ fnₛ a st, s.module.func? t.func = some fnₛ ∧ fnₛ.entry = 1 ∧ fnₛ.current = 1 ∧
      W.Prologue v (fnₛ.code 1) a v.layout σ st := by
  subst hv hfn
  obtain ⟨fnₛ, hc, -, -, -, hcur, -⟩ := hopens.entering.code
  have hbegin := Prologue.begin (W := W) h.finished.ident h.finished.entry hagree
  obtain ⟨fn', hf', hcode⟩ := hopens.entry
  obtain rfl := Option.some.inj (hc.found.symm.trans hf')
  obtain ⟨fn', hf', hb⟩ := he.func hc.found
  obtain rfl := Option.some.inj (h.finished.found.symm.trans hf')
  obtain ⟨rest, hrest⟩ := hb.code 1
  have hlocals : ∀ x ∈ fnₛ.code 1, IsLocal W.module v.target.func x := by
    intro x hx
    rw [hcode, Option.mem_toList] at hx
    obtain ⟨w, hw, hrest⟩ := hopens.alloc x hx
    exact ⟨w, he.value hw, hrest⟩
  have hstart : (Activation.enter v.fn v.args).rest = fnₛ.code 1 ++ rest := by
    rw [Activation.enter, h.finished.entry, hrest]
  obtain ⟨a, st, -, -, hp⟩ := hbegin.allocs (h.finished.nodup_code 1) _ hstart hlocals
  exact ⟨fnₛ, a, st, hc.found, hc.entry, hcur, by rwa [List.nil_append] at hp⟩

theorem gets {params : List Ty} {args : List ValueId} {s : State}
    (hopens : Opens s₀ d params args t s) (he : Extends s.module W.module)
    (hlen : d.params.length = v.args.length) :
    List.Forall₂ (Prologue.Gets W v) (d.params.zip (params.zip args)) v.args := by
  have hparams : d.params.length = params.length := by
    obtain ⟨-, hlen, -⟩ := (gives_paramTys d.params).ok hopens.types
    exact hlen.symm
  have hargs := hopens.args.length_eq
  rw [List.length_zipIdx] at hargs
  refine List.forall₂_iff_get.mpr ⟨by simp only [List.length_zip]; omega, fun i hi hy => ?_⟩
  simp only [List.length_zip] at hi
  obtain ⟨w, hw, hnode, -⟩ :=
    hopens.args.get (i := i) (by omega) (by rw [List.length_zipIdx]; omega)
  refine ⟨i, ?_, by simp [List.getElem?_eq_getElem hy]⟩
  simp only [List.get_eq_getElem, List.getElem_zip, List.getElem_zipIdx, zero_add] at hw hnode ⊢
  exact hnode ▸ Module.node?_eq (he.value hw)

theorem grown (h : W.Compiled d t fn s₀ s₁ s₂ s₃) : Extends s₁.module s₂.module ∧
    Extends s₂.module W.module := by
  obtain ⟨-, -, -, -, -, he₃⟩ := h.lowered.completes
  obtain ⟨hp₂, -⟩ :=
    (lasts_lowerStmts h.lowered.begins.here h.lowered.within.targets d.body).ok h.lowered.body
  exact ⟨hp₂.grows.extends, he₃.trans h.lowered.grown⟩

theorem copies (h : W.Compiled d t fn s₀ s₁ s₂ s₃) :
    ∃ params args sₛ sₚ, Opens s₀ d params args t sₛ ∧
    lowerParams t.func (d.params.zip (params.zip args)) sₛ = .ok ((), sₚ) ∧
    Extends sₛ.module sₚ.module ∧
    Extends sₚ.module W.module ∧
    s₁ = { sₚ with module := sₚ.module.modifyFunc t.func fun fn => { fn with current := 3 } } := by
  obtain ⟨params, args, sₛ, sₚ, hopens, hparams, hset⟩ := h.lowered.begins.copies
  obtain rfl : { sₚ with module := sₚ.module.modifyFunc t.func fun fn => { fn with current := 3 } }
    = s₁ :=
    (Prod.mk.inj (Except.ok.inj hset)).2
  obtain ⟨heₚ, -⟩ := shields_lowerParams (x := 0) (m := W.module) _ hparams
  obtain ⟨fnₛ, hcₛ, -⟩ := hopens.entering.code
  obtain ⟨fnₚ, hfₚ, -⟩ := heₚ.func hcₛ.found
  obtain ⟨he₁, he₂⟩ := h.grown
  exact ⟨params, args, sₛ, sₚ, hopens, hparams, heₚ,
    Extends.trans (.modifyFunc hfₚ (fun fn => { fn with current := 3 })
    ⟨rfl, rfl, rfl, rfl, rfl, rfl, rfl, le_rfl, fun _ => List.prefix_rfl⟩) (he₁.trans he₂), rfl⟩

theorem isLocal_result (h : W.Compiled d t fn s₀ s₁ s₂ s₃) {x : ValueId} (hx : t.result = some x) :
    IsLocal W.module t.func x := by
  obtain ⟨params, args, sₛ, sₚ, hopens, -, heₚ, he, -⟩ := h.copies
  obtain ⟨w, hw, hrest⟩ := hopens.alloc x hx
  exact ⟨w, (heₚ.trans he).value hw, hrest⟩

theorem binds (h : W.Compiled d t fn s₀ s₁ s₂ s₃) (hv : v.target = t) (hfn : v.fn = fn)
    (hsize : v.size = s₁.module.values.size) (hpassed : List.Forall₂ (Passed v.layout) xs v.args)
    (hbase : (base W.module).Within v.layout) (hagree : Agree v.layout σ v.store)
    (hbind : bindParams (number (eval W.lib W.globals n W.globals)) W.globals d.params xs σ =
      some (env, σ₁)) :
    ∃ fn₁ a L' st', Body s₁.module t.func fn₁ ∧ fn₁.current = 3 ∧ fn₁.code 3 = [] ∧
    W.Prologue v (fn₁.code 1) a L' σ₁ st' ∧
      W.Names L' a s₁.scope env := by
  subst hv hfn
  obtain ⟨params, args, sₛ, sₚ, hopens, hparams, heₚ, he, rfl⟩ := h.copies
  obtain ⟨fn₁, hbody, -⟩ := h.lowered.begins.here.body
  obtain ⟨_, _, _, hentering, -⟩ := h.lowered.begins.entering
  obtain ⟨fn₁', hc₁, -, -, -, hcur, hempty, -⟩ := hentering.code
  obtain rfl := Option.some.inj (hbody.found.symm.trans hc₁.found)
  obtain ⟨fnₛ, a, st, hfₛ, hentry, hcurₛ, hp⟩ := h.opens hopens (heₚ.trans he) rfl rfl hagree
  have hlen : d.params.length = v.args.length :=
    (length_eq_of_bindParams _ hbind).trans hpassed.length_eq
  have htypes := paramsAre_of_paramTys d.params hopens.types
  have hresult : ∀ r, v.target.result = some r → r ≤ sₛ.module.values.size := by
    intro r hr
    obtain ⟨w, hw, -⟩ := hopens.alloc r hr
    exact (Module.bounds_of_value? hw).2
  have hargs := hopens.args.length_eq
  rw [List.length_zipIdx] at hargs
  have hmap : (d.params.zip (params.zip args)).map (·.1) = d.params :=
    List.map_fst_zip (by rw [List.length_zip, htypes.length_eq]; omega)
  have hparamIs : ∀ q ∈ d.params.zip (params.zip args), ParamIs s₀.scope q.1 q.2.1 := by
    intro q hq
    refine (List.forall₂_iff_zip.mp htypes).2 ?_
    have hfst : (params.zip args).map (·.1) = params := List.map_fst_zip hargs.ge
    rw [← hfst, List.zip_map_right]
    exact List.mem_map_of_mem hq
  -- the scope of the function has no names yet but the global ones
  have hnames : W.Names v.layout a sₛ.scope W.globals := by
    rw [hopens.scope]
    exact ((h.names a).within hbase).enter .function
  obtain ⟨fnₚ', a', L', st', hfₚ', hp', hwithin, hnames'⟩ :=
    Prologue.params (h.finished.nodup_code 1) h.finished.found h.consts
    _ hparams he hsize.ge hresult hfₛ hentry hcurₛ hp hnames hparamIs
      (gets hopens (heₚ.trans he) hlen) hpassed
    (by rw [hmap]; exact hbind)
  have hf₁ : fn₁ = { fnₚ' with current := 3 } := by
    have hfound :=
      Module.func?_modifyFunc sₚ.module (fun fn => { fn with current := 3 }) (g := v.target.func)
      (Module.bounds_of_func? hfₚ').1
    rw [if_pos rfl, hfₚ'] at hfound
    exact Option.some.inj (hbody.found.symm.trans hfound)
  exact ⟨fn₁, a', L', st', hbody, hcur, hempty 3 (by decide), hf₁ ▸ hp', hnames'⟩

theorem enters (h : W.Compiled d t fn s₀ s₁ s₂ s₃) (hpassed : List.Forall₂ (Passed L) xs ys)
    (hbase : (base W.module).Within L) (hagree : Agree L σ st)
    (hbind : bindParams (number (eval W.lib W.globals n W.globals)) W.globals d.params xs σ =
      some (env, σ₁)) (callers : List Activation) :
    ∃ a L' st', (W.setting callers).Leads (.running (.enter fn ys) callers st)
      (.running a callers st') ∧ (W.setting callers).Standing t s₁ a ∧ (W.setting callers).Led a ∧
      W.Fits t s₁.scope s₁.module.values.size a env L' σ₁ st' ∧ L.Within L' ∧ Stays st st' ∧
      ∀ k ∈ a.locals, st.next ≤ k := by
  let v : Visit := { callers, target := t, fn, args := ys, layout := L, store := st,
                     size := s₁.module.values.size }
  obtain ⟨fn₁, a₁, L', st₁, hbody, hcur, hempty, hp₁, hnames₁⟩ :=
    h.binds (v := v) rfl rfl rfl hpassed hbase hagree hbind
  -- the locals of the body
  obtain ⟨fn₂, hcoded₂, -, hcompletes, -, he₃⟩ := h.lowered.completes
  obtain ⟨he₁, he₂⟩ := h.grown
  obtain ⟨hpasses, -⟩ :=
    (lasts_lowerStmts h.lowered.begins.here h.lowered.within.targets d.body).ok h.lowered.body
  obtain ⟨fn₂', more, hbody₂, hcode₂, hmore⟩ := hpasses.grows.entry hbody
  obtain rfl := Option.some.inj (hbody₂.found.symm.trans hcoded₂.found)
  obtain ⟨j, w, hcode, hw, hjump⟩ := hcompletes.entry
  have hnode : W.module.node? j = some (.jump 3) :=
    hjump ▸ Module.node?_eq (h.lowered.grown.value hw)
  have hrest : a₁.rest = more ++ [j] := by
    have := hp₁.code
    rwa [hcode, hcode₂, List.append_assoc, List.append_cancel_left_eq, eq_comm] at this
  obtain ⟨a₂, st₂, hrest₂, hknows, hp₂⟩ :=
    hp₁.allocs (h.finished.nodup_code 1) more hrest fun x hx => (hmore x hx).extends he₂
  have hfound : W.module.func? a₂.func = some fn := hp₂.func ▸ h.finished.found
  have hleads := hp₂.leads _ (step_jump hfound hrest₂ hnode callers st₂)
  have hroom : W.Room t v.size a₂ L' st₂ :=
    h.room rfl rfl hp₂ (hcode₂ ▸ hcode) (by simp [hnode]) fun x hx => h.isLocal_result hx
  have hrooms : W.Room t s₁.module.values.size { a₂ with block := 3, rest := fn.code 3 } L' st₂ :=
    ⟨hroom.slot, hroom.apart, hroom.result⟩
  have hnames₂ : W.Names L' { a₂ with block := 3, rest := fn.code 3 } s₁.scope env :=
    hnames₁.knows ⟨hknows.args, hknows.env⟩
  have hstanding : (W.setting callers).Standing t s₁ { a₂ with block := 3, rest := fn.code 3 } :=
    ⟨hp₂.func, fn₁, fn, hbody.found, h.finished.found, hcur.symm, by simp [hcur, hempty]⟩
  have hled : (W.setting callers).Led { a₂ with block := 3, rest := fn.code 3 } :=
    ⟨fn, 1, j, w, hfound, by
      simp [hcode], h.lowered.grown.value hw, by simp [hjump, Node.successors]⟩
  exact ⟨_, L', st₂, hleads, hstanding, hled, ⟨hnames₂, hrooms, hp₂.agree, hbase.trans hp₂.within⟩,
    hp₂.within, hp₂.stays, hp₂.locals⟩

theorem leaves (h : W.Compiled d t fn s₀ s₁ s₂ s₃) (hled : (W.setting callers).Led a)
    (hends : W.Ends callers t [] s₁ a L st s₂ out σ') :
    W.Leaves callers t (some t.exit) [] s₁.module.values.size a L st out σ' := by
  rcases hends with ⟨rfl, a₂, st₂, hcross, ht⟩ | hleaves
  · obtain ⟨fn₂, hcoded₂, -, hcompletes, -, -⟩ := h.lowered.completes
    obtain ⟨hfunc, fn₂', fn', hf₂, hf', hblock, hcode⟩ := hcross.standing
    obtain rfl := Option.some.inj (hcoded₂.found.symm.trans hf₂)
    obtain rfl := Option.some.inj (h.finished.found.symm.trans hf')
    obtain ⟨fn', bb, id, v, hfound, hid, hv, hnext⟩ := hcross.led hled
    obtain rfl := Option.some.inj (hfound.symm.trans (hfunc ▸ hf'))
    obtain ⟨j, w, htail, hw, hjump⟩ := hcompletes.tail_of_led h.finished hid hv (hblock ▸ hnext)
    have hrest : a₂.rest = [j] := by
      rwa [htail, List.append_cancel_left_eq, eq_comm] at hcode
    have hw' := h.lowered.grown.value hw
    have hstep := step_jump hfound hrest (hjump ▸ Module.node?_eq hw') callers st₂
    refine ⟨t.exit, { a₂ with block := t.exit, rest := fn'.code t.exit }, st₂, rfl,
      ⟨hcross.leads.trans (leads_step hstep), ⟨hfunc, rfl, fn', hf', rfl⟩, ?_, ?_⟩, ht, trivial⟩
    · exact ⟨hcross.kept.func, hcross.kept.args, hcross.kept.locals, hcross.kept.env⟩
    · exact ⟨fn', fn₂.current, j, w, hfound, by simp [htail], hw', by simp [hjump, Node.successors]⟩
  · exact hleaves.abrupt _

theorem ret_eq (h : W.Compiled d t fn s₀ s₁ s₂ s₃) :
    fn.ret = if t.result.isSome then .i32 else .unit := by
  obtain ⟨params, args, ret, hentering, hret, -⟩ := h.lowered.begins.entering
  obtain ⟨fn₁, hc₁, hb₁, -⟩ := hentering.code
  rw [(h.lowered.before hc₁.found).2.ret, hb₁.ret]
  exact hret

theorem ret_of_isVoid (h : W.Compiled d t fn s₀ s₁ s₂ s₃) (hvoid : d.isVoid = true) :
    fn.ret = .unit := by
  obtain ⟨params, args, s, s', hopens, -⟩ := h.lowered.begins.copies
  have hnone := hopens.result.trans hvoid
  rw [h.ret_eq, if_neg (by simpa using hnone)]

theorem exits {r : Option Word} (h : W.Compiled d t fn s₀ s₁ s₂ s₃)
    (hent : (W.setting callers).Entered t t.exit a)
    (hslot : ∀ x, t.result = some x → ∃ r y, a.env x = some (.addr r 0) ∧ st.load r 0 = some y)
    (hanswer : Answers t a st out) (hr : out = .normal ∧ r = none ∨ out = .ret r) :
    ∃ b id val result,
      (W.setting callers).Leads (.running a callers st) (.running b callers st) ∧ b.func = t.func ∧
      b.block = fn.exit ∧ b.rest = [id] ∧
      W.module.node? id = some (.ret val) ∧ val.mapM (b.read W.module) = some result ∧
      (∀ w, r = some w → result = some (.word w)) ∧ (fn.ret = .unit → result = none) ∧
      b.locals = a.locals := by
  obtain ⟨fn₂, -, -, hcompletes, -⟩ := h.lowered.completes
  obtain ⟨before, id, v, val, hcode, hv, hret, hval⟩ := hcompletes.exit
  obtain ⟨hfunc, hblock, fn', hf', hrest⟩ := hent
  obtain rfl := Option.some.inj (hf'.symm.trans h.finished.found)
  have hexit := h.lowered.begins.exit
  rw [hexit, hcode] at hrest
  rw [hexit, ← h.finished.exit] at hblock
  have hnode : W.module.node? id = some (.ret val) :=
    hret ▸ Module.node?_eq (h.lowered.grown.value hv)
  have hword : ∀ w, r = some w → out = .ret (some w) := by
    rintro w rfl
    rcases hr with ⟨-, hnone⟩ | hout
    · cases hnone
    · exact hout
  -- a function without a result has only the return there; otherwise the slot of the result is read
  -- first
  rcases hval with ⟨hnone, rfl, rfl⟩ | ⟨slot, l, u, hresult, rfl, rfl, hu, hload⟩
  · refine ⟨a, id, none, none, .refl, hfunc, hblock, hrest, hnode, rfl, fun w hw => ?_,
      fun _ => rfl, rfl⟩
    rw [hword w hw] at hanswer
    obtain ⟨slot, r', hslot, -⟩ := hanswer
    rw [hnone] at hslot
    cases hslot
  · obtain ⟨r', y, henv, hy⟩ := hslot slot hresult
    have hlnode : W.module.node? l = some (.load slot) :=
      hload ▸ Module.node?_eq (h.lowered.grown.value hu)
    have hsrc : a.addr? W.module slot = some (r', 0) :=
      Activation.addr?_eq_some.mpr ((a.read_alloc (h.isLocal_result hresult).node).trans henv)
    have hstep : step W.module W.lib W.fill (.running a callers st) =
        some (.running { a.set l y with rest := [id] } callers st) := by
      rw [show step W.module W.lib W.fill (.running a callers st) = _ from
        Setting.step_eq (k := W.setting callers) hrest hlnode (by simp) callers st]
      have hsrc' : ({ a with rest := [id] } : Activation).addr? W.module slot = some (r', 0) := hsrc
      change Ir.exec W.module W.lib l { a with rest := [id] } callers st (.load slot) = _
      simp only [Ir.exec, hsrc', hy, Option.bind_eq_bind, Option.bind_some]
      rfl
    have hread : ({ a.set l y with rest := [id] } : Activation).read W.module l = some y := by
      simp [Activation.read, hlnode, Activation.set]
    refine ⟨_, id, some l, some y, leads_step hstep, hfunc, hblock, rfl, hnode,
      congrArg (Option.map some) hread, fun w hw => ?_, fun hunit => ?_, rfl⟩
    · rw [hword w hw] at hanswer
      obtain ⟨slot', r₁, hslot', henv', hw'⟩ := hanswer
      obtain rfl := Option.some.inj (hresult.symm.trans hslot')
      cases henv.symm.trans henv'
      exact hy.symm.trans hw'
    · rw [h.ret_eq, hresult] at hunit
      cases hunit

end Compiled

theorem CallOk.succ
    (hcode : ∀ g d, W.code g d → ∃ t fn s₀ s₁ s₂ s₃, t.func = g ∧ W.Compiled d t fn s₀ s₁ s₂ s₃)
    (hall : W.ExecAllOk n) : W.CallOk (n + 1) := by
  intro g d xs ys L σ st r σ' hd h hpassed hbase hagree
  obtain ⟨t, fn, s₀, s₁, s₂, s₃, rfl, hc⟩ := hcode g d hd
  obtain ⟨env, out, σ₁, hbind, hbody, hr⟩ := call_some h
  refine ⟨fn, hc.finished.found, hc.finished.isDeclared, fun callers => ?_⟩
  obtain ⟨a₁, L', st₁, hleads₁, hstanding, hled, hfits, hwithin, hstays, hlocals⟩ :=
    hc.enters hpassed hbase hagree hbind callers
  have hends := hall hc.plain hfits hc.lowered.begins.here hc.lowered.within.targets hc.lowered.body
    hc.grown.2 hstanding hbody
  obtain ⟨bb, a₂, st₂, haim, ha, ht, hanswer⟩ := hc.leaves hled hends
  obtain rfl : t.exit = bb := by
    rcases hr with ⟨rfl, -⟩ | rfl <;> exact Option.some.inj haim
  -- the slot of the result is still there
  have hslot (x : ValueId) (hx : t.result = some x) : ∃ r y, a₂.env x = some (.addr r 0) ∧
    st₂.load r 0 = some y := by
    have hlocal := hc.isLocal_result hx
    obtain ⟨r', vals, henv, -, hmem, hlen⟩ := hfits.room.slot x ⟨hlocal, .inr hx⟩
    obtain ⟨vals', hmem', hlen'⟩ := ht.stays.room r' vals hmem
    have hty : W.module.tyOf x = .ptr .i32 := by
      obtain ⟨he₁, he₂⟩ := hc.grown
      exact ((he₁.trans he₂).readable (hc.lowered.begins.here.result x hx)).tyOf_eq
    rw [hty] at hlen
    have hone : vals'.length = 1 := hlen'.trans hlen
    exact ⟨r', vals'[0], (ha.kept.env x (.inr hlocal.node)).trans henv,
      (Store.load_eq (i := 0) hmem').trans (by simp [hone])⟩
  obtain ⟨b, id, val, result, hleads₃, hfunc, hblock, hrest, hnode, hresult, hword, hunit,
    hlocals₃⟩ :=
    hc.exits ha.entered hslot hanswer hr
  have hstays₂ := hstays.trans ht.stays
  have hnew : ∀ k ∈ b.locals, st.next ≤ k := fun k hk => hlocals k (ha.kept.locals ▸ hlocals₃ ▸ hk)
  obtain ⟨hagree', hstays'⟩ := hagree.free (ht.agree.within hwithin) hstays₂ hnew
  exact ⟨b, st₂, id, val, result, (hleads₁.trans ha.leads).trans hleads₃, hfunc, hblock, hrest,
    hnode, hresult, hword, hunit, hagree',
    hstays'⟩

theorem CallOk.zero : W.CallOk 0 := by
  intro g d xs ys L σ st r σ' hd h
  rw [call] at h
  exact (failure_some.mp h).elim

theorem ExecOk.zero : W.ExecOk 0 := by
  intro t loops x P s s' a env env' out L σ σ' st callers hplain hfits hat hloops hrun he hs h
  rw [exec] at h
  exact (failure_some.mp h).elim

theorem ExecAllOk.zero : W.ExecAllOk 0 := by
  intro t loops xs P s s' a env out L σ σ' st callers hplain hfits hat hloops hrun he hs h
  rw [execAll] at h
  exact (failure_some.mp h).elim

theorem IterOk.zero : W.IterOk 0 := by
  intro t loops test body s s' a env out L σ σ' st callers c hplain hdecl hfits hent he h
  rw [iterate] at h
  exact (failure_some.mp h).elim

/-- The code goes along with every evaluation, however much fuel that has. -/
theorem all_ok
    (hcode : ∀ g d, W.code g d → ∃ t fn s₀ s₁ s₂ s₃, t.func = g ∧ W.Compiled d t fn s₀ s₁ s₂ s₃)
    (n : Nat) :
    W.EvalOk n ∧ W.CallOk n ∧ W.ExecOk n ∧ W.ExecAllOk n ∧ W.IterOk n := by
  induction n with
  | zero => exact ⟨.zero, .zero, .zero, .zero, .zero⟩
  | succ n ih =>
    obtain ⟨hev, hcall, hexec, hall, hiter⟩ := ih
    exact ⟨hev.succ hcall, .succ hcode hall, .succ hev hexec hall hiter, .succ hexec hall,
      .succ hev hexec hiter⟩

end World

end Sysy.Meaning
