import Sysy.Proofs.Constancy.Globals
import Sysy.Proofs.Meaning.Statements

/-!
The entry of a function. It makes room for all locals of the function, and copies the arguments into
the slots of the parameters. Behind it, names stand for what they stand for when an evaluation has
bound the parameters.
-/

namespace Sysy.Ir

variable {m m' : Module} {fill : Nat → Nat → Word} {f : FuncId} {x : ValueId}

theorem IsLocal.extends (h : IsLocal m f x) (he : Extends m m') : IsLocal m' f x := by
  obtain ⟨v, hv, hrest⟩ := h
  exact ⟨v, he.value hv, hrest⟩

/-- What is left of a block plays no part when locals are reserved. -/
theorem reserve_rest (ids : List ValueId) (a : Activation) (st : Store) (rest : List ValueId) :
    reserve m fill ids { a with rest } st = reserve m fill ids a st := by
  induction ids generalizing a st with
  | nil => rfl
  | cons id ids ih =>
    rw [reserve, reserve]
    split
    · exact ih (a.own id st.next) _
    · rfl

/-- A step from a local is a step from behind it, where the local has storage. -/
theorem exists_step_own (lib : Library) (fill : Nat → Nat → Word) {a : Activation}
    {rest : List ValueId} (hrest : a.rest = x :: rest) (hx : m.node? x = some .alloc)
    (callers : List Activation) (st : Store) :
    ∃ vals, vals.length = ((m.tyOf x).elem.size / 4).toNat ∧
      step m lib fill (.running a callers st) =
        step m lib fill (.running { a.own x st.next with rest } callers (st.reserve vals)) := by
  refine ⟨(List.range ((m.tyOf x).elem.size / 4).toNat).map fun i => .word (fill st.next i),
    by simp, ?_⟩
  simp only [step, hrest, reserve, if_pos hx, reserve_rest]

structure Knows (a a' : Activation) : Prop where
  args : a'.args = a.args
  env : ∀ x y, a.env x = some y → a'.env x = some y

namespace Knows
variable {a a' a'' : Activation}

theorem refl (a : Activation) : Knows a a := ⟨rfl, fun _ _ h => h⟩

theorem trans (h : Knows a a') (h' : Knows a' a'') : Knows a a'' :=
  ⟨h'.args.trans h.args, fun x y hy => h'.env x y (h.env x y hy)⟩

theorem read (h : Knows a a') {y : Val} (hy : a.read m x = some y) : a'.read m x = some y := by
  obtain ⟨node, hnode, hy⟩ := Option.bind_eq_some_iff.mp hy
  simp only [Activation.read, hnode, Option.bind_eq_bind, Option.bind_some]
  cases node with
  | integer | «global» => exact hy
  | arg i => rw [h.args]; exact hy
  | _ => exact h.env x y hy

end Knows

theorem Build.alloc_insert {fn : Func} {ty : Ty} {name : String} (hf : m.func? f = some fn) :
    Build.alloc f ty name m = Build.insert f fn.entry .alloc (.ptr ty) name m := by
  simp only [Build.alloc, bind, StateT.bind, get, getThe, MonadStateOf.get, StateT.get, pure,
    Except.pure, Except.bind, hf,
    Option.map_some, Option.getD_some]

theorem Build.emit_insert {fn : Func} {node : Node} {ty : Ty} (hf : m.func? f = some fn) :
    Build.emit f node ty m = Build.insert f fn.current node ty "" m := by
  simp only [Build.emit, bind, StateT.bind, Build.current_eq hf, Except.bind]

end Sysy.Ir

namespace Sysy.Lowering
open Ir

variable {s s' : State} {m m' : Module} {f : FuncId} {fn : Func}

theorem code_of_insert {bb : BlockId} {node : Node} {ty : Ty} {name : String} {y : Build ValueId}
    {id : ValueId} (hrun : build y s = .ok (id, s'))
    (hy : y s.module = Build.insert f bb node ty name s.module) (hf : s.module.func? f = some fn) :
    ∃ fn', s'.module.func? f = some fn' ∧ fn'.code bb = fn.code bb ++ [id] ∧
      fn'.entry = fn.entry ∧ fn'.current = fn.current ∧
      s'.module.value? id = some { node, ty, name, func := f, block := bb } := by
  obtain ⟨⟨fn', b, hf', hb, -⟩, rfl, hm⟩ := Build.insert_ok.mp (hy.symm.trans (build_ok.mp hrun).1)
  obtain rfl := Option.some.inj (hf.symm.trans hf')
  rw [hm]
  refine ⟨_, (Module.func?_append _ _ hf).trans (if_pos rfl), ?_, rfl, rfl,
    (Module.value?_append ..).trans (if_pos rfl)⟩
  exact (Func.code_push hb).trans (if_pos rfl)

theorem Grows.entry (hg : Grows f m m') (h : Body m f fn) :
    ∃ fn' more, Body m' f fn' ∧ fn'.code 1 = fn.code 1 ++ more ∧
    ∀ x ∈ more, IsLocal m' f x := by
  induction hg with
  | refl => exact ⟨fn, [], h, by simp, by simp⟩
  | @tail m₁ _ _ hs ih =>
    obtain ⟨fn₁, more, h₁, hcode, hmore⟩ := ih
    have he := hs.extends
    have hold := fun x hx => (hmore x hx).extends he
    cases hs with
    | constant w =>
      exact ⟨fn₁, more, h₁.add (Nat.ne_of_lt (Module.bounds_of_func? h₁.found).1), hcode, hold⟩
    | label hf hname => exact ⟨_, more, h₁.label hname, (Func.code_addBlock _).trans hcode, hold⟩
    | start hf hended hbb hsize hplaced hexit =>
      obtain rfl := Option.some.inj (h₁.found.symm.trans hf)
      exact ⟨_, more, h₁.start hended hbb hsize hplaced hexit, hcode, hold⟩
    | @inst _ v hf hfunc htakes hblock hok =>
      obtain rfl := Option.some.inj (h₁.found.symm.trans hf)
      have hbody := h₁.close hfunc htakes hblock hok
      have hpush := Coded.code_close (v := v) (m₁.values.size + 1) htakes hf 1
      by_cases hentry : 1 = v.block
      · -- what is added to the entry is a local, as code goes on elsewhere
        have halloc : v.node = .alloc := hblock.resolve_left fun hcur =>
          h₁.current_ne (hcur.symm.trans hentry.symm)
        refine ⟨_, more ++ [m₁.values.size + 1], hbody, hpush.trans ?_, fun x hx => ?_⟩
        · rw [if_pos hentry, hcode, List.append_assoc]
        · rcases List.mem_append.mp hx with hx | hx
          · exact hold x hx
          · rw [List.mem_singleton.mp hx]
            exact ⟨v, (Module.value?_close ..).trans (if_pos rfl), halloc, hfunc⟩
      · exact ⟨_, more, hbody, hpush.trans ((if_neg hentry).trans hcode), hold⟩

def ParamIs (scope : Scope Binding) (p : Param) (ty : Ty) : Prop :=
  match p.dims with
  | none => ty = .i32
  | some es => ∃ ds, foldDims scope 1 es = .ok ds ∧ ty = .ptr (.ofDims ds)

theorem ParamIs.size {scope : Scope Binding} {p : Param} {ty : Ty} (h : ParamIs scope p ty) :
    (ty.size / 4).toNat = 1 := by
  unfold ParamIs at h
  split at h
  · rw [h]
    rfl
  · obtain ⟨ds, -, rfl⟩ := h
    rfl

theorem paramIs_of_paramTy {p : Param} {ty : Ty} (hrun : paramTy p s = .ok (ty, s')) :
    ParamIs s.scope p ty ∧ s = s' := by
  cases hdims : p.dims with
  | none =>
    rw [paramTy, hdims] at hrun
    rw [ParamIs, hdims]
    exact (pure_ok.mp hrun).imp_left Eq.symm
  | some es =>
    rw [paramTy, hdims] at hrun
    rw [ParamIs, hdims]
    obtain ⟨ds, s₁, hds, hpure⟩ := bind_ok.mp hrun
    obtain ⟨hfold, rfl⟩ := dimsOf_ok.mp hds
    obtain ⟨rfl, rfl⟩ := pure_ok.mp hpure
    exact ⟨⟨ds, hfold, rfl⟩, rfl⟩

theorem paramsAre_of_paramTys (ps : List Param) :
    ∀ {s' : State} {tys : List Ty}, ps.mapM paramTy s = .ok (tys, s') →
    List.Forall₂ (ParamIs s.scope) ps tys := by
  induction ps with
  | nil =>
    intro s' tys hrun
    obtain ⟨rfl, -⟩ := pure_ok.mp hrun
    exact .nil
  | cons p ps ih =>
    intro s' tys hrun
    rw [List.mapM_cons] at hrun
    obtain ⟨ty, s₁, hty, hrun⟩ := bind_ok.mp hrun
    obtain ⟨tys, s₂, htys, hpure⟩ := bind_ok.mp hrun
    obtain ⟨rfl, -⟩ := pure_ok.mp hpure
    obtain ⟨hp, rfl⟩ := paramIs_of_paramTy hty
    exact .cons hp (ih htys)

end Sysy.Lowering

namespace Sysy.Meaning
open Ir Lowering

structure Visit where
  callers : List Activation
  target : Target
  fn : Func
  args : List Val
  layout : Layout
  store : Store
  /-- The number of values where the body begins. -/
  size : Nat

namespace World

/-- The call has gone through the part `done` of the entry. The locals in it have regions of their
own, and those that are not used before the body are vacant. -/
structure Prologue (W : World) (v : Visit) (done : List ValueId) (a : Activation) (L : Layout)
    (σ : Memory) (st : Store) : Prop where
  func : a.func = v.target.func
  block : a.block = 1
  args : a.args = v.args
  code : v.fn.code 1 = done ++ a.rest
  leads : ∀ c, step W.module W.lib W.fill (.running a v.callers st) = some c →
    (W.setting v.callers).Leads (.running (.enter v.fn v.args) v.callers v.store) c
  locals : ∀ k ∈ a.locals, v.store.next ≤ k
  fresh : ∀ x, x ∉ done → a.env x = none
  env : ∀ x ∈ done, IsLocal W.module v.target.func x → ∃ k, a.env x = some (.addr (.local k) 0) ∧
    k < st.next
  apart : ∀ x ∈ done, ∀ y ∈ done, IsLocal W.module v.target.func x →
    IsLocal W.module v.target.func y →
    a.env x = a.env y → x = y
  vacant : ∀ x ∈ done, W.Unused v.target v.size x → ∀ r, a.env x = some (.addr r 0) → L.Spare r ∧
    ∃ vals, st.mem r = some vals ∧ vals.length = ((W.module.tyOf x).elem.size / 4).toNat
  agree : Agree L σ st
  within : v.layout.Within L
  stays : Stays v.store st

variable {W : World} {v : Visit} {done rest : List ValueId} {a a' : Activation} {L L' : Layout}
  {σ σ' : Memory} {st st' : Store}
  {x id arg : ValueId} {y : Val} {scope : Scope Binding} {env : Env} {b : Binding} {r : Referent}

theorem Names.knows (h : W.Names L a scope env) (hk : Knows a a') : W.Names L a' scope env :=
  h.imp (.refl L) fun _ _ _ hx => hk.read hx

theorem leads_step {callers : List Activation} {c c' : Config}
    (h : step W.module W.lib W.fill c = some c') :
    (W.setting callers).Leads c c' := by
  refine .single ⟨?_, h⟩
  cases c with
  | done => cases h
  | running a outer st =>
    simp only [step] at h
    cases hrest : a.rest with
    | nil =>
      rw [hrest] at h
      cases h
    | cons id rest =>
      cases hnode : W.module.node? id with
      | some node => exact ⟨id, rest, node, hrest, hnode, trivial⟩
      | none =>
        simp [hrest, reserve, hnode] at h

namespace Prologue

theorem begin (hfunc : v.fn.id = v.target.func) (hentry : v.fn.entry = 1)
    (hagree : Agree v.layout σ v.store) :
    W.Prologue v [] (.enter v.fn v.args) v.layout σ v.store where
  func := hfunc
  block := hentry
  args := rfl
  code := by rw [List.nil_append, Activation.enter, hentry]
  leads c hc := leads_step hc
  locals k hk := by cases hk
  fresh x _ := rfl
  env x hx := by cases hx
  apart x hx := by cases hx
  vacant x hx := by cases hx
  agree := hagree
  within := .refl _
  stays := .refl _

theorem alloc (h : W.Prologue v done a L σ st) (hnodup : (v.fn.code 1).Nodup)
    (hrest : a.rest = x :: rest) (hx : IsLocal W.module v.target.func x) :
    ∃ vals, vals.length = ((W.module.tyOf x).elem.size / 4).toNat ∧
      Knows a { a.own x st.next with rest } ∧
      W.Prologue v (done ++ [x]) { a.own x st.next with rest } L σ (st.reserve vals) := by
  obtain ⟨vals, hlen, hstep⟩ := exists_step_own W.lib W.fill hrest hx.node v.callers st
  have hnew : x ∉ done := by
    rw [h.code, hrest] at hnodup
    exact fun hmem => (List.disjoint_of_nodup_append hnodup) hmem (List.mem_cons_self ..)
  have hself : (a.own x st.next).env x = some (.addr (.local st.next) 0) :=
    Activation.env_set_self ..
  have hother (z : ValueId) (hz : z ≠ x) : (a.own x st.next).env z = a.env z :=
    Activation.env_set_of_ne _ _ hz
  have hcases (z : ValueId) (hz : z ∈ done ++ [x]) : z = x ∨ z ≠ x ∧ z ∈ done := by
    rcases List.mem_append.mp hz with hz | hz
    · exact .inr ⟨fun heq => hnew (heq ▸ hz), hz⟩
    · exact .inl (List.mem_singleton.mp hz)
  -- the new region is none of the old ones
  have happart (z : ValueId) (hz : z ∈ done) (hlocal : IsLocal W.module v.target.func z) :
      a.env z ≠ some (.addr (.local st.next) 0) := by
    obtain ⟨k, hk, hlt⟩ := h.env z hz hlocal
    rw [hk]
    intro heq
    cases heq
    exact absurd hlt (lt_irrefl _)
  refine ⟨vals, hlen, ⟨rfl, fun z y hy => ?_⟩, ?_⟩
  · have hne : z ≠ x := by
      rintro rfl
      rw [h.fresh z hnew] at hy
      cases hy
    exact (hother z hne).trans hy
  exact {
    func := h.func
    block := h.block
    args := h.args
    code := by rw [h.code, hrest, List.append_assoc]; rfl
    leads := fun c hc => h.leads c (hstep.trans hc)
    locals := fun k hk => by
      rcases List.mem_cons.mp hk with rfl | hk
      · exact h.stays.next
      · exact h.locals k hk
    fresh := fun z hz => by
      rw [List.mem_append, not_or, List.mem_singleton] at hz
      exact (hother z hz.2).trans (h.fresh z hz.1)
    env := fun z hz hlocal => by
      rcases hcases z hz with rfl | ⟨hne, hz⟩
      · exact ⟨st.next, hself, Nat.lt_succ_self _⟩
      · obtain ⟨k, hk, hlt⟩ := h.env z hz hlocal
        exact ⟨k, (hother z hne).trans hk, Nat.lt_succ_of_lt hlt⟩
    apart := fun z hz u hu hlocal hlocal' heq => by
      change (a.own x st.next).env z = (a.own x st.next).env u at heq
      rcases hcases z hz with hzx | ⟨hne, hz⟩ <;> rcases hcases u hu with hux | ⟨hne', hu⟩
      · exact hzx.trans hux.symm
      -- one of the two is the new local: what it stands for is no region of an old one
      · rw [hzx, hself, hother u hne'] at heq
        exact absurd heq.symm (happart u hu hlocal')
      · rw [hux, hself, hother z hne] at heq
        exact absurd heq (happart z hz hlocal)
      · rw [hother z hne, hother u hne'] at heq
        exact h.apart z hz u hu hlocal hlocal' heq
    vacant := fun z hz hunused r hr => by
      change (a.own x st.next).env z = _ at hr
      rcases hcases z hz with rfl | ⟨hne, hz⟩
      · rw [hself] at hr
        cases hr
        exact ⟨h.agree.spare_next, vals, by simp [Store.reserve], hlen⟩
      · rw [hother z hne] at hr
        obtain ⟨hspare, vals', hmem, hlen'⟩ := h.vacant z hz hunused r hr
        obtain ⟨vals'', hmem', hlen''⟩ := (h.agree.stays_reserve vals).room r vals' hmem
        exact ⟨hspare, vals'', hmem', hlen''.trans hlen'⟩
    agree := h.agree.reserve vals
    within := h.within
    stays := h.stays.trans (h.agree.stays_reserve vals) }

theorem layout (h : W.Prologue v done a L σ st) (hw : L.Within L') (hagree : Agree L' σ' st)
    (hspare : ∀ x ∈ done, W.Unused v.target v.size x → ∀ r, a.env x = some (.addr r 0) → L.Spare r →
      L'.Spare r) : W.Prologue v done a L' σ' st :=
  { h with
    vacant := fun x hx hunused r hr =>
      (h.vacant x hx hunused r hr).imp_left (hspare x hx hunused r hr)
    agree := hagree
    within := h.within.trans hw }

theorem copy {r : Region} {vals : List Val} (h : W.Prologue v done a L σ st)
    (hrest : a.rest = id :: rest) (hnode : W.module.node? id = some (.store arg x))
    (harg : a.read W.module arg = some y) (hx : a.read W.module x = some (.addr r 0))
    (hspare : L.Spare r) (hmem : st.mem r = some vals) (hlen : vals.length = 1) :
    W.Prologue v (done ++ [id]) { a with rest } L σ
      { st with mem := Function.update st.mem r (some [y]) } := by
  have hset : vals.set 0 y = [y] := by
    obtain ⟨z, rfl⟩ := List.length_eq_one_iff.mp hlen
    rfl
  have hstore : st.store r 0 y = some { st with mem := Function.update st.mem r (some [y]) } := by
    rw [← hset]
    exact Store.store_eq hmem (i := 0) (by omega) y
  have hexec : step W.module W.lib W.fill (.running a v.callers st) =
      some (.running { a with rest } v.callers
        { st with mem := Function.update st.mem r (some [y]) }) := by
    rw [show step W.module W.lib W.fill (.running a v.callers st) = _ from
      Setting.step_eq (k := W.setting v.callers) hrest hnode (by simp) v.callers st]
    have harg' : ({ a with rest } : Activation).read W.module arg = some y := harg
    have hx' : ({ a with rest } : Activation).addr? W.module x = some (r, 0) :=
      Activation.addr?_eq_some.mpr hx
    change Ir.exec W.module W.lib id { a with rest } v.callers st (.store arg x) = _
    simp only [Ir.exec, harg', hx', hstore, Option.bind_eq_bind, Option.bind_some]
    rfl
  have hnot : ¬ IsLocal W.module v.target.func id := by
    intro hlocal
    cases hlocal.node.symm.trans hnode
  -- a copy is no local, so nothing changes for the locals that are there
  have hold (z : ValueId) (hz : z ∈ done ++ [id]) (hlocal : IsLocal W.module v.target.func z) :
    z ∈ done := by
    rcases List.mem_append.mp hz with hz | hz
    · exact hz
    · exact absurd (List.mem_singleton.mp hz ▸ hlocal) hnot
  have hstays : Stays st { st with mem := Function.update st.mem r (some [y]) } :=
    Stays.update hmem (by simp [hlen])
  exact {
    func := h.func
    block := h.block
    args := h.args
    code := by rw [h.code, hrest, List.append_assoc]; rfl
    leads := fun c hc => (h.leads _ hexec).trans (leads_step hc)
    locals := h.locals
    fresh := fun z hz => h.fresh z fun hmem => hz (List.mem_append_left _ hmem)
    env := fun z hz hlocal => h.env z (hold z hz hlocal) hlocal
    apart := fun z hz u hu hlocal hlocal' =>
      h.apart z (hold z hz hlocal) u (hold u hu hlocal') hlocal hlocal'
    vacant := fun z hz hunused r' hr' => by
      obtain ⟨hspare', vals', hmem', hlen'⟩ := h.vacant z (hold z hz hunused.1) hunused r' hr'
      obtain ⟨vals'', hmem'', hlen''⟩ := hstays.room r' vals' hmem'
      exact ⟨hspare', vals'', hmem'', hlen''.trans hlen'⟩
    agree := h.agree.scratch hspare hmem
    within := h.within
    stays := h.stays.trans hstays }

theorem param (h : W.Prologue v done a L σ st) (hnodup : (v.fn.code 1).Nodup)
    (hrest : a.rest = x :: id :: rest) (hx : IsLocal W.module v.target.func x)
    (hused : ¬ W.Unused v.target v.size x) (hsize : ((W.module.tyOf x).elem.size / 4).toNat = 1)
    (hnode : W.module.node? id = some (.store arg x)) (harg : a.read W.module arg = some y) :
    ∃ a' st' r, a'.rest = rest ∧ Knows a a' ∧ a'.read W.module x = some (.addr r 0) ∧
      L.Spare r ∧ st'.mem r = some [y] ∧ Agree L σ st' ∧ ∀ L' σ', L.Within L' → Agree L' σ' st' →
        (∀ r', r' ≠ r → L.Spare r' → L'.Spare r') → W.Prologue v (done ++ [x] ++ [id]) a' L'
          σ' st' := by
  obtain ⟨vals, hlen, hknows, h₁⟩ := h.alloc hnodup hrest hx
  have henv : ({ a.own x st.next with rest := id :: rest } : Activation).env x =
    some (.addr (.local st.next) 0) :=
    Activation.env_set_self ..
  have hmem : (st.reserve vals).mem (.local st.next) = some vals := by simp [Store.reserve]
  have h₂ := h₁.copy rfl hnode (hknows.read harg) ((Activation.read_alloc hx.node _).trans henv)
    h.agree.spare_next hmem
    (hlen.trans hsize)
  refine ⟨{ a.own x st.next with rest := rest }, _, .local st.next, rfl, ⟨hknows.args, hknows.env⟩,
    (Activation.read_alloc hx.node _).trans henv,
    h.agree.spare_next, by
      simp, h₂.agree, fun L' σ' hw hagree hspare => h₂.layout hw hagree fun z hz hunused r hr => ?_⟩
  refine hspare r ?_
  rintro rfl
  have hxmem : x ∈ done ++ [x] ++ [id] := by simp
  exact hused (h₂.apart z hz x hxmem hunused.1 hx (hr.trans henv.symm) ▸ hunused)

theorem bind {p : Param} {ty : Ty} {c : Value} {k : Nat} {rf : Referent}
    (h : W.Prologue v done a L σ st) (hnodup : (v.fn.code 1).Nodup)
    (hrest : a.rest = x :: id :: rest) (hx : IsLocal W.module v.target.func x)
    (hused : ¬ W.Unused v.target v.size x) (hty : W.module.tyOf x = .ptr ty)
    (hp : ParamIs scope p ty) (hconsts : ConstsAgree scope W.globals)
    (hnode : W.module.node? id = some (.store arg x)) (harg : a.read W.module arg = some y)
    (hpassed : Passed v.layout c y)
    (href : paramReferent (number (eval W.lib W.globals k W.globals)) p c σ = some (rf, σ')) :
    ∃ a' L' st', a'.rest = rest ∧ Knows a a' ∧ L.Within L' ∧ W.Refers L' a' (.var x false) rf ∧
      W.Prologue v (done ++ [x] ++ [id]) a' L' σ' st' := by
  have hsize : ((W.module.tyOf x).elem.size / 4).toNat = 1 := by
    rw [hty]
    exact hp.size
  obtain ⟨a', st', r, hrest', hknows, hread, hspare, hmem, hagree, hafter⟩ :=
    h.param hnodup hrest hx hused hsize hnode harg
  have hpassed' := hpassed.within h.within
  unfold paramReferent at href
  unfold ParamIs at hp
  cases hdims : p.dims with
  | none =>
    rw [hdims] at href hp
    cases hpassed' with
    | array => exact (failure_some.mp href).elim
    | number w =>
      obtain ⟨o, σ₁, hnew, hpure⟩ := bind_some.mp href
      obtain ⟨rfl, rfl⟩ := new_some.mp hnew
      obtain ⟨rfl, rfl⟩ := pure_some.mp hpure
      have hwithin : L.Within (L.put σ.objects.length r) := Layout.within_put hagree.place_next r
      refine ⟨a', _, st', hrest', hknows, hwithin, .object (.inl hx.node) hread
        (Layout.place_put_self ..) rfl ?_,
        hafter _ _ hwithin (hagree.put hspare hmem (.words [w])) fun r' hne hs => hs.put _ hne⟩
      rw [hty, hp]
      rfl
  | some es =>
    rw [hdims] at href hp
    cases hpassed' with
    | number => exact (failure_some.mp href).elim
    | @array l r' hplace =>
      obtain ⟨ds, σ₁, hshape, hpure⟩ := bind_some.mp href
      obtain ⟨rfl, rfl⟩ := pure_some.mp hpure
      obtain ⟨ds', hfold, rfl⟩ := hp
      obtain ⟨rfl, rfl⟩ := shape_of_foldDims hconsts es hfold hshape
      have hwithin : L.Within (L.pin r (.addr r' (4 * l.offset))) := Layout.within_pin hspare.pins _
      exact ⟨a', _, st', hrest', hknows, hwithin,
        .pointer (.inl hx.node) hread (Layout.pins_pin_self ..) hplace rfl hty,
        hafter _ _ hwithin (hagree.pin hspare hmem) fun r' hne hs => hs.pin _ hne⟩

def Gets (W : World) (v : Visit) (q : Param × Ty × ValueId) (y : Val) : Prop :=
  ∃ i, W.module.node? q.2.2 = some (.arg i) ∧ v.args[i]? = some y

theorem params {k : Nat} (hnodup : (v.fn.code 1).Nodup)
    (hfn : W.module.func? v.target.func = some v.fn) (hconsts : ConstsAgree scope W.globals)
    (qs : List (Param × Ty × ValueId)) : ∀ {s s' : State} {fn₁ : Func}
    {a : Activation} {L : Layout} {σ σ' : Memory} {st : Store} {env env' : Env} {cs : List Value}
    {ys : List Val},
    lowerParams v.target.func qs s = .ok ((), s') → Extends s'.module W.module →
    s'.module.values.size ≤ v.size →
    (∀ r, v.target.result = some r → r ≤ s.module.values.size) →
    s.module.func? v.target.func = some fn₁ →
    fn₁.entry = 1 → fn₁.current = 1 → W.Prologue v (fn₁.code 1) a L σ st → W.Names L a s.scope env →
    (∀ q ∈ qs, ParamIs scope q.1 q.2.1) → List.Forall₂ (Gets W v) qs ys →
    List.Forall₂ (Passed v.layout) cs ys →
    bindParams (number (eval W.lib W.globals k W.globals)) env (qs.map (·.1)) cs σ =
      some (env', σ') →
    ∃ fn' a' L' st', s'.module.func? v.target.func = some fn' ∧
    W.Prologue v (fn'.code 1) a' L' σ' st' ∧
      L.Within L' ∧ W.Names L' a' s'.scope env' := by
  induction qs with
  | nil =>
    intro s s' fn₁ a L σ σ' st env env' cs ys hrun he hsize hresult hf hentry hcur h hnames htys
      hgets hpassed hbind
    obtain ⟨-, rfl⟩ := pure_ok.mp hrun
    cases hgets
    cases hpassed
    obtain ⟨rfl, rfl⟩ := pure_some.mp hbind
    exact ⟨fn₁, a, L, st, hf, h, .refl L, hnames⟩
  | cons q qs ih =>
    intro s s' fn₁ a L σ σ' st env env' cs ys hrun he hsize hresult hf hentry hcur h hnames htys
      hgets hpassed hbind
    obtain ⟨p, ty, arg⟩ := q
    cases hgets with
    | @cons _ y _ ys hget hgets =>
    cases hpassed with
    | @cons c _ cs _ hc hpassed =>
    obtain ⟨i, harg, hy⟩ := hget
    rw [List.map_cons, bindParams] at hbind
    obtain ⟨rf, σ₁, href, hbind⟩ := bind_some.mp hbind
    rw [lowerParams] at hrun
    obtain ⟨slot, s₁, halloc, hrun⟩ := bind_ok.mp hrun
    obtain ⟨copy, s₂, hstore, hrun⟩ := bind_ok.mp hrun
    obtain ⟨⟨⟩, s₃, hdefine, hrun⟩ := bind_ok.mp hrun
    obtain ⟨scope', hdef, rfl⟩ := define_ok.mp hdefine
    obtain ⟨he₃, -⟩ := shields_lowerParams (x := 0) (m := W.module) qs hrun
    have heₛ := he₃.trans he
    -- the slot and the copy are the next two instructions of the entry
    obtain ⟨hscope₁, he₁, hslot, hsize₁, -⟩ := of_insert halloc (Build.alloc_insert hf)
    obtain ⟨fn₂, hf₂, hcode₂, hentry₂, hcur₂, hvalue₂⟩ :=
      code_of_insert halloc (Build.alloc_insert hf) hf
    obtain ⟨hscope₂, he₂, hcopy, hsize₂, -⟩ := of_insert hstore (Build.emit_insert hf₂)
    obtain ⟨fn₃, hf₃, hcode₃, hentry₃, hcur₃, hvalue₃⟩ :=
      code_of_insert hstore (Build.emit_insert hf₂) hf₂
    rw [hentry] at hcode₂
    rw [hcur₂, hcur, hcode₂] at hcode₃
    obtain ⟨fn', hf', hb⟩ := heₛ.func hf₃
    obtain rfl := Option.some.inj (hfn.symm.trans hf')
    obtain ⟨rest, hrest⟩ := hb.code 1
    rw [hcode₃, h.code, List.append_assoc, List.append_assoc, List.append_cancel_left_eq] at hrest
    have hslotv : W.module.value? slot = some _ := heₛ.value (he₂.value hvalue₂)
    have hcopyv : W.module.value? copy = some _ := heₛ.value hvalue₃
    have hused : ¬ W.Unused v.target v.size slot := by
      rintro ⟨-, hlt | hr⟩
      · have := he₃.size_values
        lia
      · have := hresult slot hr
        lia
    obtain ⟨a₁, L₁, st₁, hrest₁, hknows, hwithin, hrefers, h₁⟩ :=
      h.bind hnodup hrest.symm ⟨_, hslotv, rfl, rfl⟩ hused
      (Module.tyOf_eq hslotv) (htys _ (List.mem_cons_self ..)) hconsts (Module.node?_eq hcopyv)
      (y := y) (by simpa [Activation.read, harg, h.args] using hy) hc href
    rw [hscope₂, hscope₁] at hdef
    obtain ⟨fn', a', L', st', hf', h', hwithin', hnames'⟩ :=
      ih hrun he hsize (fun r hr => (hresult r hr).trans (by lia)) hf₃
      (hentry₃.trans (hentry₂.trans hentry)) (hcur₃.trans (hcur₂.trans hcur)) (hcode₃ ▸ h₁)
      (((hnames.knows hknows).within hwithin).define hrefers hdef)
        (fun q hq => htys q (List.mem_cons_of_mem _ hq)) hgets hpassed
      hbind
    exact ⟨fn', a', L', st', hf', h', hwithin.trans hwithin', hnames'⟩

end Prologue

end World

end Sysy.Meaning
