import Sysy.Proofs.Ir.References
import Sysy.Proofs.Lowering.Finish

/-!
Lowering a function never meets a fault, and leaves it complete. Before the body is lowered the
function is `Entering`: it has an entry, an exit and the first block of the body, and only its entry
has code.
-/

namespace Sysy.Ir

variable {m : Module} {f g : Nat} {fn : Func}

namespace Module

def withFunc (m : Module) (fn : Func) : Module := { m with funcs := m.funcs.push fn }

theorem func?_withFunc :
    (m.withFunc fn).func? g = if g = m.funcs.size + 1 then some fn else m.func? g := by
  rcases Nat.eq_zero_or_pos g with rfl | hg
  · simp [func?]
  · have heq : g - 1 = m.funcs.size ↔ g = m.funcs.size + 1 := by omega
    rw [func?_of_pos _ hg, func?_of_pos _ hg, withFunc, Array.getElem?_push]
    simp only [heq]

theorem modifyFunc_withFunc (change : Func → Func) (hf : f = m.funcs.size + 1) :
    (m.withFunc fn).modifyFunc f change = m.withFunc (change fn) := by
  subst hf
  simp only [withFunc, modifyFunc, Module.mk.injEq, true_and]
  ext i hi hi'
  · simp
  · simp only [Array.getElem_modify, Array.getElem_push, Nat.add_sub_cancel]
    by_cases hi : i < m.funcs.size
    · simp [hi, Nat.ne_of_gt hi]
    · simp only [Array.size_modify, Array.size_push] at *
      obtain rfl : i = m.funcs.size := by omega
      simp

end Module

end Sysy.Ir

namespace Sysy.Lowering
open Ir

variable {s s' : State} {m m' m₀ : Module} {f g : Nat} {fn fn₀ : Func}

theorem args_run (f : FuncId) (ps : List (Ty × Nat)) (m : Module) : ∃ args m',
    (ps.mapM fun (ty, i) => Build.add { node := .arg i, ty, func := f }) m = .ok (args, m') ∧
      m'.funcs = m.funcs ∧ Touches f m m' ∧ (Linked m → Linked m') ∧
        List.Forall₂ (IsArg m' f) args ps ∧
      ∀ id v, m'.value? id = some v → m.value? id = some v ∨ ∃ i, v.node = .arg i := by
  induction ps generalizing m with
  | nil => exact ⟨[], m, rfl, rfl, .refl m, fun h => h, .nil, fun _ _ h => .inl h⟩
  | cons p ps ih =>
    let v : Value := { node := .arg p.2, ty := p.1, func := f }
    obtain ⟨args, m', hrun, hfuncs, htouches, hlinked, hargs, honly⟩ := ih (m.add v).2
    have hfirst : Touches f m (m.add v).2 := .add (.inl rfl) (by simp [v])
    have harg : IsArg (m.add v).2 f (m.values.size + 1) p :=
      ⟨v, by rw [Module.value?_add, if_pos rfl], rfl, rfl, rfl⟩
    refine ⟨(m.values.size + 1) :: args, m', ?_, hfuncs, hfirst.trans htouches, fun hl => ?_, ?_,
      fun id w hw => ?_⟩
    · rw [List.mapM_cons]
      have hadd : (Build.add v : Build ValueId) m = .ok (m.values.size + 1, (m.add v).2) := rfl
      simp only [bind, StateT.bind, hadd, Except.bind, v, hrun]
      rfl
    · exact hlinked (hl.add (by simp [Grounded, v, Node.operands]))
    · exact .cons (harg.extends htouches.grown) hargs
    · rcases honly id w hw with hold | harg
      · rw [Module.value?_add] at hold
        split at hold
        · obtain rfl := Option.some.inj hold
          exact .inr ⟨p.2, rfl⟩
        · exact .inl hold
      · exact .inr harg

def bare (f : FuncId) (name : String) (params : List Ty) (ret : Ty) (args : List ValueId) : Func :=
  { id := f, name, params, ret, args }

theorem newFunc_run (name : String) (params : List Ty) {ret : Ty} (hret : ret = .i32 ∨ ret = .unit)
    (hnew : m.funcNamed? name = none) (hl : Linked m) :
    ∃ args m₁, let f := m.funcs.size + 1
      Build.newFunc name params ret m = .ok (.ok f, m₁.withFunc (bare f name params ret args)) ∧
        m₁.funcs = m.funcs ∧ Touches f m m₁ ∧ Linked m₁ ∧
          List.Forall₂ (IsArg m₁ f) args params.zipIdx ∧
        ∀ id v, m₁.value? id = some v → m.value? id = some v ∨ ∃ i, v.node = .arg i := by
  obtain ⟨args, m₁, hrun, hfuncs, htouches, hlinked, hargs, honly⟩ :=
    args_run (m.funcs.size + 1) params.zipIdx m
  refine ⟨args, m₁, ?_, hfuncs, htouches, hlinked hl, hargs, honly⟩
  simp only [Build.newFunc, Build.func, bind, StateT.bind, get, getThe, MonadStateOf.get,
    StateT.get, pure, Except.pure,
    Except.bind, hnew, Option.isSome_none, Bool.false_eq_true, if_false, hrun, modify, modifyGet,
    MonadStateOf.modifyGet, StateT.modifyGet]
  rcases hret with rfl | rfl <;> rfl

theorem newFunc_duplicate {name : String} {params : List Ty} {ret : Ty}
    (h : m.funcNamed? name ≠ none) :
    Build.newFunc name params ret m = .ok (.error ⟨name⟩, m) := by
  rw [← Option.isSome_iff_ne_none] at h
  simp only [Build.newFunc, bind, StateT.bind, get, getThe, MonadStateOf.get, StateT.get, pure,
    Except.pure,
    Except.bind, h, if_true]
  rfl

theorem exists_func?_of_funcNamed? {name : String} (h : m.funcNamed? name ≠ none) :
    ∃ g fn, m.func? g = some fn ∧ fn.name = name := by
  obtain ⟨fn, hfn⟩ := Option.ne_none_iff_exists'.mp h
  have hname : fn.name = name := by simpa using Array.find?_some hfn
  obtain ⟨i, hi, rfl⟩ := Array.getElem_of_mem (Array.mem_of_find?_eq_some hfn)
  refine ⟨i + 1, m.funcs[i], ?_, hname⟩
  rw [Module.func?_of_pos _ (Nat.succ_pos i), Nat.succ_sub_one, Array.getElem?_eq_getElem hi]

structure Listed (m : Module) (names : List (String × Binding)) : Prop where
  nodup : (names.map (·.1)).Nodup
  globals : m.globals.toList.Nodup
  vars : ∀ id ∈ m.globals, ∃ name c v, (name, .var id c) ∈ names ∧ m.value? id = some v ∧
    v.name = "@" ++ name
  funcs : ∀ g fn, m.func? g = some fn → (fn.name, .func g) ∈ names
  named : ∀ name g, (name, .func g) ∈ names → ∃ fn, m.func? g = some fn ∧ fn.name = name

theorem Listed.func {names : List (String × Binding)} (h : Listed m names) (ht : Touches f m m')
    (hf : m'.func? f = some fn) (hfresh : fn.name ∉ names.map (·.1)) :
    Listed m' ((fn.name, .func f) :: names) := by
  refine ⟨List.nodup_cons.mpr ⟨hfresh, h.nodup⟩, by
    rw [ht.globals]; exact h.globals, fun id hid => ?_, fun g gn hg => ?_,
    fun name g hmem => ?_⟩
  · rw [ht.globals] at hid
    obtain ⟨name, c, v, hmem, hv, hname⟩ := h.vars id hid
    exact ⟨name, c, v, List.mem_cons_of_mem _ hmem, ht.grown.value hv, hname⟩
  · by_cases hne : g = f
    · subst hne
      obtain rfl := Option.some.inj (hf.symm.trans hg)
      exact List.mem_cons_self ..
    · exact List.mem_cons_of_mem _ (h.funcs g gn ((ht.other g hne).symm.trans hg))
  · rcases List.mem_cons.mp hmem with heq | hmem
    · cases heq
      exact ⟨fn, hf, rfl⟩
    · obtain ⟨gn, hg, hname⟩ := h.named name g hmem
      obtain ⟨gn', hg', hb⟩ := ht.grown.func hg
      exact ⟨gn', hg', hb.name.trans hname⟩

def Stocked (m : Module) : Prop :=
  ∀ p ∈ Build.libraryFuncs, ∃ g fn, m.func? g = some fn ∧ fn.name = p.1 ∧ fn.layout = #[]

theorem Stocked.touches (h : Stocked m) (ht : Touches f m m') (hf : m.func? f = none) :
    Stocked m' := by
  intro p hp
  obtain ⟨g, gn, hg, hrest⟩ := h p hp
  refine ⟨g, gn, (ht.other g ?_).trans hg, hrest⟩
  rintro rfl
  cases hf.symm.trans hg

structure Ready (s : State) : Prop where
  sound : Sound s.module
  top : s.scope.inner = []
  bound : ∀ p ∈ s.scope.outermost, ∀ g, BindingOk s.module g p.2
  listed : Listed s.module s.scope.outermost
  stocked : Stocked s.module

def Copied (m : Module) (f : FuncId) (arg : ValueId) : Prop :=
  ∃ fn id v dest, m.func? f = some fn ∧ id ∈ fn.code 1 ∧ m.value? id = some v ∧
    v.node = .store arg dest

theorem Copied.extends {arg : ValueId} (h : Copied m f arg) (he : Extends m m') :
    Copied m' f arg := by
  obtain ⟨fn, id, v, dest, hf, hid, hv, hnode⟩ := h
  obtain ⟨fn', hf', hb⟩ := he.func hf
  exact ⟨fn', id, v, dest, hf', (hb.code 1).subset hid, he.value hv, hnode⟩

structure Entering (m₀ : Module) (f : FuncId) (fn₀ : Func) (c : BlockId) (m : Module) : Prop where
  touches : Touches f m₀ m
  linked : Linked m
  code : ∃ fn, Coded m f fn ∧ fn₀.Before fn ∧ fn.layout = #[1, 3] ∧ fn.blocks.size = 3 ∧
    fn.current = c ∧
    (∀ bb, bb ≠ 1 → fn.code bb = []) ∧ m.Ended (fn.code 1) = false

namespace Entering
variable {c c' : Nat}

theorem inst (node : Node) (ty : Ty) (h : Entering m₀ f fn₀ c m)
    (hok : ∀ fn, m.func? f = some fn → fn₀.Before fn → InstOk m f fn 1 node ty)
    (hnode : node.isTerminator = false) (hsucc : node.successors = []) (name : String) :
    let v : Value := { node, ty, name, func := f, block := 1 }
    Build.Takes m f 1 ∧ Entering m₀ f fn₀ c (m.append f v) ∧ Extends m (m.append f v) ∧
      (m.append f v).value? (m.values.size + 1) = some v := by
  obtain ⟨fn, hc, hbefore, hlayout, hsize, hcur, hempty, hopen⟩ := h.code
  have hplaced : 1 ∈ fn.layout.toList := by rw [hlayout]; decide
  obtain ⟨htakes, hc', ht, hl, hb, hcode, hnew⟩ :=
    hc.inst_more hplaced hopen (hok fn hc.found hbefore) name
  intro v
  rw [← Module.close_eq_append (v := v) m hsucc]
  refine ⟨htakes, ⟨h.touches.trans ht, hl h.linked, _, hc', hbefore.trans hb, hlayout, ?_,
    hcur, ?_, ?_⟩,
    ht.grown, hnew⟩
  · simpa [Func.record] using hsize
  · intro bb hbb
    rw [hcode, if_neg hbb]
    exact hempty bb hbb
  · rw [hcode, if_pos rfl, Module.ended_append hnew]
    exact hnode

theorem setCurrent (c' : BlockId) (h : Entering m₀ f fn₀ c m) :
    Entering m₀ f fn₀ c' (m.modifyFunc f fun fn => { fn with current := c' }) := by
  obtain ⟨fn, hc, hbefore, hlayout, hsize, hcur, hempty, hopen⟩ := h.code
  have hb : fn.Before { fn with current := c' } :=
    ⟨rfl, rfl, rfl, rfl, rfl, rfl, rfl, le_rfl, fun _ => List.prefix_rfl⟩
  have he : Extends m _ := Extends.modifyFunc hc.found (fun fn => { fn with current := c' }) hb
  refine ⟨h.touches.trans (.modifyFunc hc.found hb), h.linked.modifyFunc hc.found hb,
    { fn with current := c' }, ?_, hbefore.trans hb, hlayout, hsize, rfl, hempty, hopen⟩
  exact { hc with
    found := by
      rw [Module.func?_modifyFunc _ _ (Module.bounds_of_func? hc.found).1, if_pos rfl, hc.found]
      rfl
    inst := fun x id hid => by
      obtain ⟨w, hw, hfunc, hblock, hok⟩ := hc.inst x id hid
      exact ⟨w, hw, hfunc, hblock, he.instOk hb hok⟩ }

theorem alloc {ty : Ty} (h : Entering m₀ f fn₀ c m) (hty : ty.IsObject) (name : String) : ∃ m' id,
    Build.alloc f ty name m = .ok (id, m') ∧ Entering m₀ f fn₀ c m' ∧ Extends m m' ∧
      m'.Readable f id (.ptr ty) := by
  obtain ⟨fn, hc, -⟩ := h.code
  obtain ⟨htakes, hnext, he, hnew⟩ := h.inst .alloc (.ptr ty)
    (fun fn' hf' _ => by
      obtain rfl := Option.some.inj (hc.found.symm.trans hf')
      exact .alloc hc.entry.symm hty) rfl rfl name
  have hrun := Build.alloc_eq hc.found (hc.entry ▸ htakes) ty name
  rw [hc.entry] at hrun
  exact ⟨_, _, hrun, hnext, he, _, hnew, rfl, rfl⟩

theorem alloc_run {ty : Ty} {name : String} {id : ValueId} (h : Entering m₀ f fn₀ c m)
    (hrun : Build.alloc f ty name m = .ok (id, m')) :
    Build.Takes m f 1 ∧ id = m.values.size + 1 ∧
      m' = m.append f { node := .alloc, ty := .ptr ty, name, func := f, block := 1 } := by
  obtain ⟨fn, hc, -, hlayout, hsize, -, -, hopen⟩ := h.code
  have htakes : Build.Takes m f 1 := (hc.takes_iff (by decide) (by omega)).mpr hopen
  have heq := Build.alloc_eq hc.found (hc.entry ▸ htakes) ty name
  rw [hrun, hc.entry] at heq
  obtain ⟨rfl, rfl⟩ := Prod.mk.inj (Except.ok.inj heq)
  exact ⟨htakes, rfl, rfl⟩

theorem store {ty : Ty} {arg slot i : Nat} (h : Entering m₀ f fn₀ 1 m)
    (harg : IsArg m f arg (ty, i)) (hi : fn₀.params[i]? = some ty) (hty : ty.IsParam)
    (hslot : m.Readable f slot (.ptr ty)) : ∃ m' id,
    Build.store f arg slot m = .ok (id, m') ∧ Entering m₀ f fn₀ 1 m' ∧ Extends m m' ∧
    Copied m' f arg := by
  obtain ⟨fn, hc, -, -, -, hcur, -⟩ := h.code
  obtain ⟨v, hv, hnode, rfl, hfunc⟩ := harg
  obtain ⟨htakes, hnext, he, hnew⟩ := h.inst (.store arg slot) .unit
    (fun fn' hf' hb => by
      obtain rfl := Option.some.inj (hc.found.symm.trans hf')
      exact .param hc.entry.symm hv hnode hfunc (by rw [hb.params]; exact hi) hty hslot) rfl rfl ""
  have hrun : Build.store f arg slot m = _ :=
    Build.emit_eq hc.found (hcur ▸ htakes) (.store arg slot) .unit
  rw [hcur] at hrun
  obtain ⟨fn', hc', -⟩ := hnext.code
  have hcode := hc'.own _ _ hnew rfl (by simp)
  exact ⟨_, _, hrun, hnext, he, fn', _, _, slot, hc'.found, hcode, hnew, rfl⟩

end Entering

theorem gives_lowerParams (ps : List (Param × Ty × ValueId)) :
    ∀ {s : State}, Entering m₀ f fn₀ 1 s.module →
    ScopeOk s.module f s.scope → s.scope.inner ≠ [] →
    (∀ p ∈ ps, p.2.1.IsParam ∧ ∃ i, IsArg s.module f p.2.2 (p.2.1, i) ∧
      fn₀.params[i]? = some p.2.1) →
    Gives (lowerParams f ps) s fun _ s' =>
      Entering m₀ f fn₀ 1 s'.module ∧ Extends s.module s'.module ∧
      ScopeOk s'.module f s'.scope ∧ s'.scope.inner ≠ [] ∧ s'.scope.outermost = s.scope.outermost ∧
      s'.scope.inner.tail = s.scope.inner.tail ∧ ∀ p ∈ ps, Copied s'.module f p.2.2 := by
  induction ps with
  | nil =>
    intro s h hscope hin _
    exact Gives.pure ⟨h, .refl _, hscope, hin, rfl, rfl, by simp⟩
  | cons p ps ih =>
    intro s h hscope hin hps
    obtain ⟨p, ty, arg⟩ := p
    obtain ⟨hty, i, harg, hi⟩ := hps _ (List.mem_cons_self ..)
    obtain ⟨m₁, slot, halloc, h₁, he₁, hslot⟩ := h.alloc hty.isObject ("%" ++ p.name)
    obtain ⟨m₂, id, hstore, h₂, he₂, hcopied⟩ := h₁.store (harg.extends he₁) hi hty hslot
    rw [lowerParams]
    refine Gives.bind (Q := fun id s' => id = slot ∧ s' = _) (Gives.build halloc ⟨rfl, rfl⟩) ?_
    rintro _ _ ⟨rfl, rfl⟩
    refine Gives.bind (Q :=
      fun _ s' => s' = _) (Gives.build (s := { s with module := m₁ }) hstore rfl) ?_
    rintro _ _ rfl
    have he := he₁.trans he₂
    refine Gives.bind (Q :=
      fun _ s' => s'.module = m₂ ∧ ScopeOk m₂ f s'.scope ∧ s'.scope.inner ≠ [] ∧
      s'.scope.outermost = s.scope.outermost ∧ s'.scope.inner.tail = s.scope.inner.tail)
      (Gives.define fun scope hdef => ?_) ?_
    · obtain ⟨hok, hout, htail, hne⟩ := (hscope.extends he).define hin (b := .var _ false)
        ⟨ty, he₂.readable hslot, hty.isObject⟩ hdef
      exact ⟨rfl, hok, hne, hout, htail⟩
    · rintro _ ⟨m₃, scope⟩ ⟨rfl, hok, hne, hout, htail⟩
      refine (ih (s := ⟨m₃, scope⟩) h₂ hok hne fun q hq => ?_).mono ?_
      · obtain ⟨hqty, j, hqarg, hj⟩ := hps q (List.mem_cons_of_mem _ hq)
        exact ⟨hqty, j, hqarg.extends he, hj⟩
      · rintro _ s' ⟨h', he', hok', hne', hout', htail', hcopied'⟩
        refine ⟨h', he.trans he', hok', hne', hout'.trans hout, htail'.trans htail, fun q hq => ?_⟩
        rcases List.mem_cons.mp hq with rfl | hq
        · exact hcopied.extends he'
        · exact hcopied' q hq

theorem Touches.withFunc (ht : Touches f m₀ m) (hf : f = m.funcs.size + 1)
    (hfuncs : m.funcs = m₀.funcs) (fn : Func) : Touches f m₀ (m.withFunc fn) := by
  have hfound (g : Nat) (hg : g ≠ f) : (m.withFunc fn).func? g = m₀.func? g := by
    rw [Module.func?_withFunc, ← hf, if_neg hg]
    exact ht.other g hg
  refine ⟨⟨ht.grown.value, fun {g gn} hg => ⟨gn, ?_, .refl _⟩⟩, hfound, ht.fresh, ht.globals⟩
  have hbounds := Module.bounds_of_func? hg
  rw [hfuncs] at hf
  rw [hfound g (by lia)]
  exact hg

theorem Linked.withFunc (hl : Linked m) (hc : Callable fn) : Linked (m.withFunc fn) := by
  refine ⟨fun g gn hg => ?_, hl.uses, hl.operand⟩
  rw [Module.func?_withFunc] at hg
  split at hg
  · obtain rfl := Option.some.inj hg
    exact hc
  · exact hl.callable g gn hg

def laidOut (f : FuncId) (name : String) (params : List Ty) (ret : Ty) (args : List ValueId) :
    Func :=
  { bare f name params ret args with
    blocks := #[{ name := "entry" }, { name := "end" }, { name := "bb" }]
    layout := #[1, 3]
    entry := 1
    exit := 2
    current := 3 }

theorem Entering.of_laidOut {name : String} {params : List Ty} {ret : Ty} {args : List ValueId}
    (hs : Sound m₀) (hf : f = m.funcs.size + 1) (hfuncs : m.funcs = m₀.funcs) (ht : Touches f m₀ m)
    (hl : Linked m)
    (honly : ∀ id v, m.value? id = some v → m₀.value? id = some v ∨ ∃ i, v.node = .arg i)
    (hc : Callable (laidOut f name params ret args)) :
    Entering m₀ f (laidOut f name params ret args) 3
      (m.withFunc (laidOut f name params ret args)) := by
  generalize hfn : laidOut f name params ret args = fn at hc
  have hcode (bb : Nat) : fn.code bb = [] := by
    subst hfn
    rcases bb with _ | _ | _ | _ | bb
    case' succ.succ.succ.succ => simp [Func.code, Func.block?, laidOut]
    all_goals rfl
  -- all values of the function are its arguments
  have hown : ∀ id v, m.value? id = some v → v.func = f → ∃ i, v.node = .arg i := by
    intro id v hv hfunc
    refine (honly id v hv).resolve_left fun hold => ?_
    have := hs.owner id v hold
    rw [hfuncs] at hf
    lia
  -- a function that was just laid out has three blocks and no code
  refine ⟨ht.withFunc hf hfuncs fn, hl.withFunc hc, fn, ?_, .refl _, by
    subst hfn; rfl, by subst hfn; rfl,
    by subst hfn; rfl, fun bb _ => hcode bb, by rw [hcode]; rfl⟩
  · have hblock (bb : Nat) (b : Block) (hb : fn.block? bb = some b) :
        bb = 1 ∧ b.name = "entry" ∨ bb = 2 ∧ b.name = "end" ∨ bb = 3 ∧ b.name = "bb" := by
      subst hfn
      rcases bb with _ | _ | _ | _ | bb
      case zero => cases hb
      case succ.succ.succ.succ => simp [Func.block?, laidOut] at hb
      all_goals
        obtain rfl := Option.some.inj hb
        simp [laidOut]
    have hlayout : fn.layout.toList = [1, 3] := by subst hfn; rfl
    have hjumps : fn.jumps = #[] := by subst hfn; rfl
    have hblocks : fn.blocks.size = 3 := by subst hfn; rfl
    exact {
      found := by rw [Module.func?_withFunc, if_pos hf]
      ident := by subst hfn; rfl
      entry := by subst hfn; rfl
      exit := by subst hfn; rfl
      blocks := by lia
      nodup := by rw [hlayout]; decide
      first := by rw [hlayout]; rfl
      bounds := fun bb hbb => by
        rw [hlayout] at hbb
        simp only [List.mem_cons, List.not_mem_nil, or_false] at hbb
        lia
      empty := fun bb _ => hcode bb
      sorted := fun bb => by rw [hcode]; exact .nil
      straight := fun bb id hid => by rw [hcode] at hid; cases hid
      inst := fun bb id hid => by rw [hcode] at hid; cases hid
      own := fun id v hv hfunc harg => by
        obtain ⟨i, hi⟩ := hown id v hv hfunc
        exact absurd hi (harg i)
      jumps := fun bb id => by simp [hjumps, hcode]
      hints := fun bb b hb => by
        rcases hblock bb b hb with ⟨rfl, hn⟩ | ⟨rfl, hn⟩ | ⟨rfl, hn⟩ <;> simp [hn, bodyHints] }

theorem Entering.at {t : Target} (h : Entering m₀ t.func fn₀ 3 s.module) (hexit : t.exit = 2)
    (hresult : ∀ r, t.result = some r → s.module.Readable t.func r (.ptr .i32))
    (hscope : ScopeOk s.module t.func s.scope) (hin : s.scope.inner ≠ []) : At t false {2} s := by
  obtain ⟨fn, hc, -, hlayout, hsize, hcur, hempty, hopen⟩ := h.code
  have hmem (bb : Nat) : bb ∈ fn.layout.toList ↔ bb = 1 ∨ bb = 3 := by simp [hlayout]
  refine ⟨⟨fn, { hc with
    open_exit := by simp [hmem]
    current := by simp [hmem, hcur]
    current_ne := by simp [hcur]
    closed := fun bb hbb h₁ h₃ => by
      rw [hmem] at hbb
      lia
    entry_open := hopen }, ?_, fun bb => ?_⟩, hresult, hexit, hscope, hin⟩
  · rw [hempty _ (by simp [hcur])]
    rfl
  · rw [hmem, hsize, Set.mem_singleton_iff]
    lia

theorem run_modifyNew {scope : Scope Binding} (change : Func → Func) (hf : f = m.funcs.size + 1) :
    build (modify (·.modifyFunc f change)) ⟨m.withFunc fn, scope⟩ =
      .ok ((), ⟨m.withFunc (change fn), scope⟩) := by
  rw [← Module.modifyFunc_withFunc change hf]
  rfl

theorem run_addBlockNew {scope : Scope Binding} (name : String) (hf : f = m.funcs.size + 1) :
    build (Build.addBlock f name) ⟨m.withFunc fn, scope⟩ =
      .ok (fn.blocks.size + 1, ⟨m.withFunc (fn.addBlock name).2, scope⟩) := by
  have hfound : (m.withFunc fn).func? f = some fn := by rw [Module.func?_withFunc, if_pos hf]
  refine build_ok.mpr ⟨(Build.addBlock_eq hfound name).trans ?_, rfl⟩
  rw [Module.modifyFunc_withFunc _ hf]

theorem gives_paramTys (ps : List Param) :
    Gives (ps.mapM paramTy) s fun tys s' =>
      s' = s ∧ tys.length = ps.length ∧ ∀ ty ∈ tys, ty.IsParam := by
  induction ps with
  | nil => exact Gives.pure ⟨rfl, rfl, by simp⟩
  | cons p ps ih =>
    have hp : Gives (paramTy p) s fun ty s' => s' = s ∧ ty.IsParam := by
      unfold paramTy
      split
      · exact Gives.pure ⟨rfl, .inl rfl⟩
      · refine Gives.bind (Gives.dimsOf (Q := fun ds s' => s' = s ∧ Shaped ds) fun ds hds =>
          ⟨rfl, shaped_of_foldDims hds⟩) ?_
        rintro ds _ ⟨rfl, hds⟩
        exact Gives.pure ⟨rfl, .inr ⟨ds, hds, rfl⟩⟩
    rw [List.mapM_cons]
    refine Gives.bind hp ?_
    rintro ty _ ⟨rfl, hty⟩
    refine Gives.bind ih ?_
    rintro tys _ ⟨rfl, hlen, htys⟩
    refine Gives.pure ⟨rfl, by simp [hlen], ?_⟩
    simp only [List.mem_cons, forall_eq_or_imp]
    exact ⟨hty, htys⟩

theorem define_top {scope scope' : Scope Binding} {name : String} {b : Binding}
    (htop : scope.inner = []) (hdef : scope.define name b = .ok scope') :
    scope' = ⟨[], (name, b) :: scope.outermost⟩ ∧ name ∉ scope.outermost.map (·.1) := by
  obtain ⟨inner, outermost⟩ := scope
  subst htop
  simp only [Scope.define] at hdef
  split at hdef
  · cases hdef
  · rename_i hnone
    refine ⟨(Except.ok.inj hdef).symm, fun hmem => hnone ?_⟩
    rw [Option.not_isSome_iff_eq_none, List.lookup_eq_none_iff] at hnone
    obtain ⟨p, hp, rfl⟩ := List.mem_map.mp hmem
    simpa using hnone p hp

theorem run_define_top (name : String) (span : Span) (b : Binding) (htop : s.scope.inner = []) :
    (name ∈ s.scope.outermost.map (·.1) ∧ ∃ e, define name span b s = .error (.flawed e)) ∨
      name ∉ s.scope.outermost.map (·.1) ∧
        define name span b s =
          .ok ((), { s with scope := ⟨[], (name, b) :: s.scope.outermost⟩ }) := by
  obtain ⟨m, inner, outermost⟩ := s
  obtain rfl : inner = [] := htop
  unfold define
  rw [run_bind get_run]
  dsimp only
  cases hdef : (Scope.mk [] outermost).define name b with
  | error e =>
    refine .inl ⟨?_, _, rfl⟩
    by_contra hnew
    have hnone : outermost.lookup name = none := by
      rw [List.lookup_eq_none_iff]
      intro p hp
      rw [bne_iff_ne]
      rintro rfl
      exact hnew (List.mem_map_of_mem hp)
    simp [Scope.define, hnone] at hdef
  | ok scope =>
    obtain ⟨rfl, hfresh⟩ := define_top rfl hdef
    exact .inr ⟨hfresh, rfl⟩

theorem mem_zip_args {params : List Ty} {args : List ValueId} {ty : Ty} {arg : Nat}
    (h : List.Forall₂ (IsArg m f) args params.zipIdx) (hmem : (ty, arg) ∈ params.zip args) :
    ∃ i, IsArg m f arg (ty, i) ∧ params[i]? = some ty := by
  obtain ⟨i, hi, heq⟩ := List.getElem_of_mem hmem
  rw [List.getElem_zip, Prod.mk.injEq] at heq
  obtain ⟨hty, harg⟩ := heq
  simp only [List.length_zip, lt_inf_iff] at hi
  have hget := h.get hi.2 (by simpa using hi.1)
  simp only [List.get_eq_getElem, List.getElem_zipIdx, hty, harg, zero_add] at hget
  exact ⟨i, hget, by rw [List.getElem?_eq_getElem hi.1, hty]⟩

structure Opens (s : State) (d : FuncDef) (params : List Ty) (args : List ValueId) (t : Target)
    (s' : State) : Prop where
  func : t.func = s.module.funcs.size + 1
  exit : t.exit = 2
  result : t.result.isNone = d.isVoid
  slot : ∀ r, t.result = some r → s'.module.Readable t.func r (.ptr .i32)
  entering : Entering s.module t.func
    (laidOut t.func d.name params (if d.isVoid then .unit else .i32) args) 1 s'.module
  args : List.Forall₂ (IsArg s'.module t.func) args params.zipIdx
  scope : s'.scope = ⟨[(.function, [])], (d.name, .func t.func) :: s.scope.outermost⟩
  types : d.params.mapM paramTy s = .ok (params, s)
  /-- The slot of the result is all that stands in the entry so far. -/
  entry : ∃ fn, s'.module.func? t.func = some fn ∧ fn.code 1 = t.result.toList
  alloc : ∀ r, t.result = some r → ∃ v, s'.module.value? r = some v ∧ v.node = .alloc ∧
    v.func = t.func
  /-- The slot of the result is the only new value with a marked name. -/
  slots : ∀ g, s'.module.slots g = s.module.slots g ++ if g = t.func ∧
    d.isVoid = false then [(.alloc, "%ret")] else []
  kept : ∀ {P : Module → Prop}, Durable P → P s.module → P s'.module

/-- The state in which the body of the function `d` begins, when it is lowered after the state
`s`. -/
structure Begins (s : State) (d : FuncDef) (t : Target) (s' : State) : Prop where
  func : t.func = s.module.funcs.size + 1
  exit : t.exit = 2
  fresh : d.name ∉ s.scope.outermost.map (·.1)
  here : At t false {2} s'
  entering : ∃ params args ret, Entering s.module t.func (laidOut t.func d.name params ret args)
    3 s'.module ∧
    ret = (if t.result.isSome then .i32 else .unit) ∧ List.Forall₂ (IsArg s'.module t.func) args
      params.zipIdx ∧
    ∀ arg ∈ args, Copied s'.module t.func arg
  outermost : s'.scope.outermost = (d.name, .func t.func) :: s.scope.outermost
  tail : s'.scope.inner.tail = []
  copies : ∃ params args s₀ s₁, Opens s d params args t s₀ ∧
    lowerParams t.func (d.params.zip (params.zip args)) s₀ = .ok ((), s₁) ∧
      build (Build.setCurrent t.func 3) s₁ = .ok ((), s')

/-- The module in which the blocks of the function `d` are laid out, when it is lowered after the
state `s`. The slot of its result, if it has one, is all that stands in the entry so far. -/
structure LaidOut (s : State) (f : FuncId) (d : FuncDef) (params : List Ty) (args : List ValueId)
    (result : Option ValueId) (m : Module) : Prop where
  func : f = s.module.funcs.size + 1
  entering : Entering s.module f
    (laidOut f d.name params (if d.isVoid then .unit else .i32) args) 3 m
  args : List.Forall₂ (IsArg m f) args params.zipIdx
  slot : ∀ r, result = some r → m.Readable f r (.ptr .i32) ∧ ∃ v, m.value? r = some v ∧
    v.node = .alloc ∧ v.func = f
  entry : ∃ fn, m.func? f = some fn ∧ fn.code 1 = result.toList
  slots : ∀ g, m.slots g = s.module.slots g ++ if g = f ∧
    result.isNone = false then [(.alloc, "%ret")] else []
  kept : ∀ {P : Module → Prop}, Durable P → P s.module → P m

def lowerBody (d : FuncDef) (params : List Ty) (t : Target) (args : List ValueId) : Lower Unit := do
  lowerParams t.func (d.params.zip (params.zip args))
  build (Build.setCurrent t.func 3)
  lowerStmts t [] d.body
  finish t 1 3
  exit

theorem run_layOut {α : Type} {scope : Scope Binding} {name : String} {params : List Ty} {ret : Ty}
    {args : List ValueId} (hf : f = m.funcs.size + 1) (k : BlockId → BlockId → BlockId → Lower α) :
    (do
      let entry ← build (Build.addBlock f "entry")
      build (Build.place f entry)
      let exitBlock ← build (Build.addBlock f "end")
      build (modify (·.modifyFunc f fun fn => { fn with entry, exit := exitBlock }))
      let body ← build (Build.addBlock f "bb")
      build (Build.place f body)
      build (Build.setCurrent f body)
      k entry exitBlock body : Lower α) ⟨m.withFunc (bare f name params ret args), scope⟩ =
    k 1 2 3 ⟨m.withFunc (laidOut f name params ret args), scope⟩ := by
  have hplace (fn : Func) (bb : BlockId) :
      build (Build.place f bb) ⟨m.withFunc fn, scope⟩ =
        .ok ((), ⟨m.withFunc (fn.place bb), scope⟩) :=
    run_modifyNew (·.place bb) hf
  have hcurrent (fn : Func) (bb : BlockId) : build (Build.setCurrent f bb) ⟨m.withFunc fn, scope⟩ =
      .ok ((), ⟨m.withFunc { fn with current := bb }, scope⟩) :=
        run_modifyNew (fun fn => { fn with current := bb }) hf
  rw [run_bind (run_addBlockNew _ hf), run_bind (hplace _ _), run_bind (run_addBlockNew _ hf),
    run_bind (run_modifyNew _ hf), run_bind (run_addBlockNew _ hf), run_bind (hplace _ _),
      run_bind (hcurrent _ _)]
  rfl

theorem durable_laidOut {P : Module → Prop} {name : String} {params : List Ty} {ret : Ty}
    {args : List ValueId} (hP : Durable P) (hf : f = m.funcs.size + 1)
    (h : P (m.withFunc (bare f name params ret args))) :
    P (m.withFunc (laidOut f name params ret args)) := by
  let lay (fn : Func) : Func :=
    { ((((fn.addBlock "entry").2.addBlock "end").2.addBlock "bb").2.place 1).place 3 with
      entry := 1, exit := 2, current := 3 }
  have hcode (fn : Func) (bb : BlockId) : (lay fn).code bb = fn.code bb :=
    (Func.code_addBlock "bb").trans ((Func.code_addBlock "end").trans (Func.code_addBlock "entry"))
  have hjumps (fn : Func) : (lay fn).jumps = fn.jumps := rfl
  have hlaid := hP.modifyFunc f hjumps hcode h
  rwa [Module.modifyFunc_withFunc lay hf] at hlaid

theorem exists_laidOut {d : FuncDef} {params : List Ty} (h : Ready s)
    (hnew : s.module.funcNamed? d.name = none) (hparams : ∀ ty ∈ params, ty.IsParam) :
    ∃ (f : FuncId) (args : List ValueId) (m₁ : Module), f = m₁.funcs.size + 1 ∧
      Build.newFunc d.name params (if d.isVoid then .unit else .i32) s.module =
        .ok (.ok f, m₁.withFunc (bare f d.name params (if d.isVoid then .unit else .i32) args)) ∧
      LaidOut s f d params args none
        (m₁.withFunc (laidOut f d.name params (if d.isVoid then .unit else .i32) args)) := by
  generalize hret : (if d.isVoid then Ty.unit else Ty.i32) = ret
  have hret' : ret = .i32 ∨ ret = .unit := by
    rw [← hret]
    cases d.isVoid <;> simp
  obtain ⟨args, m₁, hrun, hfuncs, ht, hl, hargs, honly⟩ :=
    newFunc_run d.name params hret' hnew h.sound.linked
  generalize hsize : s.module.funcs.size + 1 = f at *
  have hf : f = m₁.funcs.size + 1 := by rw [hfuncs, hsize]
  have hgrows : s.module.GrowsUnmarked (m₁.withFunc (bare f d.name params ret args)) :=
    (Build.unmarked_newFunc d.name params ret).ok _ _ _ (.refl _) hrun
  have hcallable : Callable (laidOut f d.name params ret args) := ⟨hparams, hret'⟩
  have hE := Entering.of_laidOut h.sound hf hfuncs ht hl honly hcallable
  exact ⟨f, args, m₁, hf, hrun, hsize.symm, by rw [hret]; exact hE, hargs,
    nofun, ⟨_, by rw [Module.func?_withFunc, if_pos hf], rfl⟩, fun g =>
      (hgrows.slots g).trans (by simp),
    fun hP h => durable_laidOut hP hf ((hP.newFunc d.name params ret).ok _ _ _ h hrun)⟩

namespace LaidOut
variable {d : FuncDef} {params : List Ty} {args : List ValueId} {result : Option ValueId}

theorem alloc (h : LaidOut s f d params args none m) : ∃ m' slot,
    Build.alloc f .i32 "%ret" m = .ok (slot, m') ∧ LaidOut s f d params args (some slot) m' := by
  obtain ⟨m', slot, halloc, hE, he, hslot⟩ := h.entering.alloc Ty.isObject_i32 "%ret"
  obtain ⟨⟨fn, b, hf, hb, -⟩, hid, hm'⟩ := h.entering.alloc_run halloc
  obtain ⟨fn', hf', hcode⟩ := h.entry
  obtain rfl := Option.some.inj (hf.symm.trans hf')
  have hvalue : m'.value? slot = some { node := .alloc, ty := .ptr .i32, name := "%ret", func := f,
                                        block := 1 } := by
    rw [hm', hid]
    exact (Module.value?_append ..).trans (if_pos rfl)
  refine ⟨m', slot, halloc, h.func, hE, h.args.imp fun _ _ harg => harg.extends he, fun r hr => ?_,
    ?_, fun g => ?_,
    fun hP hs => (hP.alloc f .i32 "%ret").ok _ _ _ (h.kept hP hs) halloc⟩
  · obtain rfl := Option.some.inj hr
    exact ⟨hslot, _, hvalue, rfl, rfl⟩
  · rw [hm', hid]
    exact ⟨_, (Module.func?_append _ _ hf).trans (if_pos rfl), by
      rw [Func.code_push hb, if_pos rfl, hcode]; rfl⟩
  · rw [hm', Module.slots_append, h.slots, Option.isNone_none]
    simp [show Marked "%ret" from marked_percent "ret", eq_comm]

theorem opens (h : LaidOut s f d params args result m) (hresult : result.isNone = d.isVoid)
    (htypes : d.params.mapM paramTy s = .ok (params, s)) (k : List ValueId → Lower Unit) :
    ∃ s', Opens s d params args { func := f, name := d.name, result, exit := 2 } s' ∧ (do
      enter .function
      build (Build.setCurrent f 1)
      let args := (((← get).module.func? f).map (·.args)).getD []
      k args : Lower Unit) ⟨m, [], (d.name, .func f) :: s.scope.outermost⟩ = k args s' := by
  obtain ⟨fn, hc, -⟩ := h.entering.code
  have hE := h.entering.setCurrent 1
  have he : Extends m (m.modifyFunc f fun fn => { fn with current := 1 }) :=
    .modifyFunc hc.found _ ⟨rfl, rfl, rfl, rfl, rfl, rfl, rfl, le_rfl, fun _ => List.prefix_rfl⟩
  obtain ⟨fn₁, hc₁, hb₁, -⟩ := hE.code
  have hentry : ∃ fn, (m.modifyFunc f fun fn => { fn with current := 1 }).func? f = some fn ∧
    fn.code 1 = result.toList := by
    obtain ⟨fn', hf', hcode⟩ := h.entry
    obtain rfl := Option.some.inj (hc.found.symm.trans hf')
    refine ⟨{ fn with current := 1 }, ?_, hcode⟩
    rw [Module.func?_modifyFunc _ _ (Module.bounds_of_func? hc.found).1, if_pos rfl, hc.found]
    rfl
  refine ⟨⟨_, [(.function, [])], _⟩, {
    func := h.func
    exit := rfl
    result := hresult
    slot := fun r hr => he.readable (h.slot r hr).1
    entering := hE
    args := h.args.imp fun _ _ harg => harg.extends he
    scope := rfl
    types := htypes
    entry := hentry
    alloc := fun r hr => ?_
    slots := fun g => by rw [← hresult]; exact h.slots g
    kept := fun hP hs => hP.modifyFunc f (fun _ => rfl) (fun _ _ => rfl) (h.kept hP hs) }, ?_⟩
  · obtain ⟨-, v, hv, hrest⟩ := h.slot r hr
    exact ⟨v, he.value hv, hrest⟩
  · change k (((Module.func? _ f).map (·.args)).getD []) _ = _
    rw [hc₁.found]
    exact congrArg (k · _) hb₁.args

end LaidOut

theorem lowerFunc_cases {d : FuncDef} {params : List Ty} (h : Ready s)
    (hrun : d.params.mapM paramTy s = .ok (params, s)) (hparams : ∀ ty ∈ params, ty.IsParam) :
    (d.name ∈ s.scope.outermost.map (·.1) ∧ ∃ e, lowerFunc d s = .error (.flawed e)) ∨
      d.name ∉ s.scope.outermost.map (·.1) ∧ ∃ args t s', Opens s d params args t s' ∧
        lowerFunc d s = lowerBody d params t args s' := by
  unfold lowerFunc
  rw [run_bind hrun]
  by_cases hnew : s.module.funcNamed? d.name = none
  swap
  · obtain ⟨g, fn, hg, hname⟩ := exists_func?_of_funcNamed? hnew
    rw [run_bind (build_ok.mpr ⟨newFunc_duplicate hnew, rfl⟩)]
    exact .inl ⟨hname ▸ List.mem_map_of_mem (h.listed.funcs g fn hg), _, rfl⟩
  obtain ⟨f, args, m₁, hf, hnewRun, hlaid⟩ := exists_laidOut h hnew hparams
  generalize hret : (if d.isVoid then Ty.unit else Ty.i32) = ret at *
  have hadded : build (Build.newFunc d.name params ret) s = .ok (.ok f,
    ⟨m₁.withFunc (bare f d.name params ret args), s.scope⟩) :=
    build_ok.mpr ⟨hnewRun, rfl⟩
  rw [run_bind hadded]
  dsimp only
  rcases run_define_top (s := ⟨m₁.withFunc (bare f d.name params ret args), s.scope⟩) d.name
    d.nameSpan (.func f) h.top with
    ⟨hmem, e, he⟩ | ⟨hfresh, hdef⟩
  · rw [run_bind_error he]
    exact .inl ⟨hmem, e, rfl⟩
  refine .inr ⟨hfresh, args, ?_⟩
  rw [run_bind hdef, run_layOut hf]
  dsimp only
  by_cases hvoid : d.isVoid = true
  · obtain ⟨s', hopens, heq⟩ := hlaid.opens hvoid.symm hrun
      (lowerBody d params { func := f, name := d.name, result := none, exit := 2 })
    refine ⟨_, s', hopens, ?_⟩
    rw [if_pos hvoid, pure_bind]
    exact heq
  · obtain ⟨m₂, slot, halloc, hlaid₂⟩ := hlaid.alloc
    obtain ⟨s', hopens, heq⟩ := hlaid₂.opens (by simpa using hvoid) hrun
      (lowerBody d params { func := f, name := d.name, result := some slot, exit := 2 })
    refine ⟨_, s', hopens, ?_⟩
    have hslot : build (Build.alloc f .i32 "%ret")
      ⟨m₁.withFunc (laidOut f d.name params ret args), [],
        (d.name, .func f) :: s.scope.outermost⟩ = .ok (slot,
          ⟨m₂, [], (d.name, .func f) :: s.scope.outermost⟩) :=
      build_ok.mpr ⟨halloc, rfl⟩
    rw [if_neg hvoid, bind_map_left]
    exact (run_bind hslot).trans heq

theorem Opens.gives_begins {d : FuncDef} {params : List Ty} {args : List ValueId} {t : Target}
    (h : Ready s) (hopens : Opens s d params args t s') (hlen : params.length = d.params.length)
    (hparams : ∀ ty ∈ params, ty.IsParam) (hfresh : d.name ∉ s.scope.outermost.map (·.1)) :
    Gives (do
      lowerParams t.func (d.params.zip (params.zip args))
      build (Build.setCurrent t.func 3)) s' fun _ s'' =>
        Begins s d t s'' ∧ Extends s'.module s''.module := by
  obtain ⟨fn, hc, hb, -⟩ := hopens.entering.code
  have hout : s'.scope.outermost = (d.name, .func t.func) :: s.scope.outermost :=
    by rw [hopens.scope]
  have hinner : s'.scope.inner = [(.function, [])] := by rw [hopens.scope]
  have hscope : ScopeOk s'.module t.func s'.scope := by
    refine ⟨fun p hp g => ?_, fun fr hfr p hp => ?_⟩
    · rw [hout] at hp
      rcases List.mem_cons.mp hp with rfl | hp
      · exact ⟨fn, hc.found, hopens.entering.linked.callable t.func fn hc.found⟩
      · exact (h.bound p hp g).extends hopens.entering.touches.grown
    · rw [hinner, List.mem_singleton] at hfr
      subst hfr
      cases hp
  refine Gives.bind (gives_lowerParams _ hopens.entering hscope (by simp [hinner])
    fun p hp => ?_).ran ?_
  · obtain ⟨p, ty, arg⟩ := p
    have hmem : (ty, arg) ∈ params.zip args := (List.of_mem_zip hp).2
    obtain ⟨i, harg, hi⟩ := mem_zip_args hopens.args hmem
    exact ⟨hparams ty (List.of_mem_zip hmem).1, i, harg, hi⟩
  rintro _ ⟨m₂, scope₂⟩ ⟨hrun₂, hE₂, he₂, hscope₂, hin₂, hout₂, htail₂, hcopied₂⟩
  dsimp only at hE₂ he₂ hscope₂ hin₂ hout₂ htail₂ hcopied₂
  have hcopied : ∀ arg ∈ args, Copied m₂ t.func arg := by
    intro arg harg
    have hargs := hopens.args.length_eq
    rw [List.length_zipIdx] at hargs
    obtain ⟨i, hi, rfl⟩ := List.getElem_of_mem harg
    have hmem : (d.params[i], params[i], args[i]) ∈ d.params.zip (params.zip args) :=
      List.mem_iff_getElem.mpr ⟨i, by simp only [List.length_zip]; omega, by simp⟩
    exact hcopied₂ _ hmem
  obtain ⟨fn₂, hc₂, -⟩ := hE₂.code
  have he₃ : Extends m₂ (m₂.modifyFunc t.func fun fn => { fn with current := 3 }) :=
    .modifyFunc hc₂.found _ ⟨rfl, rfl, rfl, rfl, rfl, rfl, rfl, le_rfl, fun _ => List.prefix_rfl⟩
  have hE₃ := hE₂.setCurrent 3
  have he := he₂.trans he₃
  have hat : At t false {2} ⟨m₂.modifyFunc t.func fun fn => { fn with current := 3 }, scope₂⟩ :=
    hE₃.at hopens.exit (fun r hr => he.readable (hopens.slot r hr)) (hscope₂.extends he₃) hin₂
  have hret : (if d.isVoid then Ty.unit else .i32) = if t.result.isSome then .i32 else .unit := by
    rw [← hopens.result]
    cases t.result <;> rfl
  exact ⟨⟨hopens.func, hopens.exit, hfresh, hat,
    ⟨params, args, _, hE₃, hret, hopens.args.imp fun _ _ harg => harg.extends he,
      fun arg harg => (hcopied arg harg).extends he₃⟩, hout₂.trans hout,
    htail₂.trans (by rw [hinner]; rfl), params, args, s', ⟨m₂, scope₂⟩, hopens, hrun₂, rfl⟩, he⟩

/-- To know how lowering a function ends, it is enough to know it from the place where its body
begins. -/
theorem gives_lowerFunc_of {R : Unit → State → Prop} (h : Ready s) (d : FuncDef)
    (hbody : ∀ t s', Begins s d t s' → Gives (do
      lowerStmts t [] d.body
      finish t 1 3
      exit) s' R) : Gives (lowerFunc d) s R := by
  have hparams := gives_paramTys (s := s) d.params
  unfold Gives at hparams
  cases hrun : d.params.mapM paramTy s with
  | error e =>
    rw [hrun] at hparams
    have herror : lowerFunc d s = .error e := run_bind_error hrun
    rw [Gives, herror]
    cases e with
    | flawed _ => trivial
    | fault _ => exact hparams
  | ok r =>
    obtain ⟨params, s₀⟩ := r
    rw [hrun] at hparams
    obtain ⟨rfl, hlen, hparams⟩ := hparams
    rcases lowerFunc_cases h hrun hparams with ⟨-, e, he⟩ | ⟨hfresh, args, t, s', hopens, heq⟩
    · rw [Gives, he]
      trivial
    · rw [Gives, heq, ← Gives, lowerBody, ← bind_assoc]
      exact Gives.bind (hopens.gives_begins h hlen hparams hfresh) fun _ s₁ hbegins =>
        hbody t s₁ hbegins.1

theorem Begins.isTarget {t : Target} {d : FuncDef} {s₀ : State} (h : Begins s₀ d t s)
    (he : Extends s.module m) :
    IsTarget m t.func 3 := by
  obtain ⟨params, args, ret, hE, -⟩ := h.entering
  obtain ⟨fn, hc, -, -, hsize, -⟩ := hE.code
  obtain ⟨fn', hf', hb⟩ := he.func hc.found
  have hentry := hc.entry
  exact ⟨fn', hf', by rw [hb.entry]; lia, by have := hb.size; lia⟩

theorem Begins.gives_finish {t : Target} {d : FuncDef} {s₀ s₁ : State} (h : Begins s₀ d t s)
    (hp₁ : Passes t s s₁) (h₁ : At t false {2} s₁) :
    Gives (finish t 1 3) s₁ fun _ s' => s'.scope = s₁.scope ∧ ∃ fn₁ fn,
      s₁.module.func? t.func = some fn₁ ∧ Finished s'.module t.func fn ∧
      Worked t.func fn₁ s₁.module fn s'.module ∧
        Completes t 3 fn₁ fn s'.module := by
  obtain ⟨params, args, ret, hE, hret, -⟩ := h.entering
  obtain ⟨fn, hc, hb, -⟩ := hE.code
  obtain ⟨fn₁, hf₁, hb₁⟩ := hp₁.grows.extends.func hc.found
  have hret₁ : fn₁.ret = if t.result.isSome then .i32 else .unit :=
    by rw [hb₁.ret, hb.ret]; exact hret
  refine (Lowering.gives_finish h₁ hf₁ (h.isTarget hp₁.grows.extends) hret₁).mono ?_
  rintro _ s₂ ⟨hscope, fn₂, hrest⟩
  exact ⟨hscope, fn₁, fn₂, hf₁, hrest⟩

theorem gives_complete {t : Target} {d : FuncDef} {s₀ : State} (h : Begins s₀ d t s)
    (ss : List Stmt) :
    Gives (do lowerStmts t [] ss; finish t 1 3) s fun _ s' => ∃ s₁ fn₁ fn, At t false {2} s₁ ∧
    Passes t s s₁ ∧
      s₁.module.func? t.func = some fn₁ ∧ s'.scope = s₁.scope ∧ Finished s'.module t.func fn ∧
      Worked t.func fn₁ s₁.module fn s'.module ∧ Completes t 3 fn₁ fn s'.module := by
  refine Gives.bind (lasts_lowerStmts h.here (show LoopsOk _ _ [] by simp [LoopsOk]) ss) ?_
  rintro _ s₁ ⟨hp₁, h₁⟩
  refine (h.gives_finish hp₁ h₁).mono ?_
  rintro _ s₂ ⟨hscope, fn₁, fn₂, hf₁, hrest⟩
  exact ⟨s₁, fn₁, fn₂, h₁, hp₁, hf₁, hscope, hrest⟩

/-- Lowering a function never meets a fault, and leaves it complete. -/
theorem gives_lowerFunc (h : Ready s) (d : FuncDef) : Gives (lowerFunc d) s fun _ s' =>
    Ready s' := by
  refine gives_lowerFunc_of h d fun t s₃ hbegins => ?_
  rw [← bind_assoc]
  refine Gives.bind (gives_complete hbegins d.body) ?_
  rintro _ ⟨m₅, scope₅⟩ ⟨⟨m₄, scope₄⟩, fn₄, fn₅, hat₄, hp₄, hf₄, hscope₅, hfin, hw, -⟩
  obtain ⟨params, args, ret, hE, -, hargs, -⟩ := hbegins.entering
  obtain ⟨fn₃, hc₃, hb₃, -⟩ := hE.code
  obtain ⟨fn₄', hf₄', hb₄⟩ := hp₄.grows.extends.func hc₃.found
  obtain rfl := Option.some.inj (hf₄.symm.trans hf₄')
  -- the whole work
  have ht₃₅ : Touches t.func s₃.module m₅ := (Touches.of_grows hp₄.grows).trans hw.touches
  have hl₅ : Linked m₅ := hw.linked (hE.linked.grows hp₄.grows)
  have ht : Touches t.func s.module m₅ := hE.touches.trans ht₃₅
  have hb : (laidOut t.func d.name params ret args).Before fn₅ := hb₃.trans (hb₄.trans hw.before)
  have hnone : s.module.func? t.func = none := by
    rw [hbegins.func, Module.func?_of_pos _ (Nat.succ_pos _)]
    simp
  have hsound : Sound m₅ := by
    refine h.sound.touches ht hl₅ (Module.bounds_of_func? hfin.found).2 fun fn hf => ?_
    obtain rfl := Option.some.inj (hfin.found.symm.trans hf)
    refine ⟨hfin.ident, ?_, .inr hfin⟩
    rw [ArgsOk, hb.params, hb.args, hb.id]
    exact hargs.imp fun _ _ harg => harg.extends ht₃₅.grown
  have hout : scope₅.outermost = (d.name, .func t.func) :: s.scope.outermost :=
    (congrArg (·.outermost) hscope₅).trans (hp₄.outermost.trans hbegins.outermost)
  have htail : scope₅.inner.tail = [] :=
    (congrArg (·.inner.tail) hscope₅).trans (hp₄.tail.trans hbegins.tail)
  have hlisted₅ : Listed m₅ ((d.name, .func t.func) :: s.scope.outermost) := by
    rw [show d.name = fn₅.name from hb.name.symm]
    exact h.listed.func ht hfin.found (by rw [hb.name]; exact hbegins.fresh)
  change Ready ⟨m₅, scope₅.exit⟩
  refine ⟨hsound, htail, fun p hp g => ?_, hout ▸ hlisted₅, h.stocked.touches ht hnone⟩
  have hscope₃ := hbegins.here.scope.outer p
  rw [hbegins.outermost, ← hout] at hscope₃
  exact (hscope₃ hp g).extends ht₃₅.grown

end Sysy.Lowering
