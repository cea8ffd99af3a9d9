import Sysy.Proofs.Meaning.Globals

/-!
Whole programs. The items of a program are lowered and evaluated side by side, and between two items
every name in force stands for the same thing in the code. So the code of each function does what an
evaluation of the function does.
-/

namespace Sysy.Lowering
open Ir

variable {s s' s'' : State} {isConst : Bool} {d : VarDef}

structure Ahead (s s' : State) : Prop extends Later s s' where
  globals : s.module.globals.toList <+: s'.module.globals.toList
  names : s.scope.outermost <:+ s'.scope.outermost

theorem Ahead.refl (h : Ready s) : Ahead s s := ⟨.refl h, List.prefix_rfl, List.suffix_rfl⟩

theorem Ahead.trans (h : Ahead s s') (h' : Ahead s' s'') : Ahead s s'' :=
  ⟨h.toLater.trans h'.toLater, h.globals.trans h'.globals, h.names.trans h'.names⟩

theorem suffix_of_define {scope scope' : Scope Binding} {name : String} {b : Binding}
    (htop : scope.inner = []) (hdef : scope.define name b = .ok scope') :
    scope.outermost <:+ scope'.outermost := by
  obtain ⟨rfl, -⟩ := define_top htop hdef
  exact List.suffix_cons _ _

theorem ahead_lowerGlobal (h : Ready s) (hrun : lowerGlobal isConst d s = .ok ((), s')) :
    Ahead s s' := by
  have hlater := (later_lowerGlobal h isConst d).ok hrun
  cases hscalar : isConst && d.dims.isEmpty with
  | true =>
    rw [lowerGlobal, if_pos hscalar] at hrun
    obtain ⟨e, w, scope, -, -, hdef, rfl⟩ := defineConst_ok hrun
    exact ⟨hlater, List.prefix_rfl, suffix_of_define h.top hdef⟩
  | false =>
    obtain ⟨init, s₁, -, ht, hm, hdef⟩ := exists_withGlobal h hscalar hrun
    refine ⟨hlater, ?_, suffix_of_define h.top hdef⟩
    rw [hm, withGlobal, Array.toList_push, ht.globals]
    exact List.prefix_append _ _

theorem ahead_lowerFunc {d : FuncDef} (h : Ready s) (hrun : lowerFunc d s = .ok ((), s')) :
    Ahead s s' := by
  obtain ⟨t, s₁, s₂, s₃, fn, -, -, ht, hscope, -⟩ := (keeps_lowerFunc h d).ok hrun
  refine ⟨(later_lowerFunc h d).ok hrun, by rw [ht.globals], ?_⟩
  rw [hscope]
  exact List.suffix_cons _ _

theorem run_define {name : String} {b : Binding} {scope : Scope Binding} (htop : scope.inner = [])
    (hfresh : name ∉ scope.outermost.map (·.1)) :
    scope.define name b = .ok ⟨[], (name, b) :: scope.outermost⟩ := by
  rcases run_define_top (s := { scope }) name {} b htop with ⟨hmem, -⟩ | ⟨-, hrun⟩
  · exact absurd hmem hfresh
  · obtain ⟨scope', hdef, heq⟩ := define_ok.mp hrun
    obtain rfl := congrArg State.scope heq
    exact hdef

theorem resolve_top {scope : Scope Binding} {name : String} {b : Binding} (htop : scope.inner = [])
    (hnodup : (scope.outermost.map (·.1)).Nodup) :
    scope.resolve name = .ok b ↔ (name, b) ∈ scope.outermost := by
  obtain ⟨inner, outermost⟩ := scope
  subst htop
  have hresolve : (⟨[], outermost⟩ : Scope Binding).resolve name = .ok b ↔ outermost.lookup name =
    some b := by
    cases hlookup : outermost.lookup name <;> simp [Scope.resolve, hlookup]
  exact hresolve.trans (Assembly.lookup_iff_mem hnodup)

theorem funcNamed?_of_func? {g : FuncId} {fn : Func} (h : Ready s)
    (hg : s.module.func? g = some fn) :
    s.module.funcNamed? fn.name = some fn := by
  cases hfind : s.module.funcNamed? fn.name with
  | none => exact absurd (Array.find?_eq_none.mp hfind fn
      (Array.mem_toList_iff.mp (Module.mem_funcs hg))) (by simp)
  | some fn' =>
    have hname : fn'.name = fn.name := by simpa using Array.find?_some hfind
    obtain ⟨i, hi, hfn'⟩ :=
      List.getElem_of_mem (Array.mem_toList_iff.mpr (Array.mem_of_find?_eq_some hfind))
    have hg' : s.module.func? (i + 1) = some fn' := hfn' ▸ Assembly.func?_succ hi
    have hready : Ready ⟨s.module, s.scope⟩ := h
    obtain rfl := Assembly.name_inj hready hg' hg hname
    exact hg'.symm.trans hg

theorem Setting.Leads.runs {k : Setting} {c c' : Config} (h : k.Leads c c') :
    ∃ count, Ir.runs k.module k.lib k.fill count c = some c' := by
  induction h with
  | refl => exact ⟨0, rfl⟩
  | tail _ hstep ih =>
    obtain ⟨count, hcount⟩ := ih
    exact ⟨count + 1, Option.bind_eq_some_iff.mpr ⟨_, hcount, hstep.2⟩⟩

end Sysy.Lowering

namespace Sysy.Ir

/-- A run from the entry of the function `fn` comes to the return in the last block of the function.
It returns `result` there, and leaves the store `st'` behind. -/
def Finishes (m : Module) (lib : Library) (fill : Nat → Nat → Word) (fn : Func) (args : List Val)
    (callers : List Activation) (st : Store) (result : Option Val) (st' : Store) : Prop :=
  ∃ count b id val st₁, runs m lib fill count (.running (.enter fn args) callers st) =
    some (.running b callers st₁) ∧
    b.func = fn.id ∧ b.block = fn.exit ∧ b.rest = [id] ∧ m.node? id = some (.ret val) ∧
      val.mapM (b.read m) = some result ∧
    st' = st₁.free b.locals

end Sysy.Ir

namespace Sysy.Meaning
open Ir Lowering Filter

def Written (s : State) (g : FuncId) (d : FuncDef) : Prop :=
  ∃ t fn s₀ s₁ s₂ s₃, t.func = g ∧ Lowered s.module fn d t s₀ s₁ s₂ s₃ ∧
    s.module.func? g = some fn ∧ arePlain d.body = true ∧
    (d.name, .func g) :: s₀.scope.outermost <:+ s.scope.outermost

def BeginsWith (m : Module) (id : ValueId) (cells : List Cell) : Prop :=
  ∃ init dims ws, m.node? id = some (.global init) ∧ Shaped dims ∧ Holds m dims init ws ∧
    cells = ws.map some

def World.upTo (lib : Library) (fill : Nat → Nat → Word) (s : State) (env : Env) : World :=
  { module := s.module, lib, fill, globals := env, code := Written s }

structure Begun (s : State) (env : Env) (σ : Memory) : Prop where
  ready : Ready s
  trace : σ.trace = []
  objects : List.Forall₂ (BeginsWith s.module) s.module.globals.toList σ.objects
  names : ∀ lib fill a, (World.upTo lib fill s env).Names (base s.module) a s.scope env

variable {s s' : State} {env env' : Env} {σ σ' : Memory} {g : FuncId} {d : FuncDef} {lib : Library}
  {fill : Nat → Nat → Word}
  {a : Activation} {b : Binding} {r : Referent}

theorem Written.ahead (h : Written s g d) (ho : Ahead s s') : Written s' g d := by
  obtain ⟨t, fn, s₀, s₁, s₂, s₃, hfunc, hlow, hfound, hplain, hnames⟩ := h
  exact ⟨t, fn, s₀, s₁, s₂, s₃, hfunc, hlow.extends ho.grown, ho.funcs g fn hfound, hplain,
    hnames.trans ho.names⟩

theorem BeginsWith.ahead {id : ValueId} {cells : List Cell} (h : BeginsWith s.module id cells)
    (ho : Ahead s s') :
    BeginsWith s'.module id cells := by
  obtain ⟨init, dims, ws, hnode, hdims, hholds, rfl⟩ := h
  exact ⟨init, dims, ws, ho.grown.node_eq hnode, hdims, hholds.extends ho.grown, rfl⟩

theorem place_base {m : Module} {o : Nat} {r : Region} :
    (base m).place o = some r ↔ ∃ id, m.globals.toList[o]? = some id ∧ r = .global id := by
  rw [Array.getElem?_toList]
  exact Option.map_eq_some_iff.trans (exists_congr fun id => and_congr_right fun _ => eq_comm)

theorem place_ahead {o : Nat} {r : Region} (ho : Ahead s s')
    (h : (base s.module).place o = some r) :
    (base s'.module).place o = some r := by
  obtain ⟨id, hid, rfl⟩ := place_base.mp h
  obtain ⟨more, hmore⟩ := ho.globals
  refine place_base.mpr ⟨id, ?_, rfl⟩
  rw [← hmore, List.getElem?_append_left (List.getElem?_eq_some_iff.mp hid).1, hid]

/-- Names that are in force stand for the same things behind more items. -/
theorem refers_ahead (ho : Ahead s s')
    (h : (World.upTo lib fill s env).Refers (base s.module) a b r) :
    (World.upTo lib fill s' env').Refers (base s'.module) a b r := by
  cases h with
  | const w => exact .const w
  | @object x c l r hx hread hplace hoffset hty =>
    obtain ⟨v, hv⟩ : ∃ v, s.module.value? x = some v := by
      rcases hx with h | ⟨init, h⟩ <;> exact (Option.map_eq_some_iff.mp h).imp fun v hv => hv.1
    have hnode : s'.module.node? x = s.module.node? x :=
      (Module.node?_eq (ho.grown.value hv)).trans (Module.node?_eq hv).symm
    refine .object ?_ ?_ (place_ahead ho hplace) hoffset ?_
    · exact hx.imp hnode.trans (Exists.imp fun init => hnode.trans)
    · simpa only [Activation.read, World.upTo, hnode] using hread
    · exact (Module.tyOf_eq (ho.grown.value hv)).trans ((Module.tyOf_eq hv).symm.trans hty)
  | pointer hx hread hpin => cases hpin
  | func h => exact .func (h.ahead ho)
  | service hg hdecl hk => exact .service (ho.funcs _ _ hg) hdecl hk

theorem names_ahead (ho : Ahead s s')
    (h : (World.upTo lib fill s env).Names (base s.module) a s.scope env) :
    (World.upTo lib fill s' env').Names (base s'.module) a s.scope env := by
  intro name b hb
  obtain ⟨r, hr, hrefers⟩ := h name b hb
  exact ⟨r, hr, refers_ahead ho hrefers⟩

namespace Begun

theorem define {name : String} {cells : List (List Cell)} (h : Begun s env σ) (ho : Ahead s s')
    (hdef : s.scope.define name b = .ok s'.scope)
    (hglobals : List.Forall₂ (BeginsWith s'.module) s'.module.globals.toList (σ.objects ++ cells))
    (hr : ∀ lib fill a, (World.upTo lib fill s' (env.bind name r)).Refers (base s'.module) a b r) :
    Begun s' (env.bind name r) { σ with objects := σ.objects ++ cells } :=
  ⟨ho.ready, h.trace, hglobals, fun lib fill a => (names_ahead ho (h.names lib fill a)).define
    (hr lib fill a) hdef⟩

theorem consts (h : Begun s env σ) (lib : Library) : ConstsAgree s.scope env :=
  (h.names lib (fun _ _ => 0) { func := 0, block := 0, rest := [], args := [], env := fun _ => none,
                                locals := [] }).consts

theorem global {isConst : Bool} {d : VarDef} (h : Begun s env σ)
    (hrun : lowerGlobal isConst d s = .ok ((), s')) (lib : Library) :
    ∃ env' σ', Begun s' env' σ' ∧ Ahead s s' ∧
      ∀ᶠ n in atTop, declare (number (eval lib env n env)) isConst (some 0) env d σ =
        some (env', σ') := by
  have ho := ahead_lowerGlobal h.ready hrun
  have hc := h.consts lib
  have hold := h.objects.imp fun _ _ hg => hg.ahead ho
  cases hscalar : isConst && d.dims.isEmpty with
  | true =>
    obtain ⟨rfl, hdims⟩ : isConst = true ∧ d.dims = [] := by simpa using hscalar
    rw [lowerGlobal, if_pos hscalar] at hrun
    obtain ⟨e, w, scope, hinit, hw, hdef, rfl⟩ := defineConst_ok hrun
    have hbegun :=
      h.define (r := .const w) ho hdef (List.append_nil σ.objects ▸ h.objects) fun _ _ _ => .const w
    exact ⟨_, _, hbegun, ho, by simpa using eventually_declare_const hc hdims hinit hw⟩
  | false =>
    obtain ⟨init, s₁, hinit, ht, hm, hdef⟩ := exists_withGlobal h.ready hscalar hrun
    obtain ⟨dims, ws, hdims, hholds, hdeclare⟩ :=
      eventually_declare h.ready.sound.linked hc hscalar hinit
    obtain ⟨v, hv, hty, -⟩ := hholds.isUnit
    rw [Module.tyOf_eq hv, hty] at hm
    have he : Extends s₁.module s'.module := hm ▸ extends_withGlobal _ _
    have hvalue := value?_withGlobal s₁.module { node := .global init, ty := .ptr (.ofDims dims),
                                                 name := "@" ++ d.name }
    rw [← hm] at hvalue
    have hglobals : s'.module.globals.toList = s.module.globals.toList ++
      [s₁.module.values.size + 1] := by
      rw [hm, withGlobal, Array.toList_push, ht.globals]
    have hplace : (base s'.module).place σ.objects.length =
      some (.global (s₁.module.values.size + 1)) :=
      place_base.mpr ⟨_, by rw [hglobals, ← h.objects.length_eq, List.getElem?_concat_length], rfl⟩
    refine ⟨_, _, h.define ho hdef ?_ fun lib fill a => ?_, ho, hdeclare⟩
    · rw [hglobals]
      exact List.rel_append hold (.cons ⟨init, dims, ws, Module.node?_eq hvalue, hdims,
        hholds.extends he, rfl⟩ .nil)
    · refine .object (.inr ⟨init, Module.node?_eq hvalue⟩) ?_ hplace rfl (Module.tyOf_eq hvalue)
      simp only [Activation.read, World.upTo, Module.node?_eq hvalue]
      rfl

theorem globals {isConst : Bool} (lib : Library) (vs : List VarDef) :
    ∀ {s : State} {env : Env} {σ : Memory}, Begun s env σ →
    vs.forM (lowerGlobal isConst) s = .ok ((), s') → ∃ env' σ', Begun s' env' σ' ∧ Ahead s s' ∧
      ∀ᶠ n in atTop, declareAll (fun env => number (eval lib env n env)) isConst (some 0) env vs σ =
        some (env', σ') := by
  induction vs with
  | nil =>
    intro s env σ h hrun
    obtain ⟨-, rfl⟩ := pure_ok.mp hrun
    exact ⟨env, σ, h, .refl h.ready, .of_forall fun n => rfl⟩
  | cons v vs ih =>
    intro s env σ h hrun
    rw [List.forM] at hrun
    obtain ⟨⟨⟩, s₁, hv, hvs⟩ := bind_ok.mp hrun
    obtain ⟨env₁, σ₁, h₁, ho₁, hdeclare⟩ := h.global hv lib
    obtain ⟨env', σ', h', ho', hdeclares⟩ := ih h₁ hvs
    refine ⟨env', σ', h', ho₁.trans ho', ?_⟩
    filter_upwards [hdeclare, hdeclares] with n hn hns
    exact bind_some.mpr ⟨env₁, σ₁, hn, hns⟩

theorem func {d : FuncDef} (h : Begun s env σ) (hplain : arePlain d.body = true)
    (hrun : lowerFunc d s = .ok ((), s')) :
    Begun s' (env.bind d.name (.func d)) σ ∧ Ahead s s' ∧ ∃ g, Written s' g d := by
  have ho := ahead_lowerFunc h.ready hrun
  obtain ⟨t, s₁, s₂, s₃, fn, hlow, hfound, ht, hscope, -⟩ := (keeps_lowerFunc h.ready d).ok hrun
  have hwritten : Written s' t.func d :=
    ⟨t, fn, s, s₁, s₂, s₃, rfl, hlow, hfound, hplain, by rw [hscope]⟩
  have hdef : s.scope.define d.name (.func t.func) = .ok s'.scope :=
    hscope ▸ run_define h.ready.top hlow.begins.fresh
  have hglobals : List.Forall₂ (BeginsWith s'.module) s'.module.globals.toList σ.objects := by
    rw [ht.globals]
    exact h.objects.imp fun _ _ hg => hg.ahead ho
  have hbegun := h.define (r := .func d) ho hdef (List.append_nil σ.objects ▸ hglobals) fun _ _ _ =>
    .func hwritten
  exact ⟨by simpa using hbegun, ho, t.func, hwritten⟩

theorem items (lib : Library) (is : List Item) :
    ∀ {s : State} {env : Env} {σ : Memory}, Begun s env σ →
    (∀ span d, .func span d ∈ is → arePlain d.body = true) → lowerItems is s = .ok ((), s') →
    ∃ env' σ', Begun s' env' σ' ∧
      Ahead s s' ∧ (∀ᶠ n in atTop, declareItems lib n env is σ = some (env', σ')) ∧
      ∀ span d, .func span d ∈ is → ∃ g, Written s' g d := by
  induction is with
  | nil =>
    intro s env σ h hplain hrun
    obtain ⟨-, rfl⟩ := pure_ok.mp hrun
    exact ⟨env, σ, h, .refl h.ready, .of_forall fun n => rfl, by simp⟩
  | cons i is ih =>
    intro s env σ h hplain hrun
    rw [lowerItems] at hrun
    obtain ⟨⟨⟩, s₁, hi, his⟩ := bind_ok.mp hrun
    rw [lowerItem_run h.ready] at hi
    have hrest := fun span d hmem => hplain span d (List.mem_cons_of_mem _ hmem)
    cases i with
    | decl span d =>
      obtain ⟨env₁, σ₁, h₁, ho₁, hdeclare⟩ := h.globals lib d.defs hi
      obtain ⟨env', σ', h', ho', hdeclares, hwritten⟩ := ih h₁ hrest his
      refine ⟨env', σ', h', ho₁.trans ho', ?_, by simpa using hwritten⟩
      filter_upwards [hdeclare, hdeclares] with n hn hns
      exact bind_some.mpr ⟨env₁, σ₁, hn, hns⟩
    | func span d =>
      obtain ⟨h₁, ho₁, g, hg⟩ := h.func (hplain span d (List.mem_cons_self ..)) hi
      obtain ⟨env', σ', h', ho', hdeclares, hwritten⟩ := ih h₁ hrest his
      refine ⟨env', σ', h', ho₁.trans ho', hdeclares, fun span' d' hmem => ?_⟩
      rcases List.mem_cons.mp hmem with heq | hmem
      · cases heq
        exact ⟨g, hg.ahead ho'⟩
      · exact hwritten span' d' hmem

end Begun

theorem names_openLibrary (hrun : openLibrary {} = .ok ((), s)) :
    s.module.globals = #[] ∧ ∀ p ∈ s.scope.outermost, ∃ g, p.2 = .func g := by
  have hglobals : Keeps (fun m : Module => m.globals = #[]) Build.declareLibrary := by
    refine .forM _ fun q _ => .bind ?_ fun _ => .pure ()
    refine .get_bind fun m => ?_
    split
    · exact .pure _
    · refine Keeps.bind (.get_bind fun _ =>
        Keeps.bind (.mapM _ fun _ _ => ⟨fun _ _ _ hm h => ?_⟩) fun _ =>
        .bind (.modify fun _ hm => hm) fun _ => .pure _) fun _ => .pure _
      cases h
      exact hm
  let Named (s : State) : Prop :=
    s.module.globals = #[] ∧ s.scope.inner = [] ∧ ∀ p ∈ s.scope.outermost, ∃ g, p.2 = .func g
  have hdefine (name : String) (span : Span) (g : FuncId) :
    Keeps Named (define name span (.func g)) := by
    refine ⟨fun s _ s' hs h => ?_⟩
    obtain ⟨scope, hdef, rfl⟩ := define_ok.mp h
    obtain ⟨rfl, -⟩ := define_top hs.2.1 hdef
    exact ⟨hs.1, rfl, List.forall_mem_cons.mpr ⟨⟨g, rfl⟩, hs.2.2⟩⟩
  have hkeeps : Keeps Named openLibrary := by
    refine keeps_openLibrary ⟨fun s _ s' hs h => ?_⟩ hdefine
    obtain ⟨hbuild, hscope⟩ := build_ok.mp h
    exact ⟨hglobals.ok _ _ _ hs.1 hbuild, hscope ▸ hs.2⟩
  have hnamed := hkeeps.ok {} () s ⟨rfl, rfl, by simp⟩ hrun
  exact ⟨hnamed.1, hnamed.2.2⟩

theorem exists_service {fn : Func} (h : Ready s) (hg : s.module.func? g = some fn)
    (hlayout : fn.layout = #[]) :
    ∃ k, Service.ofName? fn.name = some k := by
  have hlib : ∀ p ∈ Build.libraryFuncs, ∃ k, Service.ofName? p.1 = some k := by
    intro p hp
    simp only [Build.libraryFuncs, List.mem_cons, List.not_mem_nil, or_false] at hp
    rcases hp with rfl | rfl | rfl | rfl | rfl | rfl | rfl | rfl <;> exact ⟨_, rfl⟩
  obtain ⟨-, -, ⟨-, hmem⟩ | hfin⟩ := h.sound.funcs g fn hg
  · exact hlib _ hmem
  · have hcode := hfin.isDeclared
    rw [Func.isDeclared, hlayout] at hcode
    cases hcode

theorem begun_openLibrary (hs : {} = s) (hrun : openLibrary s = .ok ((), s')) :
    Begun s' library {} := by
  obtain ⟨hready, hbare⟩ := (gives_openLibrary_of_empty hs.symm).ok hrun
  rw [← hs] at hrun
  obtain ⟨hglobals, hnames⟩ := names_openLibrary hrun
  refine ⟨hready, rfl, by rw [hglobals]; exact .nil, fun lib fill a name b hb => ?_⟩
  have hmem := (resolve_top hready.top hready.listed.nodup).mp hb
  obtain ⟨g, rfl⟩ : ∃ g, b = .func g := hnames _ hmem
  obtain ⟨fn, hg, rfl⟩ := hready.listed.named name g hmem
  have hlayout := (hbare g fn hg).1
  obtain ⟨k, hk⟩ := exists_service hready hg hlayout
  exact ⟨.service k, by
    rw [library, hk]; rfl, .service hg (by rw [Func.isDeclared, hlayout]; rfl) hk⟩

theorem Begun.agree (h : Begun s env σ) : Agree (base s.module) σ (.start s.module) where
  object o r hr := by
    obtain ⟨id, hid, rfl⟩ := place_base.mp hr
    obtain ⟨ho, hid⟩ := List.getElem?_eq_some_iff.mp hid
    have hlt : o < σ.objects.length := h.objects.length_eq ▸ ho
    obtain ⟨init, dims, ws, hnode, hdims, hholds, hcells⟩ := h.objects.get ho hlt
    simp only [List.get_eq_getElem] at hnode hcells
    rw [hid] at hnode
    have hmem : id ∈ s.module.globals := Array.mem_toList_iff.mp (hid ▸ List.getElem_mem ho)
    refine ⟨_, _, List.getElem?_eq_getElem hlt, if_pos hmem, ?_⟩
    rw [hcells, globalWords_of_holds h.ready.sound.linked hnode hdims hholds]
    exact .words ws
  apart o o' r hr hr' := by
    obtain ⟨id, hid, rfl⟩ := place_base.mp hr
    obtain ⟨id', hid', heq⟩ := place_base.mp hr'
    cases heq
    obtain ⟨ho, hid⟩ := List.getElem?_eq_some_iff.mp hid
    obtain ⟨ho', hid'⟩ := List.getElem?_eq_some_iff.mp hid'
    exact h.ready.listed.globals.getElem_inj_iff.mp (hid.trans hid'.symm)
  pinned r v hv := by cases hv
  unpinned o r hr := rfl
  fresh k vals hk := by cases hk
  trace := h.trace.symm

/-- Behind the last item, everything that was written is compiled. -/
theorem Begun.compiled (h : Begun s env σ) (hw : Written s g d) : ∃ t fn s₀ s₁ s₂ s₃, t.func = g ∧
    (World.upTo lib fill s env).Compiled d t fn s₀ s₁ s₂ s₃ := by
  obtain ⟨t, fn, s₀, s₁, s₂, s₃, rfl, hlow, hfound, hplain, hnames⟩ := hw
  refine ⟨t, fn, s₀, s₁, s₂, s₃, rfl, hlow, ?_, hplain, fun a name b hb =>
    h.names lib fill a name b ?_⟩
  · obtain ⟨-, -, ⟨hlayout, -⟩ | hfin⟩ := h.ready.sound.funcs t.func fn hfound
    · obtain ⟨fn₂, -, hfin, -⟩ := hlow.completes
      have hcode := hfin.isDeclared
      rw [Func.isDeclared, hlayout] at hcode
      cases hcode
    · exact hfin
  · have hnodup : (((d.name, Binding.func t.func) :: s₀.scope.outermost).map (·.1)).Nodup :=
      h.ready.listed.nodup.sublist (hnames.sublist.map (·.1))
    exact (resolve_top h.ready.top h.ready.listed.nodup).mpr
      (hnames.subset ((resolve_top rfl hnodup).mp hb))

/-- Lowering preserves what a program means: whenever the evaluation of a call has a result, a run
of the code returns it, with the same calls of the library and the same words in storage. -/
theorem lower_preserves {p : Program} {m : Module} (h : p.lower = .ok m)
    (hplain : ∀ span d, .func span d ∈ p.items → arePlain d.body = true) (lib : Library) :
    ∃ globals σ₀,
      (∃ n₀, ∀ n ≥ n₀, declareItems lib n library p.items {} = some (globals, σ₀)) ∧
      Agree (base m) σ₀ (.start m) ∧
      ∀ span d, .func span d ∈ p.items →
        ∃ fn, m.funcNamed? d.name = some fn ∧ fn.isDeclared = false ∧
        ∀ fill n xs ys L σ st r σ' callers, (base m).Within L → Agree L σ st →
          List.Forall₂ (Passed L) xs ys → call lib globals n d xs σ = some (r, σ') →
          ∃ result st', Finishes m lib fill fn ys callers st result st' ∧
            (∀ w, r = some w → result = some (.word w)) ∧ (d.isVoid = true → result = none) ∧
            Agree L σ' st' := by
  generalize hstart : ({} : State) = s₀
  obtain ⟨s, hrun, rfl⟩ := lower_ok h hstart
  obtain ⟨⟨⟩, s₁, hopen, hitems⟩ := bind_ok.mp hrun
  obtain ⟨globals, σ₀, hbegun, -, hdeclares, hwritten⟩ :=
    (begun_openLibrary hstart hopen).items lib p.items hplain hitems
  refine ⟨globals, σ₀, eventually_atTop.mp hdeclares, hbegun.agree, fun span d hd => ?_⟩
  obtain ⟨g, hg⟩ := hwritten span d hd
  obtain ⟨t, fn, _, _, _, _, rfl, hc⟩ : ∃ t fn s₀ s₁ s₂ s₃, t.func = g ∧
      (World.upTo lib (fun _ _ => 0) s globals).Compiled d t fn s₀ s₁ s₂ s₃ := hbegun.compiled hg
  refine ⟨fn, hc.lowered.name ▸ funcNamed?_of_func? hbegun.ready hc.finished.found,
    hc.finished.isDeclared, ?_⟩
  intro fill n xs ys L σ st r σ' callers hbase hagree hpassed hcall
  obtain ⟨-, hcallOk, -⟩ :=
    World.all_ok (W := World.upTo lib fill s globals) (fun g d hg => hbegun.compiled hg) n
  obtain ⟨fn', hfound, -, hreturns⟩ := hcallOk hg hcall hpassed hbase hagree
  obtain rfl := Option.some.inj (hfound.symm.trans hc.finished.found)
  obtain ⟨b, st₁, id, val, result, hleads, hfunc, hblock, hrest, hnode, hresult, hr, hunit, ht⟩ :=
    hreturns callers
  obtain ⟨count, hcount⟩ := hleads.runs
  exact ⟨result, st₁.free b.locals, ⟨count, b, id, val, st₁, hcount,
    hfunc.trans hc.finished.ident.symm, hblock, hrest, hnode, hresult, rfl⟩,
    hr, fun hvoid => hunit (hc.ret_of_isVoid hvoid), ht.agree⟩

/-- `int sum(int xs[], int n) { int i = 0, s = 0; while (i < n) { s = s + xs[i]; i = i + 1; } total
= total + s; return s; }` -/
def sumDef : FuncDef where
  name := "sum"
  nameSpan := {}
  isVoid := false
  params := [⟨"xs", {}, some []⟩, ⟨"n", {}, none⟩]
  bodySpan := {}
  body := [
    .decl {} ⟨false, [⟨"i", {}, [], some (.expr (.lit {} 0))⟩,
      ⟨"s", {}, [], some (.expr (.lit {} 0))⟩]⟩,
    .loop {} (.binary {} .lt (.lval {} "i" []) (.lval {} "n" [])) (.block {} [
      .assign {} {} "s" [] (.binary {} .add (.lval {} "s" []) (.lval {} "xs" [.lval {} "i" []])),
      .assign {} {} "i" [] (.binary {} .add (.lval {} "i" []) (.lit {} 1))]),
    .assign {} {} "total" [] (.binary {} .add (.lval {} "total" []) (.lval {} "s" [])),
    .ret {} (some (.lval {} "s" []))]

/-- `int main() { a[2] = getint(); putint(sum(a, 3)); return total; }` -/
def sumMain : FuncDef where
  name := "main"
  nameSpan := {}
  isVoid := false
  params := []
  bodySpan := {}
  body := [
    .assign {} {} "a" [.lit {} 2] (.call {} "getint" []),
    .expr {} (some (.call {} "putint" [.call {} "sum" [.lval {} "a" [], .lit {} 3]])),
    .ret {} (some (.lval {} "total" []))]

/-- Both functions behind `int a[3] = {1, 2}, total;` -/
def sumSample : Program where
  span := {}
  items := [
    .decl {} ⟨false,
      [⟨"a", {}, [.lit {} 3], some (.list {} [.expr (.lit {} 1), .expr (.lit {} 2)])⟩,
        ⟨"total", {}, [], none⟩]⟩,
    .func {} sumDef, .func {} sumMain]

/-- Where the library reads a four, the program adds up seven. -/
theorem lower_preserves_sumSample :
    ∃ m fn st', sumSample.lower = .ok m ∧ m.funcNamed? "main" = some fn ∧
      Finishes m ⟨fun _ => some 4, fun _ => none, fun _ => none⟩ (fun _ _ => 0) fn [] [] (.start m)
        (some (.word 7)) st' ∧
      Agree (base m)
        { objects := [[some 1, some 2, some 4], [some 7], [some 3], [some 3], [some 7]],
          trace := [⟨"putint", [7]⟩, ⟨"getint", []⟩] } st' := by
  obtain ⟨m, hm⟩ : ∃ m, sumSample.lower = .ok m := exists_of_isOk (by decide +kernel)
  have hplain : ∀ span d, Item.func span d ∈ sumSample.items → arePlain d.body = true := by
    intro span d hd
    simp only [sumSample, List.mem_cons, reduceCtorEq, Item.func.injEq, List.not_mem_nil, or_false,
      false_or] at hd
    rcases hd with ⟨-, rfl⟩ | ⟨-, rfl⟩ <;> decide
  obtain ⟨globals, σ₀, ⟨n₀, hdeclares⟩, hagree, hfuncs⟩ :=
    lower_preserves hm hplain ⟨fun _ => some 4, fun _ => none, fun _ => none⟩
  have hdeclared : some (globals, σ₀) =
    some ((((library.bind "a" (.object { object := 0, dims := [3] })).bind "total"
      (.object { object := 1, dims := [] })).bind "sum" (.func sumDef)).bind "main" (.func sumMain),
      { objects := [[some 1, some 2, some 0], [some 0]], trace := [] }) :=
        (hdeclares (n₀ + 4) (Nat.le_add_right ..)).symm
  cases hdeclared
  obtain ⟨fn, hfn, -, hcalls⟩ := hfuncs {} sumMain (by simp [sumSample])
  obtain ⟨result, st', hfinishes, hresult, -, hagree'⟩ :=
    hcalls (fun _ _ => 0) 20 [] [] _ _ _ (some 7) _ [] (.refl _) hagree .nil
    (show _ = some (some 7,
      { objects := [[some 1, some 2, some 4], [some 7], [some 3], [some 3], [some 7]],
                              trace := [⟨"putint", [7]⟩, ⟨"getint", []⟩] }) by decide +kernel)
  obtain rfl := hresult 7 rfl
  exact ⟨m, fn, st', hm, hfn, hfinishes, hagree'⟩

end Sysy.Meaning
