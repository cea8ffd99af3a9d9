import Sysy.Proofs.Meaning.Globals

/-!
What becomes of the arguments of a function. The entry makes room for the result, copies each
argument into a local of its own, makes room for the other locals and goes to the body. All that
reads an argument is its copy: from then on, the name of a parameter stands for the local.
-/

namespace Sysy.Ir

variable {m m' : Module} {f g : Nat} {fn gn : Func}

/-! Who reads a value. -/

namespace Module

theorem exists_func?_modifyFunc (change : Func → Func) (h : m.func? g = some fn) :
    ∃ gn, (m.modifyFunc f change).func? g = some gn ∧ (gn = fn ∨ gn = change fn) := by
  have hsize := bounds_of_func? h
  obtain ⟨gn, hgn⟩ : ∃ gn, (m.modifyFunc f change).func? g = some gn := by
    rw [func?_of_pos _ hsize.1]
    exact ⟨_, Array.getElem?_eq_getElem (by rw [size_funcs_modifyFunc]; lia)⟩
  obtain ⟨fn', hfn', hcases⟩ := func?_modifyFunc_cases change hgn
  obtain rfl := Option.some.inj (h.symm.trans hfn')
  exact ⟨gn, hgn, hcases⟩

structure Attributed (m : Module) : Prop extends Referenced m where
  placed : ∀ u v, m.value? u = some v → v.node.operands ≠ [] → v.func ≠ 0 →
    ∃ fn, m.func? v.func = some fn ∧ u ∈ fn.code v.block
  constant : ∀ u v, m.value? u = some v → v.func = 0 → ∀ x ∈ v.node.operands, ∃ w, m.value? x =
    some w ∧ w.func = 0

namespace Attributed

theorem empty : Attributed {} :=
  ⟨referenced_empty, fun u v h => by simp [value?] at h, fun u v h => by simp [value?] at h⟩

theorem add {v : Value} (h : m.Attributed) (hsucc : v.node.successors = [])
    (hop : v.node.operands = [] ∨ v.func = 0 ∧ ∀ x ∈ v.node.operands, ∃ w, m.value? x = some w ∧
      w.func = 0) : (m.add v).2.Attributed where
  toReferenced := h.toReferenced.add hsucc
  placed u w hw hne hfunc := by
    rw [value?_add] at hw
    split at hw
    · cases hw
      exact hop.elim (fun hnil => absurd hnil hne) fun hzero => absurd hzero.1 hfunc
    · exact h.placed u w hw hne hfunc
  constant u w hw hfunc x hx := by
    have he := Extends.add m v
    rw [value?_add] at hw
    split at hw
    · cases hw
      rcases hop with hnil | ⟨-, hconst⟩
      · rw [hnil] at hx
        cases hx
      · obtain ⟨y, hy, hrest⟩ := hconst x hx
        exact ⟨y, he.value hy, hrest⟩
    · obtain ⟨y, hy, hrest⟩ := h.constant u w hw hfunc x hx
      exact ⟨y, he.value hy, hrest⟩

theorem modifyFunc (h : m.Attributed) (f : FuncId) {change : Func → Func}
    (hjumps : ∀ fn, (change fn).jumps = fn.jumps)
    (hcode : ∀ fn bb, (change fn).code bb = fn.code bb) : (m.modifyFunc f change).Attributed where
  toReferenced := h.toReferenced.modifyFunc f hjumps
  placed u w hw hne hfunc := by
    obtain ⟨fn, hf, hu⟩ := h.placed u w hw hne hfunc
    obtain ⟨gn, hg, rfl | rfl⟩ := exists_func?_modifyFunc (f := f) change hf
    · exact ⟨gn, hg, hu⟩
    · exact ⟨_, hg, hcode fn _ ▸ hu⟩
  constant := h.constant

theorem close {v : Value} (h : m.Attributed) (hf : m.func? f = some fn) (hv : v.func = f)
    (htakes : Build.Takes m f v.block) :
    (m.close f v).Attributed where
  toReferenced := h.toReferenced.close hf hv
  placed u w hw hne hfunc := by
    rw [value?_close] at hw
    split at hw
    · rename_i hu
      cases hw
      have hfound := (func?_close m v hf).trans (if_pos rfl)
      refine ⟨_, (congrArg (m.close f v).func? hv).trans hfound, ?_⟩
      rw [Lowering.Coded.code_close _ htakes hf, if_pos rfl, hu]
      exact List.mem_append_right _ (List.mem_singleton_self _)
    · obtain ⟨gn, hg, hu⟩ := h.placed u w hw hne hfunc
      obtain ⟨fn', b, hf', hb, -⟩ := htakes
      obtain ⟨gn', hg', hbefore⟩ := (Extends.close hf' hb).func hg
      exact ⟨gn', hg', (hbefore.code _).subset hu⟩
  constant u w hw hfunc x hx := by
    have hpos := (bounds_of_func? hf).1
    obtain ⟨fn', b, hf', hb, -⟩ := htakes
    rw [value?_close] at hw
    split at hw
    · cases hw
      lia
    · obtain ⟨y, hy, hrest⟩ := h.constant u w hw hfunc x hx
      exact ⟨y, (Extends.close hf' hb).value hy, hrest⟩

theorem pushFunc (h : m.Attributed) (hfn : fn.jumps = #[]) :
    Attributed { m with funcs := m.funcs.push fn } where
  toReferenced := h.toReferenced.pushFunc hfn
  placed u w hw hne hfunc := by
    obtain ⟨gn, hg, hu⟩ := h.placed u w hw hne hfunc
    have hbounds := bounds_of_func? hg
    refine ⟨gn, (func?_of_pos _ hbounds.1).trans ?_, hu⟩
    rw [Array.getElem?_push, if_neg (by lia)]
    exact (func?_of_pos _ hbounds.1).symm.trans hg
  constant := h.constant

end Attributed

end Module

theorem durable_attributed : Durable Module.Attributed where
  add hop hsucc h := h.add hsucc (.inl hop)
  close hf hv htakes h := h.close hf hv htakes
  modifyFunc f _ hjumps hcode h := h.modifyFunc f hjumps hcode
  pushFunc hfn h := h.pushFunc hfn

end Sysy.Ir

namespace Sysy.Lowering
open Ir

variable {m m' : Module} {f : Nat} {fn : Func} {s s' s₀ s₁ s₂ s₃ : State} {t : Target}
  {id : ValueId}

/-! What building code keeps is kept when functions are lowered. -/

section Durable
variable {P : Module → Prop} (hP : Durable P)
include hP

theorem durable_grows (hg : Grows f m m') (h : P m) : P m' := by
  induction hg with
  | refl => exact h
  | tail _ hs ih =>
    cases hs with
    | constant w => exact hP.add rfl rfl ih
    | inst hf hfunc htakes => exact hP.close hf hfunc htakes ih
    | label hf hname => exact hP.modifyFunc f (fun _ => rfl) (fun _ _ => Func.code_addBlock _) ih
    | start => exact hP.modifyFunc f (fun _ => rfl) (fun _ _ => rfl) ih

theorem durable_lowerParams (ps : List (Param × Ty × ValueId)) :
    Keeps (fun s : State => P s.module) (lowerParams f ps) := by
  induction ps with
  | nil => exact .pure ()
  | cons q ps ih =>
    obtain ⟨p, ty, arg⟩ := q
    rw [lowerParams]
    refine (keeps_build (hP.alloc ..)).bind fun slot =>
      (keeps_build (hP.emit f .unit rfl)).bind fun _ => .bind ?_ fun _ => ih
    refine ⟨fun s _ s' hs hrun => ?_⟩
    obtain ⟨scope, -, rfl⟩ := define_ok.mp hrun
    exact hs

theorem durable_finish (t : Target) (entry body : BlockId) :
    Keeps (fun s : State => P s.module) (finish t entry body) :=
  keeps_finish ((keeps_build (hP.place ..)).bind fun _ => keeps_build (hP.setCurrent ..))
    (fun _ => keeps_build (hP.load ..))
    (fun _ => keeps_build (hP.emit t.func .unit rfl)) (fun _ _ => keeps_build (hP.jumpAt ..))
    (fun _ => keeps_build (hP.unplace ..)) (fun _ => keeps_build (hP.jump ..)) entry body

theorem Lowered.durable {d : FuncDef} (h : Lowered m fn d t s₀ s₁ s₂ s₃) (hs : P s₀.module) :
    P s₃.module := by
  obtain ⟨params, args, s₄, s₅, hopens, hcopies, hcurrent⟩ := h.begins.copies
  have hcopied := (durable_lowerParams hP _).ok _ _ _ (hopens.kept hP hs) hcopies
  have hbegun := (keeps_build (hP.setCurrent t.func 3)).ok _ _ _ hcopied hcurrent
  obtain ⟨hp, -⟩ := (lasts_lowerStmts h.begins.here h.within.targets d.body).ok h.body
  exact (durable_finish hP t 1 3).ok _ _ _ (durable_grows hP hp.grows hbegun) h.finish

end Durable

/-! The values of globals belong to no function. -/

section Globals
variable {d : VarDef}

def Outside (m : Module) (id : ValueId) : Prop := ∃ w, m.value? id = some w ∧ w.func = 0

theorem Outside.extends (h : Outside m id) (he : Extends m m') : Outside m' id := by
  obtain ⟨w, hw, hrest⟩ := h
  exact ⟨w, he.value hw, hrest⟩

theorem outside_add {v : Value} (hv : v.func = 0) : Outside (m.add v).2 (m.values.size + 1) :=
  ⟨v, (m.value?_add v).trans (if_pos rfl), hv⟩

theorem attributed_aggregate (dims : List Nat) : ∀ {ws : List Word} {m m' : Module} {id : ValueId},
    aggregate dims ws m = .ok (id, m') → m.Attributed → m'.Attributed ∧ Extends m m' ∧
    Outside m' id := by
  induction dims with
  | nil =>
    intro ws m m' id hrun h
    cases hrun
    exact ⟨h.add rfl (.inl rfl), .add .., outside_add rfl⟩
  | cons n ns ih =>
    have hrows (rows : List (List Word)) : ∀ {m m' : Module} {ids : List ValueId},
        rows.mapM (aggregate ns) m = .ok (ids, m') → m.Attributed →
          m'.Attributed ∧ Extends m m' ∧ ∀ x ∈ ids, Outside m' x := by
      induction rows with
      | nil =>
        intro m m' ids hrun h
        cases hrun
        exact ⟨h, .refl m, by simp⟩
      | cons row rows ihr =>
        intro m m' ids hrun h
        rw [List.mapM_cons] at hrun
        obtain ⟨id, m₁, hrow, hrun⟩ := Build.bind_ok.mp hrun
        obtain ⟨rest, m₂, hrows, hpure⟩ := Build.bind_ok.mp hrun
        cases hpure
        obtain ⟨h₁, he₁, hid⟩ := ih hrow h
        obtain ⟨h₂, he₂, hids⟩ := ihr hrows h₁
        exact ⟨h₂, he₁.trans he₂, List.forall_mem_cons.mpr ⟨hid.extends he₂, hids⟩⟩
    intro ws m m' id hrun h
    rw [aggregate] at hrun
    obtain ⟨elems, m₁, helems, hadd⟩ := Build.bind_ok.mp hrun
    obtain ⟨h₁, he₁, hids⟩ := hrows _ helems h
    cases hadd
    exact ⟨h₁.add rfl (.inr ⟨rfl, fun x hx => hids x (List.mem_of_mem_filter hx)⟩),
      he₁.trans (.add ..), outside_add rfl⟩

theorem attributed_globalInit (hrun : globalInit d s = .ok (id, s')) (h : s.module.Attributed) :
    s'.module.Attributed ∧ Outside s'.module id := by
  have hadd {v : Value} {s s' : State} {id : ValueId}
    (hbuild : build (Build.add v) s = .ok (id, s')) (hfunc : v.func = 0)
      (hop : v.node.operands = []) (hsucc : v.node.successors = []) (h : s.module.Attributed) :
      s'.module.Attributed ∧ Outside s'.module id := by
    obtain ⟨hrun, -⟩ := build_ok.mp hbuild
    obtain ⟨rfl, hm⟩ := Prod.mk.inj (Except.ok.inj hrun)
    exact hm ▸ ⟨h.add hsucc (.inl hop), outside_add hfunc⟩
  unfold globalInit at hrun
  split at hrun
  · cases hinit : d.init with
    | none =>
      rw [hinit] at hrun
      exact hadd hrun rfl rfl rfl h
    | some i =>
      rw [hinit] at hrun
      cases i with
      | list => cases hrun
      | expr e =>
        obtain ⟨w, s₁, hfold, hrun⟩ := bind_ok.mp hrun
        obtain ⟨-, rfl⟩ := foldConst_ok.mp hfold
        exact hadd hrun rfl rfl rfl h
  · obtain ⟨dims, s₁, hdims, hrun⟩ := bind_ok.mp hrun
    obtain ⟨-, rfl⟩ := dimsOf_ok.mp hdims
    cases hinit : d.init with
    | none =>
      rw [hinit] at hrun
      exact hadd hrun rfl rfl rfl h
    | some i =>
      rw [hinit] at hrun
      obtain ⟨cells, s₁, hcells, hrest⟩ := bind_ok.mp hrun
      obtain ⟨-, rfl⟩ := check_ok.mp hcells
      obtain ⟨ws, s₂, hws, haggregate⟩ := bind_ok.mp hrest
      obtain ⟨rfl, -⟩ := (gives_foldCells cells.toList).ok hws
      obtain ⟨h', -, hid⟩ := attributed_aggregate dims (build_ok.mp haggregate).1 h
      exact ⟨h', hid⟩

theorem attributed_lowerGlobal (hs : Ready s) {isConst : Bool}
    (hrun : lowerGlobal isConst d s = .ok ((), s')) (h : s.module.Attributed) :
    s'.module.Attributed := by
  cases hscalar : isConst && d.dims.isEmpty with
  | true =>
    rw [lowerGlobal, if_pos hscalar] at hrun
    obtain ⟨e, w, scope, -, -, -, rfl⟩ := defineConst_ok hrun
    exact h
  | false =>
    obtain ⟨init, s₁, hinit, -, hm, -⟩ := exists_withGlobal hs hscalar hrun
    let v : Value :=
      { node := .global init, ty := .ptr (s₁.module.tyOf init), name := "@" ++ d.name }
    obtain ⟨h₁, w, hw, hfunc⟩ := attributed_globalInit hinit h
    have hop (x : ValueId) (hx : x ∈ v.node.operands) : Outside s₁.module x := by
      obtain rfl : x = init :=
        List.mem_singleton.mp (List.mem_of_mem_filter (show x ∈ [init].filter (· ≠ 0) from hx))
      exact ⟨w, hw, hfunc⟩
    have hadd : (s₁.module.add v).2.Attributed := h₁.add rfl (.inr ⟨rfl, hop⟩)
    rw [hm]
    exact ⟨⟨hadd.uses, hadd.jumps, hadd.known⟩, hadd.placed, hadd.constant⟩

end Globals

def Settled (m : Module) : Prop := ∀ g fn, m.func? g = some fn → fn.layout = #[] → fn.blocks = #[]

theorem attributed_lowerItems (is : List Item) :
    ∀ {s : State}, Ready s → s.module.Attributed ∧ Settled s.module →
    Gives (lowerItems is) s fun _ s' => s'.module.Attributed ∧ Settled s'.module := by
  induction is with
  | nil => exact fun _ h => Gives.pure h
  | cons i is ih =>
    rintro s hs ⟨h, hsettled⟩
    rw [lowerItems]
    refine Gives.bind (Q := fun _ s' => Ready s' ∧ s'.module.Attributed ∧ Settled s'.module)
      ((gives_lowerItem hs i).and ?_)
      fun _ _ h' => ih h'.1 h'.2
    have hglobal : s.scope.isGlobal = true := by simp [Scope.isGlobal, hs.top]
    unfold lowerItem
    refine Gives.get_bind ?_
    dsimp only
    rw [if_pos hglobal]
    cases i with
    | func span d =>
      refine (keeps_lowerFunc hs d).mono ?_
      rintro _ s' ⟨t, s₁, s₂, s₃, fn, hlow, hfound, ht, -, hm⟩
      refine ⟨hm ▸ hlow.durable durable_attributed h, fun g gn hg hlayout => ?_⟩
      by_cases hgf : g = t.func
      · subst hgf
        obtain rfl := Option.some.inj (hfound.symm.trans hg)
        obtain ⟨-, -, hfin, -⟩ := hlow.completes
        have hcode := hfin.isDeclared
        rw [Func.isDeclared, hlayout] at hcode
        cases hcode
      · exact hsettled g gn ((ht.other g hgf).symm.trans hg) hlayout
    | decl span d =>
      have hdefs (ds : List VarDef) : ∀ {s}, Ready s → s.module.Attributed ∧ Settled s.module →
          Gives (ds.forM (lowerGlobal d.isConst)) s fun _ s' => s'.module.Attributed ∧
            Settled s'.module := by
        induction ds with
        | nil => exact fun _ h => Gives.pure h
        | cons v ds ihd =>
          rintro s hs ⟨h, hsettled⟩
          rw [List.forM]
          refine Gives.bind ((gives_lowerGlobal hs d.isConst v).and
            (keeps_lowerGlobal hs d.isConst v)).ran ?_
          rintro _ s₁ ⟨hrun, hs₁, -, hfuncs⟩
          exact ihd hs₁ ⟨attributed_lowerGlobal hs hrun h, fun g gn hg => hsettled g gn
            ((hfuncs g).symm.trans hg)⟩
      exact hdefs d.defs hs ⟨h, hsettled⟩

theorem attributed_of_lower {p : Program} (h : p.lower = .ok m) : m.Attributed ∧ Settled m := by
  unfold Program.lower at h
  generalize hs : ({} : State) = s at h
  have hg : Gives (do openLibrary; lowerItems p.items : Lower Unit) s fun _ s' =>
      s'.module.Attributed ∧ Settled s'.module := by
    refine Gives.bind (gives_openLibrary_of_empty hs.symm).ran ?_
    rintro _ s₁ ⟨hrun, h₁, hbare⟩
    have hopen : Keeps (fun s : State => s.module.Attributed) openLibrary := by
      refine keeps_openLibrary (keeps_build durable_attributed.declareLibrary) fun name span g =>
        ⟨fun s _ s' h hrun => ?_⟩
      obtain ⟨scope, -, rfl⟩ := define_ok.mp hrun
      exact h
    exact attributed_lowerItems p.items h₁ ⟨hopen.ok _ _ _ (hs ▸ .empty) hrun,
      fun g gn hg _ => (hbare g gn hg).2⟩
  split at h
  · rename_i s' heq
    cases h
    exact hg.ok heq
  · cases h

/-! The entry of a function. -/

structure Copy (m : Module) (f : FuncId) (q : Param × Ty × ValueId)
    (c : ValueId × ValueId) : Prop where
  slot : m.value? c.1 = some { node := .alloc, ty := .ptr q.2.1, name := "%" ++ q.1.name, func := f,
                               block := 1 }
  store : m.value? c.2 = some { node := .store q.2.2 c.1, ty := .unit, func := f, block := 1 }

theorem Copy.extends {q : Param × Ty × ValueId} {c : ValueId × ValueId} (h : Copy m f q c)
    (he : Extends m m') : Copy m' f q c :=
  ⟨he.value h.slot, he.value h.store⟩

theorem entry_lowerParams (qs : List (Param × Ty × ValueId)) : ∀ {s s' : State} {fn : Func},
    lowerParams f qs s = .ok ((), s') → s.module.func? f = some fn → fn.entry = 1 → fn.current = 1 →
    ∃ fn' copies, s'.module.func? f = some fn' ∧ fn'.code 1 = fn.code 1 ++ copies.flatMap
      (fun c => [c.1, c.2]) ∧
      List.Forall₂ (Copy s'.module f) qs copies ∧ Extends s.module s'.module := by
  induction qs with
  | nil =>
    intro s s' fn hrun hf hentry hcur
    obtain ⟨-, rfl⟩ := pure_ok.mp hrun
    exact ⟨fn, [], hf, by simp, .nil, .refl _⟩
  | cons q qs ih =>
    intro s s' fn hrun hf hentry hcur
    obtain ⟨p, ty, arg⟩ := q
    rw [lowerParams] at hrun
    obtain ⟨slot, s₁, halloc, hrun⟩ := bind_ok.mp hrun
    obtain ⟨copy, s₂, hstore, hrun⟩ := bind_ok.mp hrun
    obtain ⟨⟨⟩, s₃, hdefine, hrun⟩ := bind_ok.mp hrun
    obtain ⟨scope, -, rfl⟩ := define_ok.mp hdefine
    obtain ⟨-, he₁, -⟩ := of_insert halloc (Build.alloc_insert hf)
    obtain ⟨fn₁, hf₁, hcode₁, hentry₁, hcur₁, hvalue₁⟩ :=
      code_of_insert halloc (Build.alloc_insert hf) hf
    obtain ⟨-, he₂, -⟩ := of_insert hstore (Build.emit_insert hf₁)
    obtain ⟨fn₂, hf₂, hcode₂, hentry₂, hcur₂, hvalue₂⟩ :=
      code_of_insert hstore (Build.emit_insert hf₁) hf₁
    rw [hentry] at hcode₁ hvalue₁
    rw [hcur₁, hcur] at hcode₂ hvalue₂
    obtain ⟨fn', copies, hf', hcode, hcopies, he⟩ :=
      ih hrun hf₂ (hentry₂.trans (hentry₁.trans hentry)) (hcur₂.trans (hcur₁.trans hcur))
    have hcopy : Copy s'.module f (p, ty, arg) (slot, copy) :=
      ⟨he.value (he₂.value hvalue₁), he.value hvalue₂⟩
    refine ⟨fn', (slot, copy) :: copies, hf', ?_, .cons hcopy hcopies, (he₁.trans he₂).trans he⟩
    rw [hcode, hcode₂, hcode₁]
    simp

/-- What stands in the entry of a function, from its first instruction to its last. -/
theorem Lowered.entry {d : FuncDef} (h : Lowered m fn d t s₀ s₁ s₂ s₃) : ∃ copies locals last bb,
    fn.params.length = d.params.length ∧
    fn.code 1 = t.result.toList ++ copies.flatMap (fun c => [c.1, c.2]) ++ locals ++ [last] ∧
    (∀ x ∈ t.result.toList ++ locals, IsLocal m t.func x) ∧
    List.Forall₂ (Copy m t.func) (d.params.zip (fn.params.zip fn.args)) copies ∧
    m.node? last = some (.jump bb) := by
  obtain ⟨params, args, s₄, s₅, hopens, hcopies, hcurrent⟩ := h.begins.copies
  obtain ⟨fn₄, hc₄, hb₄, -, -, hcur₄, -⟩ := hopens.entering.code
  obtain ⟨fn₄', hf₄, hcode₄⟩ := hopens.entry
  obtain rfl := Option.some.inj (hc₄.found.symm.trans hf₄)
  obtain ⟨fn₅, copies, hf₅, hcode₅, hcopied, he₅⟩ := entry_lowerParams _ hcopies hf₄ hc₄.entry hcur₄
  obtain rfl :
    { s₅ with module := s₅.module.modifyFunc t.func fun fn => { fn with current := 3 } } = s₁ :=
    (Prod.mk.inj (Except.ok.inj hcurrent)).2
  have he₁ : Extends s₅.module (s₅.module.modifyFunc t.func fun fn => { fn with current := 3 }) :=
    .modifyFunc hf₅ _ ⟨rfl, rfl, rfl, rfl, rfl, rfl, rfl, le_rfl, fun _ => List.prefix_rfl⟩
  obtain ⟨fn₁, hbody₁, -⟩ := h.begins.here.body
  have hcode₁ : fn₁.code 1 = fn₅.code 1 := by
    have hfound := hbody₁.found
    rw [Module.func?_modifyFunc _ _ (Module.bounds_of_func? hf₅).1, if_pos rfl, hf₅] at hfound
    cases hfound
    rfl
  -- the body adds locals to the entry, and the end adds a jump
  obtain ⟨hp, h₂⟩ := (lasts_lowerStmts h.begins.here h.within.targets d.body).ok h.body
  obtain ⟨fn₂, locals, hbody₂, hcode₂, hlocals⟩ := hp.grows.entry hbody₁
  obtain ⟨fn₂', hc₂, hfin, hcompletes, -, he₃⟩ := h.completes
  obtain rfl := Option.some.inj (hbody₂.found.symm.trans hc₂.found)
  obtain ⟨last, v, hcode, hlast, hjump⟩ := hcompletes.entry
  have hem : Extends s₂.module m := he₃.trans h.grown
  have he₁m := he₁.trans (hp.grows.extends.trans hem)
  obtain ⟨fn', hf', hb'⟩ := (he₅.trans (he₁.trans (hp.grows.extends.trans he₃))).func hf₄
  obtain rfl := Option.some.inj (hfin.found.symm.trans hf')
  have hargs : fn.args = args := hb'.args.trans hb₄.args
  have hparams : fn.params = params := hb'.params.trans hb₄.params
  have hlength := ((gives_paramTys d.params).ok hopens.types).2.1
  refine ⟨copies, locals, last, 3, hparams ▸ hlength, ?_, fun x hx => ?_, ?_,
    Module.node?_eq (h.grown.value hlast) |>.trans (congrArg some hjump)⟩
  · rw [hcode, hcode₂, hcode₁, hcode₅, hcode₄]
  · rcases List.mem_append.mp hx with hx | hx
    · obtain ⟨w, hw, hrest⟩ := hopens.alloc x (Option.mem_toList.mp hx)
      exact ⟨w, he₁m.value (he₅.value hw), hrest⟩
    · exact (hlocals x hx).extends hem
  · rw [hargs, hparams]
    exact hcopied.imp fun _ _ hc => hc.extends he₁m

/-! Who reads an argument. -/

theorem reader_of_arg (ha : m.Attributed) (hsettled : Settled m) (hs : Sound m)
    (hfin : Finished m f fn) {arg i u : Nat} {w v : Value} (hw : m.value? arg = some w)
    (hnode : w.node = .arg i) (hfunc : w.func = f) (hv : m.value? u = some v)
    (hx : arg ∈ v.node.operands) :
    u ∈ fn.code 1 ∧ ∃ dest, v.node = .store arg dest ∧ dest ≠ arg := by
  have hpos := (Module.bounds_of_func? hfin.found).1
  by_cases hzero : v.func = 0
  · obtain ⟨w', hw', hfunc'⟩ := ha.constant u v hv hzero arg hx
    obtain rfl := Option.some.inj (hw.symm.trans hw')
    exact absurd (hfunc.symm.trans hfunc') (Nat.ne_of_gt hpos)
  · obtain ⟨gn, hg, hu⟩ := ha.placed u v hv (List.ne_nil_of_mem hx) hzero
    obtain ⟨-, -, ⟨hlayout, -⟩ | hgfin⟩ := hs.funcs _ gn hg
    · have hblocks := hsettled _ gn hg hlayout
      simp [Func.code, Func.block?, hblocks] at hu
    · obtain ⟨v', hv', -, -, hok⟩ := hgfin.inst _ u hu
      obtain rfl := Option.some.inj (hv.symm.trans hv')
      rcases hok.operand arg hx with ⟨ty, w', hw', -, hread⟩ | ⟨w', j, hw', -, hfunc', hentry, dest,
        hstore, x, hx', -, hread⟩
      · obtain rfl := Option.some.inj (hw.symm.trans hw')
        simp only [Value.IsReadable, hnode] at hread
      · obtain rfl := Option.some.inj (hw.symm.trans hw')
        obtain rfl := Option.some.inj
          (hfin.found.symm.trans ((congrArg m.func? (hfunc.symm.trans hfunc')).trans hg))
        refine ⟨by rwa [hentry, hfin.entry] at hu, dest, hstore, ?_⟩
        rintro rfl
        obtain rfl := Option.some.inj (hw.symm.trans hx')
        simp only [Value.IsReadable, hnode] at hread

/-- The argument is copied into the local `c.1` by the instruction `c.2`, and nothing else reads
it. -/
structure Saved (m : Module) (fn : Func) (arg : ValueId) (c : ValueId × ValueId) : Prop where
  slot : ∃ name, m.value? c.1 =
    some { node := .alloc, ty := .ptr (m.tyOf arg), name, func := fn.id, block := fn.entry }
  store : m.value? c.2 = some { node := .store arg c.1, ty := .unit, func := fn.id,
                                block := fn.entry }
  users : m.users arg = [c.2]

/-- The entry of a function makes room for locals, copies each argument in turn into a local of its
own and ends with a jump. -/
structure Saves (m : Module) (fn : Func) (copies : List (ValueId × ValueId)) : Prop where
  args : ArgsOk m fn
  entry : ∃ before after last target,
    fn.code fn.entry = before ++ copies.flatMap (fun c => [c.1, c.2]) ++ after ++ [last] ∧
      (∀ x ∈ before ++ after, m.node? x = some .alloc) ∧ m.node? last = some (.jump target)
  saved : List.Forall₂ (Saved m fn) fn.args copies
  own : (copies.map (·.1)).Nodup
  /-- Whatever reads an argument of the function copies it. -/
  only : ∀ x w i, m.value? x = some w → w.node = .arg i → w.func = fn.id → ∀ u ∈ m.users x,
    x ∈ fn.args ∧ u ∈ copies.map (·.2)

theorem ArgsOk.nodup (h : ArgsOk m fn) : fn.args.Nodup := by
  have hnodes : fn.args.map m.node? = fn.params.zipIdx.map fun q => some (.arg q.2) := by
    refine List.forall₂_eq_eq_eq ▸ List.forall₂_map_left_iff.mpr (List.forall₂_map_right_iff.mpr
      (h.imp fun x q hx => ?_))
    obtain ⟨v, hv, hnode, -⟩ := hx
    rw [Module.node?_eq hv, hnode]
  have hnumbers : (fn.params.zipIdx.map fun q => some (Node.arg q.2)).Nodup := by
    have hmap : (fn.params.zipIdx.map fun q => some (Node.arg q.2)) =
        (fn.params.zipIdx.map Prod.snd).map fun i => some (Node.arg i) := by
      rw [List.map_map]
      rfl
    rw [hmap, List.zipIdx_map_snd]
    exact List.Nodup.map (fun i j hij => by simpa using hij) List.nodup_range'
  exact .of_map _ (hnodes ▸ hnumbers)

theorem forall₂_of_zip {α β γ : Type} {R : α × β → γ → Prop} {as : List α} :
    ∀ {bs : List β} {cs : List γ},
    as.length = bs.length → List.Forall₂ R (as.zip bs) cs →
    List.Forall₂ (fun b c => ∃ a, R (a, b) c) bs cs := by
  induction as with
  | nil =>
    intro bs cs hlen h
    cases bs with
    | nil =>
      cases h
      exact .nil
    | cons => cases hlen
  | cons a as ih =>
    intro bs cs hlen h
    cases bs with
    | nil => cases hlen
    | cons b bs =>
      cases h with
      | cons hhead htail => exact .cons ⟨a, hhead⟩ (ih (Nat.succ.inj hlen) htail)

theorem sublist_flatMap_fst (copies : List (ValueId × ValueId)) :
    (copies.map (·.1)).Sublist (copies.flatMap fun c => [c.1, c.2]) := by
  induction copies with
  | nil => exact .slnil
  | cons c copies ih => exact .cons_cons _ (.cons _ ih)

theorem Copy.operands {q : Param × Ty × ValueId} {c : ValueId × ValueId} (h : Copy m f q c)
    {w : Value} (hw : m.value? q.2.2 = some w) : m.operands c.2 = [q.2.2, c.1] := by
  have harg : q.2.2 ≠ 0 := Nat.ne_of_gt (Module.bounds_of_value? hw).1
  have hslot : c.1 ≠ 0 := Nat.ne_of_gt (Module.bounds_of_value? h.slot).1
  rw [Module.operands_eq h.store]
  simp [Node.operands, harg, hslot]

theorem mem_operands_of_mem_users (h : m.Referenced) {x u : ValueId} (hu : u ∈ m.users x) :
    ∃ v, m.value? u = some v ∧ x ∈ v.node.operands := by
  have hx : x ∈ m.operands u :=
    List.count_pos_iff.mp (h.count_users u x ▸ List.count_pos_iff.mpr hu)
  cases hv : m.value? u with
  | none =>
    rw [Module.operands_eq_nil hv] at hx
    cases hx
  | some v => exact ⟨v, rfl, Module.operands_eq hv ▸ hx⟩

/-- An argument that is copied once is read by nothing else. -/
theorem users_eq (h : m.Referenced) {arg slot store : ValueId}
    (hstore : m.operands store = [arg, slot]) (hne : slot ≠ arg)
    (honly : ∀ u ∈ m.users arg, u = store) : m.users arg = [store] := by
  refine List.perm_singleton.mp (List.perm_iff_count.mpr fun u => ?_)
  by_cases hu : u = store
  · rw [h.count_users, hu, hstore]
    simp [hne]
  · rw [List.count_eq_zero_of_not_mem fun hmem => hu (honly u hmem), List.count_eq_zero_of_not_mem
      (by simpa using hu)]

theorem Copy.slot_of_arg {q : Param × Ty × ValueId} {c : ValueId × ValueId} (h : Copy m f q c)
    (hfin : Finished m f fn) {w : Value} {i : Nat} (hw : m.value? q.2.2 = some w)
    (hnode : w.node = .arg i) (hmem : c.2 ∈ fn.code 1) : c.1 ≠ q.2.2 ∧
      m.value? c.1 = some { node := .alloc, ty := .ptr (m.tyOf q.2.2), name := "%" ++ q.1.name,
                            func := f, block := 1 } := by
  obtain ⟨u, hu, -, -, hok⟩ := hfin.inst 1 _ hmem
  obtain rfl := Option.some.inj (h.store.symm.trans hu)
  have hreads : q.2.2 ∈ (Node.store q.2.2 c.1).operands := by
    have hoperands := h.operands hw
    rw [Module.operands_eq h.store] at hoperands
    rw [hoperands]
    exact List.mem_cons_self ..
  rcases hok.operand _ hreads with ⟨_, w', hw', -, hread⟩ | ⟨w', j, hw', -, -, -, dest, hstore, x,
    hx, htype, -⟩
  · obtain rfl := Option.some.inj (hw.symm.trans hw')
    simp only [Value.IsReadable, hnode] at hread
  · obtain rfl := Option.some.inj (hw.symm.trans hw')
    obtain rfl := (Node.store.inj hstore).2
    obtain rfl := Option.some.inj (h.slot.symm.trans hx)
    refine ⟨fun heq => ?_, ?_⟩
    · rw [heq, hw] at hx
      cases hx
      cases hnode
    · rw [h.slot, Module.tyOf_eq hw]
      exact congrArg (fun ty => some (Value.mk .alloc ty ("%" ++ q.1.name) f 1)) htype

theorem copy_of_store {args before after code : List ValueId} {copies : List (ValueId × ValueId)}
    {last u arg dest : ValueId} {target : BlockId} {v : Value}
    (hcopy : List.Forall₂ (fun arg c => ∃ ty p, Copy m f (p, ty, arg) c) args copies)
    (hcode : code = before ++ copies.flatMap (fun c => [c.1, c.2]) ++ after ++ [last])
    (hlocals : ∀ x ∈ before ++ after, m.node? x = some .alloc)
    (hlast : m.node? last = some (.jump target)) (hu : u ∈ code) (hv : m.value? u = some v)
    (hnode : v.node = .store arg dest) :
    ∃ i, ∃ (hi : i < args.length) (hi' : i < copies.length), args[i] = arg ∧ copies[i].2 = u := by
  have hstore : m.node? u = some (.store arg dest) := by rw [Module.node?_eq hv, hnode]
  have hlocal (hx : u ∈ before ++ after) : False := by
    rw [hlocals u hx] at hstore
    cases hstore
  have hcases : u ∈ before ++ after ∨ u ∈ copies.flatMap (fun c => [c.1, c.2]) ∨ u = last := by
    rw [hcode] at hu
    simp only [List.mem_append, List.mem_singleton] at hu ⊢
    tauto
  -- a local is no store, and neither is the local of a pair
  rcases hcases with hu | hu | rfl
  · exact (hlocal hu).elim
  · obtain ⟨c, hc, hu⟩ := List.mem_flatMap.mp hu
    obtain ⟨i, hi', rfl⟩ := List.getElem_of_mem hc
    have hi : i < args.length := hcopy.length_eq.symm ▸ hi'
    obtain ⟨ty, q, hci⟩ := hcopy.get hi hi'
    simp only [List.mem_cons, List.not_mem_nil, or_false] at hu
    rcases hu with rfl | rfl
    · cases Option.some.inj (hci.slot.symm.trans hv)
      cases hnode
    · cases Option.some.inj (hci.store.symm.trans hv)
      exact ⟨i, hi, hi', (Node.store.inj hnode).1, rfl⟩
  · rw [hlast] at hstore
    cases hstore

theorem exists_saves {p : Program} (hp : p.lower = .ok m) (hf : m.func? f = some fn)
    (hcode : fn.isDeclared = false) :
    ∃ copies, Saves m fn copies := by
  obtain ⟨scope, hready⟩ := ready_of_lower hp
  obtain ⟨hattributed, hsettled⟩ := attributed_of_lower hp
  have hlayout : fn.layout ≠ #[] := by
    intro hnil
    rw [Func.isDeclared, hnil] at hcode
    cases hcode
  obtain ⟨span, d, t, s₀, s₁, s₂, s₃, -, rfl, hlow⟩ := recorded_of_lower hp f fn hf hlayout
  obtain ⟨hid, hargs, ⟨hnone, -⟩ | hfin⟩ := hready.sound.funcs _ fn hf
  · exact absurd hnone hlayout
  -- the entry is the slot of the result, the copies, the other locals, and a jump
  obtain ⟨copies, locals, last, target, hlength, hentry, hlocals, hcopies, hlast⟩ := hlow.entry
  have hargslength : fn.params.length = fn.args.length := by simpa using hargs.length_eq.symm
  have hcopy : List.Forall₂ (fun arg c => ∃ ty p, Copy m t.func (p, ty, arg) c) fn.args copies :=
    forall₂_of_zip hargslength
      (forall₂_of_zip (by simpa [← hargslength] using hlength.symm) hcopies)
  have hpairs : (copies.flatMap fun c => [c.1, c.2]).Sublist (fn.code 1) := by
    rw [hentry]
    exact ((List.sublist_append_right ..).trans (List.sublist_append_left ..)).trans
      (List.sublist_append_left ..)
  have hreader {x i u : Nat} {w : Value} (hw : m.value? x = some w) (hnode : w.node = .arg i)
    (hfunc : w.func = fn.id)
      (hu : u ∈ m.users x) :
      ∃ k, ∃ (hk : k < fn.args.length) (hk' : k < copies.length), fn.args[k] = x ∧
        copies[k].2 = u := by
    obtain ⟨v, hv, hx⟩ := mem_operands_of_mem_users hattributed.toReferenced hu
    obtain ⟨hu, dest, hstore, -⟩ :=
      reader_of_arg hattributed hsettled hready.sound hfin hw hnode (hid ▸ hfunc) hv hx
    exact copy_of_store hcopy hentry (fun x hx => (hlocals x hx).node) hlast hu hv hstore
  -- each argument is saved by the copy at its place, and whatever reads one is its copy
  refine ⟨copies, hargs, ⟨_, _, last, target, hfin.entry ▸ hentry,
    fun x hx => (hlocals x hx).node, hlast⟩, ?_,
    ((hfin.sorted 1).imp fun h => Nat.ne_of_lt h).sublist
      ((sublist_flatMap_fst copies).trans hpairs),
    fun x w i hw hnode hfunc u hu => ?_⟩
  · refine List.forall₂_iff_get.mpr ⟨hcopy.length_eq, fun i hi hi' => ?_⟩
    obtain ⟨ty, q, hc⟩ := hcopy.get hi hi'
    obtain ⟨w, hw, hnode, -, hfunc⟩ := hargs.get hi (by simpa [← hargslength] using hi)
    have hmem : (copies.get ⟨i, hi'⟩).2 ∈ fn.code 1 :=
      hpairs.subset (List.mem_flatMap.mpr ⟨copies.get ⟨i, hi'⟩, List.get_mem .., by simp⟩)
    obtain ⟨hne, hslot⟩ := hc.slot_of_arg hfin hw hnode hmem
    rw [← hid, ← hfin.entry] at hslot
    refine ⟨⟨_, hslot⟩, ?_, users_eq hattributed.toReferenced (hc.operands hw) hne fun u hu => ?_⟩
    · rw [hc.store, hid, hfin.entry]
    · obtain ⟨k, hk, hk', harg, rfl⟩ := hreader hw hnode hfunc hu
      obtain rfl : k = i := hargs.nodup.getElem_inj_iff.mp harg
      rfl
  · obtain ⟨k, hk, hk', rfl, rfl⟩ := hreader hw hnode hfunc hu
    exact ⟨List.getElem_mem hk, List.mem_map_of_mem (List.getElem_mem hk')⟩

end Sysy.Lowering
