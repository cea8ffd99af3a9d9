import Sysy.Proofs.Lowering.Function

/-!
Lowering a program never meets a fault, and every module that it gives is sound.
-/

namespace Sysy.Lowering
open Ir

variable {s s' : State} {m m' : Module} {f g : Nat} {fn : Func}

theorem size_placeElems {dims : List Nat} (is : List Init) : ∀ {out cells : Cells},
    placeElems dims out is = .ok cells → out.size ≤ product dims → cells.size ≤ product dims := by
  induction is with
  | nil =>
    intro out cells h hout
    rw [placeElems] at h
    obtain rfl := Except.ok.inj h
    exact hout
  | cons i is ih =>
    intro out cells h _
    rw [placeElems] at h
    simp only [bind, Except.bind] at h
    split at h
    · cases h
    · split at h
      · cases h
      · exact ih h (not_lt.mp ‹_›)

theorem size_flatten {dims : List Nat} {i : Init} {cells : Cells} (h : flatten dims i = .ok cells) :
    cells.size = product dims := by
  cases i with
  | expr e => cases h
  | list span elems =>
    rw [flatten] at h
    simp only [bind, Except.bind] at h
    split at h
    · cases h
    · rename_i part hpart
      obtain rfl := Except.ok.inj h
      have := size_placeElems elems hpart (by simp)
      simp only [Array.size_append, Array.size_replicate]
      omega

theorem flatten_pieces {α : Type} (size count : Nat) (xs : List α) (h : xs.length = count * size) :
    (pieces size count xs).flatten = xs ∧ ∀ p ∈ pieces size count xs, p.length = size := by
  induction count generalizing xs with
  | zero =>
    obtain rfl : xs = [] := List.length_eq_zero_iff.mp (by simpa using h)
    simp [pieces]
  | succ count ih =>
    rw [Nat.succ_mul] at h
    obtain ⟨hflat, hlen⟩ := ih (xs.drop size) (by rw [List.length_drop]; omega)
    rw [pieces, List.flatten_cons, hflat, List.take_append_drop]
    refine ⟨rfl, fun p hp => ?_⟩
    rcases List.mem_cons.mp hp with rfl | hp
    · rw [List.length_take]
      omega
    · exact hlen p hp

theorem length_pieces {α : Type} (size count : Nat) (xs : List α) :
    (pieces size count xs).length = count := by
  induction count generalizing xs with
  | zero => rfl
  | succ count ih => rw [pieces, List.length_cons, ih]

theorem Holds.isUnit {ds : List Nat} {id : Nat} {ws : List Word} (h : Holds m ds id ws) :
    ∃ v, m.value? id = some v ∧ v.ty = .ofDims ds ∧ v.ty.isUnit = false := by
  cases ds with
  | nil =>
    obtain ⟨v, hv, hty, -⟩ := h
    exact ⟨v, hv, hty, by rw [hty]; rfl⟩
  | cons n ns =>
    obtain ⟨v, hv, hty, -⟩ := h
    exact ⟨v, hv, hty, by rw [hty]; rfl⟩

theorem aggregate_rows {ns : List Nat}
    (hrow : ∀ (ws : List Word) (m : Module), ws.length = product ns → Linked m →
      ∃ id m', aggregate ns ws m = .ok (id, m') ∧ m'.funcs = m.funcs ∧ Touches 0 m m' ∧ Linked m' ∧
        Holds m' ns id ws)
    (rows : List (List Word)) : ∀ m, (∀ p ∈ rows, p.length = product ns) → Linked m → ∃ ids m',
      rows.mapM (aggregate ns) m = .ok (ids, m') ∧ m'.funcs = m.funcs ∧ Touches 0 m m' ∧ Linked m' ∧
        List.Forall₂ (Holds m' ns) ids rows := by
  induction rows with
  | nil => exact fun m _ hl => ⟨[], m, rfl, rfl, .refl m, hl, .nil⟩
  | cons row rows ih =>
    intro m hrows hl
    obtain ⟨id, m₁, hrun, hfuncs₁, ht₁, hl₁, hholds⟩ := hrow row m (hrows row (by simp)) hl
    obtain ⟨ids, m₂, hrun₂, hfuncs₂, ht₂, hl₂, hrest⟩ :=
      ih m₁ (fun p hp => hrows p (by simp [hp])) hl₁
    refine ⟨id :: ids, m₂, ?_, hfuncs₂.trans hfuncs₁, ht₁.trans ht₂, hl₂,
      .cons (hholds.extends ht₂.grown) hrest⟩
    rw [List.mapM_cons]
    simp only [bind, StateT.bind, hrun, Except.bind, hrun₂]
    rfl

theorem aggregate_run (ds : List Nat) (hds : ∀ d ∈ ds, 0 < d) : ∀ (ws : List Word) (m : Module),
    ws.length = product ds → Linked m → ∃ id m', aggregate ds ws m = .ok (id, m') ∧
      m'.funcs = m.funcs ∧ Touches 0 m m' ∧ Linked m' ∧ Holds m' ds id ws := by
  induction ds with
  | nil =>
    intro ws m hlen hl
    obtain ⟨w, rfl⟩ := List.length_eq_one_iff.mp hlen
    let v : Value := { node := .integer w, ty := .i32 }
    exact ⟨_, (m.add v).2, rfl, rfl, .add (.inr rfl) (by simp [v]),
      hl.add (by simp [Grounded, v, Node.operands]),
      v, by rw [Module.value?_add, if_pos rfl], rfl, .inr ⟨w, rfl, rfl⟩⟩
  | cons n ns ih =>
    intro ws m hlen hl
    have hn : 0 < n := hds n (by simp)
    have hsize : ws.length / n = product ns := by
      rw [hlen, product_cons, Nat.mul_div_cancel_left _ hn]
    obtain ⟨hflat, hpieces⟩ :=
      flatten_pieces (ws.length / n) n ws (by rw [hsize, hlen, product_cons])
    obtain ⟨ids, m₁, hrun, hfuncs, ht, hl₁, hholds⟩ :=
      aggregate_rows (ih fun d hd => hds d (List.mem_cons_of_mem _ hd))
      (pieces (ws.length / n) n ws) m (fun p hp => (hpieces p hp).trans hsize) hl
    let v : Value := { node := .aggregate ids, ty := .ofDims (n :: ns) }
    have hv : Grounded m₁ v.node := by
      intro x hx
      simp only [v, Node.operands, List.mem_filter] at hx
      obtain ⟨i, hi, rfl⟩ := List.getElem_of_mem hx.1
      have hlen := hholds.length_eq
      obtain ⟨w, hw, -, hunit⟩ := (hholds.get hi (by omega)).isUnit
      exact ⟨w, hw, hunit⟩
    have ht₁ : Touches 0 m₁ (m₁.add v).2 := .add (.inr rfl) (by simp [v])
    refine ⟨m₁.values.size + 1, (m₁.add v).2, ?_, hfuncs, ht.trans ht₁, hl₁.add hv,
      v, by rw [Module.value?_add, if_pos rfl], rfl,
      .inr ⟨ids, _, rfl, ?_, hholds.imp fun _ _ h => h.extends ht₁.grown, hflat.symm⟩⟩
    · simp only [aggregate, bind, StateT.bind, hrun, Except.bind]
      rfl
    · rw [hholds.length_eq, length_pieces]

theorem gives_foldCells (cs : List (Option Expr)) :
    Gives (cs.mapM foldCell) s fun ws s' => s' = s ∧ ws.length = cs.length := by
  induction cs with
  | nil => exact Gives.pure ⟨rfl, rfl⟩
  | cons c cs ih =>
    have hc : Gives (foldCell c) s fun _ s' => s' = s := by
      cases c with
      | none => exact Gives.pure rfl
      | some e => exact Gives.foldConst fun _ _ => rfl
    rw [List.mapM_cons]
    refine Gives.bind hc ?_
    rintro w s₁ hs₁
    subst s₁
    refine Gives.bind ih ?_
    rintro ws s₁ ⟨hs₁, hlen⟩
    exact Gives.pure ⟨hs₁, by simp [hlen]⟩

theorem holds_zeroInit (m : Module) (ds : List Nat) :
    Holds (m.add { node := .zeroInit, ty := .ofDims ds }).2 ds (m.values.size + 1)
    (List.replicate (product ds) 0) := by
  cases ds with
  | nil => exact ⟨_, by rw [Module.value?_add, if_pos rfl], rfl, .inl ⟨rfl, rfl⟩⟩
  | cons n ns => exact ⟨_, by rw [Module.value?_add, if_pos rfl], rfl, .inl ⟨rfl, rfl⟩⟩

theorem gives_globalInit (hl : Linked s.module) (d : VarDef) :
    Gives (globalInit d) s fun id s' => s'.scope = s.scope ∧ Touches 0 s.module s'.module ∧
      Linked s'.module ∧ ∃ ds ws, Shaped ds ∧ Holds s'.module ds id ws := by
  have hadd {v : Value} (hfunc : v.func = 0) (hnode : v.node.operands = [])
    (hnot : ∀ init, v.node ≠ .global init) :
      Touches 0 s.module (s.module.add v).2 ∧ Linked (s.module.add v).2 :=
    ⟨.add (.inr hfunc) hnot, hl.add (by simp [Grounded, hnode])⟩
  have hzero (ds : List Nat) (hds : Shaped ds) : Gives (build (Build.zeroInit (Ty.ofDims ds))) s
    fun id s' =>
      s'.scope = s.scope ∧ Touches 0 s.module s'.module ∧ Linked s'.module ∧
        ∃ ds ws, Shaped ds ∧ Holds s'.module ds id ws := by
    obtain ⟨ht, hl'⟩ := hadd (v := { node := .zeroInit, ty := .ofDims ds }) rfl rfl (by simp)
    exact Gives.build (a := s.module.values.size + 1) (m := (s.module.add _).2) rfl ⟨rfl,
      ht, hl', ds,
      List.replicate (product ds) 0, hds, holds_zeroInit _ ds⟩
  unfold globalInit
  split
  · split
    · exact hzero [] Shaped.nil
    · exact Gives.reject
    · refine Gives.bind (Gives.foldConst (Q := fun _ s' => s' = s) fun _ _ => rfl) ?_
      rintro w s₁ hs₁
      subst s₁
      obtain ⟨ht, hl'⟩ := hadd (v := { node := .integer w, ty := .i32 }) rfl rfl (by simp)
      exact Gives.build (Build.integer_eq _ w) ⟨rfl, ht, hl', [], _, Shaped.nil, _,
        by rw [Module.value?_add, if_pos rfl], rfl, .inr ⟨w, rfl, rfl⟩⟩
  · refine Gives.bind (Gives.dimsOf (Q := fun ds s' => s' = s ∧ Shaped ds) fun ds hds =>
      ⟨rfl, shaped_of_foldDims hds⟩) ?_
    rintro ds s₁ ⟨hs₁, hds⟩
    subst s₁
    split
    · exact hzero ds hds
    · refine Gives.bind (Gives.check (Q :=
        fun cells s' => s' = s ∧ cells.size = product ds) fun cells hcells =>
        ⟨rfl, size_flatten hcells⟩) ?_
      rintro cells s₁ ⟨hs₁, hsize⟩
      subst s₁
      refine Gives.bind (gives_foldCells cells.toList) ?_
      rintro ws s₁ ⟨hs₁, hlen⟩
      subst s₁
      obtain ⟨id, m', hrun, -, ht, hl', hholds⟩ :=
        aggregate_run ds hds.1 ws s.module (by simpa using hlen.trans hsize) hl
      exact Gives.build hrun ⟨rfl, ht, hl', ds, ws, hds, hholds⟩

def withGlobal (m : Module) (v : Value) : Module :=
  { (m.add v).2 with globals := m.globals.push (m.values.size + 1) }

theorem extends_withGlobal (m : Module) (v : Value) : Extends m (withGlobal m v) :=
  ⟨(Extends.add m v).value, (Extends.add m v).func⟩

theorem value?_withGlobal (m : Module) (v : Value) :
    (withGlobal m v).value? (m.values.size + 1) = some v :=
  (m.value?_add v).trans (if_pos rfl)

theorem Sound.global {name : String} {init : Nat} {ds : List Nat} {ws : List Word} (h : Sound m)
    (hds : Shaped ds) (hinit : Holds m ds init ws) :
    Sound (withGlobal m { node := .global init, ty := .ptr (.ofDims ds), name }) := by
  generalize hv : ({ node := .global init, ty := .ptr (.ofDims ds), name } : Value) = v
  have he := extends_withGlobal m v
  have hvalue (id : Nat) : (withGlobal m v).value? id = if id = m.values.size + 1 then some v
    else m.value? id :=
    m.value?_add v
  have hl : Linked (m.add v).2 := h.linked.add (by
    intro x hx
    subst hv
    simp only [Node.operands, List.mem_filter, List.mem_singleton] at hx
    obtain ⟨w, hw, -, hunit⟩ := hinit.isUnit
    exact ⟨w, by rw [hx.1]; exact hw, hunit⟩)
  refine ⟨⟨hl.callable, hl.uses, hl.operand⟩, fun g gn hg => ?_, fun id hid => ?_,
    fun id w i hw hnode => ?_, fun id w hw => ?_⟩
  · obtain ⟨hid, hargs, hrest⟩ := h.funcs g gn hg
    refine ⟨hid, hargs.extends he, hrest.imp_right fun hfin =>
      hfin.elsewhere he hg fun id w hw hfunc => ?_⟩
    rw [hvalue] at hw
    split at hw
    · obtain rfl := Option.some.inj hw
      subst hv
      have := Module.bounds_of_func? hg
      simp only at hfunc
      lia
    · exact hw
  · rcases Array.mem_push.mp hid with hid | rfl
    · exact (h.globals id hid).extends he
    · subst hv
      exact ⟨_, init, ds, ws, by rw [hvalue, if_pos rfl], rfl, rfl, hds, hinit.extends he⟩
  · rw [hvalue] at hw
    split at hw
    · rename_i heq
      exact Array.mem_push.mpr (.inr heq)
    · exact Array.mem_push.mpr (.inl (h.listed id w i hw hnode))
  · rw [hvalue] at hw
    split at hw
    · obtain rfl := Option.some.inj hw
      subst hv
      exact Nat.zero_le _
    · exact h.owner id w hw

theorem Listed.extends {names : List (String × Binding)} (h : Listed m names) (he : Extends m m')
    (hfuncs : ∀ g, m'.func? g = m.func? g) (hglobals : m'.globals = m.globals) :
    Listed m' names := by
  refine ⟨h.nodup, by
    rw [hglobals]; exact h.globals, fun id hid => ?_, fun g fn hg => ?_, fun name g hmem => ?_⟩
  · rw [hglobals] at hid
    obtain ⟨name, c, v, hmem, hv, hname⟩ := h.vars id hid
    exact ⟨name, c, v, hmem, he.value hv, hname⟩
  · exact h.funcs g fn ((hfuncs g).symm.trans hg)
  · rw [hfuncs]
    exact h.named name g hmem

theorem Listed.cons {names : List (String × Binding)} {name : String} {b : Binding}
    (h : Listed m names) (hfresh : name ∉ names.map (·.1)) (hb : ∀ g, b ≠ .func g) :
    Listed m ((name, b) :: names) := by
  refine ⟨List.nodup_cons.mpr ⟨hfresh, h.nodup⟩, h.globals, fun id hid => ?_, fun g fn hg => ?_,
    fun n g hmem => ?_⟩
  · obtain ⟨name, c, v, hmem, hv⟩ := h.vars id hid
    exact ⟨name, c, v, List.mem_cons_of_mem _ hmem, hv⟩
  · exact List.mem_cons_of_mem _ (h.funcs g fn hg)
  · rcases List.mem_cons.mp hmem with heq | hmem
    · cases heq
      exact absurd rfl (hb g)
    · exact h.named n g hmem

theorem gives_defineConst (h : Ready s) (d : VarDef) : Gives (defineConst d) s fun _ s' =>
    Ready s' := by
  rw [defineConst]
  split
  · refine Gives.bind (Gives.foldConst (Q := fun _ s' => s' = s) fun w _ => rfl) ?_
    rintro w s₁ hs₁
    subst s₁
    refine Gives.define fun scope hdef => ?_
    obtain ⟨rfl, hfresh⟩ := define_top h.top hdef
    refine ⟨h.sound, rfl, fun p hp g => ?_, h.listed.cons hfresh (by simp), h.stocked⟩
    rcases List.mem_cons.mp hp with rfl | hp
    · trivial
    · exact h.bound p hp g
  · exact Gives.reject

theorem gives_lowerGlobal (h : Ready s) (isConst : Bool) (d : VarDef) :
    Gives (lowerGlobal isConst d) s fun _ s' => Ready s' := by
  unfold lowerGlobal
  split
  · exact gives_defineConst h d
  · refine Gives.bind (gives_globalInit h.sound.linked d) ?_
    rintro init ⟨m₁, scope₁⟩ ⟨hscope, ht, hl, ds, ws, hds, hholds⟩
    obtain rfl : scope₁ = s.scope := hscope
    dsimp only at ht hl hholds
    let v : Value := { node := .global init, ty := .ptr (.ofDims ds), name := "@" ++ d.name }
    have hrun : Build.global ("@" ++ d.name) init m₁ = .ok (m₁.values.size + 1,
      withGlobal m₁ v) := by
      obtain ⟨w, hw, hty, -⟩ := hholds.isUnit
      have : m₁.tyOf init = .ofDims ds := by rw [Module.tyOf_eq hw, hty]
      rw [show v = { node := .global init, ty := .ptr (m₁.tyOf init),
                     name := "@" ++ d.name } by rw [this]]
      rfl
    refine Gives.bind (Q := fun id s' => id = m₁.values.size + 1 ∧ s' = ⟨withGlobal m₁ v, s.scope⟩)
      (Gives.build (s := ⟨m₁, s.scope⟩) hrun ⟨rfl, rfl⟩) ?_
    rintro _ _ ⟨rfl, rfl⟩
    refine Gives.define fun scope hdef => ?_
    obtain ⟨rfl, hfresh⟩ := define_top h.top hdef
    -- the initial value was made before the global, and belongs to no function
    have hsound := h.sound.values ht hl
    have he := extends_withGlobal m₁ v
    have hfuncs (g : Nat) : m₁.func? g = s.module.func? g := by
      rcases Nat.eq_zero_or_pos g with rfl | hg
      · rfl
      · exact ht.other g (Nat.ne_of_gt hg)
    have hnew := value?_withGlobal m₁ v
    have hlisted := (h.listed.extends ht.grown hfuncs ht.globals).cons hfresh (b :=
      .var (m₁.values.size + 1) isConst) (by simp)
    have hstocked : Stocked m₁ := h.stocked.touches ht rfl
    refine ⟨hsound.global hds hholds, rfl, fun p hp g => ?_,
      ⟨hlisted.nodup, ?_, fun id hid => ?_, hlisted.funcs, hlisted.named⟩, hstocked⟩
    · rcases List.mem_cons.mp hp with rfl | hp
      · exact ⟨.ofDims ds, ⟨v, hnew, rfl, trivial⟩, ds, hds, .inl rfl⟩
      · exact ((h.bound p hp g).extends ht.grown).extends he
    · change (m₁.globals.push (m₁.values.size + 1)).toList.Nodup
      rw [Array.toList_push]
      refine List.nodup_append.mpr ⟨hlisted.globals, by simp, ?_⟩
      rintro id hid _ hid' rfl
      obtain ⟨w, _, _, _, hw, -⟩ := hsound.globals id (Array.mem_toList_iff.mp hid)
      have := Module.bounds_of_value? hw
      have := List.mem_singleton.mp hid'
      lia
    · rcases Array.mem_push.mp hid with hid | rfl
      · obtain ⟨name, c, w, hmem, hw, hname⟩ := hlisted.vars id hid
        exact ⟨name, c, w, hmem, he.value hw, hname⟩
      · exact ⟨d.name, isConst, v, List.mem_cons_self .., hnew, rfl⟩

theorem library_callable : ∀ p ∈ Build.libraryFuncs, (∀ ty ∈ p.2.1, ty.IsParam) ∧
    (p.2.2 = .i32 ∨ p.2.2 = .unit) := by
  have hptr : Ty.IsParam (.ptr .i32) := .inr ⟨[], Shaped.nil, rfl⟩
  have hi32 : Ty.IsParam .i32 := .inl rfl
  simp [Build.libraryFuncs, hptr, hi32]

def Bare (m : Module) : Prop := ∀ g fn, m.func? g = some fn → fn.layout = #[] ∧ fn.blocks = #[]

theorem declare_one {name : String} {params : List Ty} {ret : Ty}
    (hmem : (name, params, ret) ∈ Build.libraryFuncs) (h : Sound m) (hbare : Bare m) :
    ∃ r m₁, Build.newFunc name params ret m = .ok (r, m₁) ∧ Sound m₁ ∧ m₁.globals = m.globals ∧
      Extends m m₁ ∧ Bare m₁ ∧ ∃ g fn, m₁.func? g = some fn ∧ fn.name = name := by
  obtain ⟨hparams, hret⟩ := library_callable _ hmem
  by_cases hnew : m.funcNamed? name = none
  · obtain ⟨args, m₁, hrun, hfuncs, ht, hl, hargs, -⟩ := newFunc_run name params hret hnew h.linked
    generalize hsize : m.funcs.size + 1 = f at *
    have hf : f = m₁.funcs.size + 1 := by rw [hfuncs, hsize]
    have ht' := ht.withFunc hf hfuncs (bare f name params ret args)
    have hfound : (m₁.withFunc (bare f name params ret args)).func? f =
      some (bare f name params ret args) := by
      rw [Module.func?_withFunc, if_pos hf]
    refine ⟨_, _, hrun, h.touches ht' (hl.withFunc ⟨hparams, hret⟩) ?_ fun fn hfn => ?_,
      ht'.globals, ht'.grown,
      fun g gn hg => ?_, f, _, hfound, rfl⟩
    · simp [Module.withFunc, hf]
    · obtain rfl := Option.some.inj (hfound.symm.trans hfn)
      exact ⟨rfl, hargs, .inl ⟨rfl, hmem⟩⟩
    · by_cases hgf : g = f
      · subst hgf
        obtain rfl := Option.some.inj (hfound.symm.trans hg)
        exact ⟨rfl, rfl⟩
      · exact hbare g gn ((ht'.other g hgf).symm.trans hg)
  · exact ⟨_, m, newFunc_duplicate hnew, h, rfl, .refl m, hbare, exists_func?_of_funcNamed? hnew⟩

theorem declare_run (fs : List (String × List Ty × Ty)) (hfs : ∀ p ∈ fs, p ∈ Build.libraryFuncs) :
    ∀ m, Sound m →
    Bare m → ∃ m', (fs.forM fun (name, params, ret) =>
      do let _ ← Build.newFunc name params ret : Build Unit) m =
      .ok ((), m') ∧ Sound m' ∧ m'.globals = m.globals ∧ Extends m m' ∧ Bare m' ∧
        ∀ p ∈ fs, ∃ g fn, m'.func? g = some fn ∧ fn.name = p.1 := by
  induction fs with
  | nil => exact fun m h hbare => ⟨m, rfl, h, rfl, .refl m, hbare, by simp⟩
  | cons p fs ih =>
    intro m h hbare
    obtain ⟨name, params, ret⟩ := p
    obtain ⟨r, m₁, hrun, h₁, hg₁, he₁, hbare₁, g, fn, hg, hname⟩ :=
      declare_one (hfs _ (List.mem_cons_self ..)) h hbare
    obtain ⟨m₂, hrun₂, h₂, hg₂, he₂, hbare₂, hrest⟩ :=
      ih (fun p hp => hfs p (List.mem_cons_of_mem _ hp)) m₁ h₁ hbare₁
    refine ⟨m₂, ?_, h₂, hg₂.trans hg₁, he₁.trans he₂, hbare₂, fun p hp => ?_⟩
    · rw [List.forM]
      simp only [bind, StateT.bind, hrun, Except.bind]
      exact hrun₂
    · rcases List.mem_cons.mp hp with rfl | hp
      · obtain ⟨fn', hfn', hb⟩ := he₂.func hg
        exact ⟨g, fn', hfn', hb.name.trans hname⟩
      · exact hrest p hp

theorem Sound.empty : Sound {} := by
  have hvalue (id : Nat) : ({} : Module).value? id = none := by simp [Module.value?]
  have hfunc (g : Nat) : ({} : Module).func? g = none := by simp [Module.func?]
  refine ⟨⟨?_, ?_, ?_⟩, ?_, ?_, ?_, ?_⟩ <;> simp [hvalue, hfunc]

structure Naming (m : Module) (fs : List Func) (scope : Scope Binding) : Prop where
  top : scope.inner = []
  nodup : (scope.outermost.map (·.1)).Nodup
  bound : ∀ p ∈ scope.outermost, ∀ g, BindingOk m g p.2
  funcs : ∀ g fn, m.func? g = some fn → fn ∈ fs ∨ (fn.name, .func g) ∈ scope.outermost
  named : ∀ name g, (name, .func g) ∈ scope.outermost → ∃ fn, m.func? g = some fn ∧ fn.name = name

theorem gives_names (hs : Sound m) (fs : List Func) (hfs : ∀ fn ∈ fs, ∃ g, m.func? g = some fn) :
    ∀ {scope : Scope Binding}, Naming m fs scope →
    Gives (do for fn in fs do define fn.name {} (.func fn.id)) ⟨m, scope⟩ fun _ s' =>
      s'.module = m ∧ Naming m [] s'.scope := by
  induction fs with
  | nil =>
    intro scope h
    rw [List.forIn_nil]
    exact Gives.pure ⟨rfl, h⟩
  | cons fn fs ih =>
    intro scope h
    rw [List.forIn_cons, bind_assoc, bind_assoc]
    obtain ⟨g, hg⟩ := hfs fn (by simp)
    obtain ⟨hid, -⟩ := hs.funcs g fn hg
    have hcallable := hs.linked.callable g fn hg
    refine Gives.bind (Gives.define (Q :=
      fun _ s' => s'.module = m ∧ Naming m fs s'.scope) fun scope' hdef => ?_) ?_
    · obtain ⟨rfl, hfresh⟩ := define_top h.top hdef
      refine ⟨rfl, rfl, List.nodup_cons.mpr ⟨hfresh, h.nodup⟩, fun p hp g' => ?_,
        fun g' gn hg' => ?_, fun name g' hmem => ?_⟩
      · rcases List.mem_cons.mp hp with rfl | hp
        · exact ⟨fn, by rw [hid]; exact hg, hcallable⟩
        · exact h.bound p hp g'
      · rcases h.funcs g' gn hg' with hmem | hmem
        · rcases List.mem_cons.mp hmem with rfl | hmem
          · rw [(hs.funcs g' gn hg').1]
            exact .inr (List.mem_cons_self ..)
          · exact .inl hmem
        · exact .inr (List.mem_cons_of_mem _ hmem)
      · rcases List.mem_cons.mp hmem with heq | hmem
        · cases heq
          exact ⟨fn, by rw [hid]; exact hg, rfl⟩
        · exact h.named name g' hmem
    · rintro _ ⟨m₁, scope₁⟩ ⟨rfl, h₁⟩
      rw [pure_bind]
      exact ih (fun fn hfn => hfs fn (List.mem_cons_of_mem _ hfn)) h₁

section Keeps
variable {α : Type} {I : State → Prop}

/-! What the parts of lowering keep, if the steps of building in them do. -/

theorem keeps_build {J : Module → Prop} {x : Build α} (h : Keeps J x) :
    Keeps (fun s : State => J s.module) (build x) :=
  ⟨fun _ _ _ hs hrun => h.ok _ _ _ hs (build_ok.mp hrun).1⟩

theorem keeps_check (r : Except LoweringError α) : Keeps I (check r) := by
  cases r with
  | ok a => exact .pure a
  | error e => exact .throw _

theorem keeps_foldConst (e : Expr) : Keeps I (foldConst e) := .get_bind fun _ => keeps_check _

theorem keeps_dimsOf (es : List Expr) : Keeps I (dimsOf es) := .get_bind fun _ => keeps_check _

theorem keeps_aggregate {J : Module → Prop} (hinteger : ∀ w, Keeps J (Build.integer w))
    (haggregate : ∀ ty elems, Keeps J (Build.aggregate ty elems)) (dims : List Nat) :
    ∀ ws, Keeps J (aggregate dims ws) := by
  induction dims with
  | nil => exact fun ws => hinteger _
  | cons n ns ih =>
    intro ws
    rw [aggregate]
    exact (Keeps.mapM _ fun row _ => ih row).bind fun elems => haggregate _ elems

theorem keeps_globalInit (hinteger : ∀ w, Keeps I (build (Build.integer w)))
    (hzero : ∀ ty, Keeps I (build (Build.zeroInit ty)))
    (haggregate : ∀ dims ws, Keeps I (build (aggregate dims ws))) (d : VarDef) :
    Keeps I (globalInit d) := by
  have hcell (cell : Option Expr) : Keeps I (foldCell cell) := by
    cases cell with
    | none => exact .pure 0
    | some e => exact keeps_foldConst e
  unfold globalInit
  split
  · split
    · exact hzero _
    · exact .throw _
    · exact (keeps_foldConst _).bind fun w => hinteger w
  · refine (keeps_dimsOf d.dims).bind fun dims => ?_
    split
    · exact hzero _
    · exact (keeps_check _).bind fun cells =>
        (Keeps.mapM _ fun cell _ => hcell cell).bind fun words =>
        haggregate dims words

theorem keeps_finish {t : Target} (hstart : Keeps I (startBlock t t.exit))
    (hload : ∀ x, Keeps I (build (Build.load t.func x)))
    (hret : ∀ x, Keeps I (build (Build.ret t.func x)))
    (hjumpAt : ∀ bb target, Keeps I (build (Build.jumpAt t.func bb target)))
    (hunplace : ∀ bb, Keeps I (build (Build.unplace t.func bb)))
    (hjump : ∀ bb, Keeps I (build (Build.jump t.func bb))) (entry body : BlockId) :
    Keeps I (finish t entry body) := by
  have hexit : Keeps I (layExit t) := by
    refine hstart.bind fun _ => ?_
    split
    · exact (hload _).bind fun v => (hret _).bind fun _ => .pure ()
    · exact (hret _).bind fun _ => .pure ()
  have htail (tail : BlockId) (m : Module) (fn : Func) (b : Block) :
    Keeps I (layTail t tail m fn b) := by
    unfold layTail
    split
    · exact hunplace _
    · split
      · exact (hjump _).bind fun _ => .pure ()
      · exact .pure ()
  have hcurrent : Keeps I (build (Build.current t.func)) := by
    refine ⟨fun s bb s' hs hrun => ?_⟩
    obtain ⟨hrun, hscope⟩ := build_ok.mp hrun
    obtain ⟨m, scope⟩ := s
    obtain ⟨m', scope'⟩ := s'
    cases hrun
    cases hscope
    exact hs
  rw [finish_eq]
  refine (hjumpAt entry body).bind fun _ => hcurrent.bind fun tail => .get_bind fun s => ?_
  dsimp only
  split
  · exact .pure ()
  · exact (htail ..).bind fun _ => hexit

theorem keeps_openLibrary (hlibrary : Keeps I (build Build.declareLibrary))
    (hdefine : ∀ name span g, Keeps I (define name span (.func g))) : Keeps I openLibrary := by
  refine hlibrary.bind fun _ => .get_bind fun s => Keeps.bind ?_ fun _ => .pure ()
  generalize s.module.funcs.toList = fs
  induction fs with
  | nil => exact .pure _
  | cons f fs ih =>
    rw [List.forIn_cons]
    refine ((hdefine ..).bind fun _ => .pure _).bind fun step => ?_
    cases step with
    | done _ => exact .pure _
    | yield _ => exact ih

end Keeps

theorem gives_openLibrary (hmodule : Sound s.module ∧ s.module.globals = #[])
    (hbare : Bare s.module) (hscope : s.scope = {}) :
    Gives openLibrary s fun _ s' => Ready s' ∧ Bare s'.module := by
  obtain ⟨m, hrun, hs, hglobals, -, hbare', hlibrary⟩ :=
    declare_run Build.libraryFuncs (fun _ h => h) s.module hmodule.1 hbare
  rw [hmodule.2] at hglobals
  unfold openLibrary
  refine Gives.bind (Q := fun _ s' => s' = ⟨m, {}⟩) (Gives.build hrun (by rw [hscope])) ?_
  rintro _ _ rfl
  refine Gives.get_bind ?_
  have hmem (fn : Func) (hfn : fn ∈ m.funcs.toList) : ∃ g, m.func? g = some fn := by
    obtain ⟨i, hi, rfl⟩ := List.getElem_of_mem hfn
    refine ⟨i + 1, ?_⟩
    rw [Module.func?_of_pos _ (Nat.succ_pos i), Nat.succ_sub_one, ← Array.getElem?_toList,
      List.getElem?_eq_getElem hi]
  have hstart : Naming m m.funcs.toList {} := by
    exact ⟨rfl, .nil, by simp, fun g fn hg => .inl (Module.mem_funcs hg), by simp⟩
  refine (gives_names hs m.funcs.toList hmem hstart).mono ?_
  rintro _ ⟨m₁, scope⟩ ⟨hm, h⟩
  obtain rfl : m₁ = m := hm
  refine ⟨⟨hs, h.top, h.bound,
    ⟨h.nodup, by simp [hglobals], by simp [hglobals], fun g fn hg => ?_, h.named⟩,
    fun p hp => ?_⟩, hbare'⟩
  · exact (h.funcs g fn hg).resolve_left (by simp)
  · obtain ⟨g, fn, hg, hname⟩ := hlibrary p hp
    exact ⟨g, fn, hg, hname, (hbare' g fn hg).1⟩

theorem gives_lowerItem (h : Ready s) (i : Item) : Gives (lowerItem i) s fun _ s' => Ready s' := by
  have hglobal : s.scope.isGlobal = true := by simp [Scope.isGlobal, h.top]
  unfold lowerItem
  refine Gives.get_bind ?_
  dsimp only
  rw [if_pos hglobal]
  cases i with
  | func _ d => exact gives_lowerFunc h d
  | decl _ d =>
    have hdefs (ds : List VarDef) : ∀ {s}, Ready s → Gives (ds.forM (lowerGlobal d.isConst)) s
      fun _ s' => Ready s' := by
      induction ds with
      | nil => exact fun h => Gives.pure h
      | cons v ds ih =>
        intro s h
        rw [List.forM]
        exact Gives.bind (gives_lowerGlobal h d.isConst v) fun _ _ h₁ => ih h₁
    exact hdefs d.defs h

theorem gives_lowerItems (is : List Item) : ∀ {s}, Ready s → Gives (lowerItems is) s fun _ s' =>
    Ready s' := by
  induction is with
  | nil => exact fun h => Gives.pure h
  | cons i is ih => exact fun h => Gives.bind (gives_lowerItem h i) fun _ _ h₁ => ih h₁

theorem gives_openLibrary_of_empty (hs : s = {}) : Gives openLibrary s fun _ s' => Ready s' ∧
    Bare s'.module := by
  have hsound : Sound s.module ∧ s.module.globals = #[] := by
    rw [hs]
    exact ⟨.empty, rfl⟩
  have hbare : Bare s.module := by
    intro g fn hg
    simp [hs, Module.func?] at hg
  exact gives_openLibrary hsound hbare (by rw [hs])

theorem gives_lowerProgram (p : Program) (hs : s = {}) :
    Gives (do openLibrary; lowerItems p.items : Lower Unit) s fun _ s' => Ready s' :=
  Gives.bind (gives_openLibrary_of_empty hs) fun _ _ h => gives_lowerItems p.items h.1

/-- Lowering never meets a fault. -/
theorem lower_ne_fault (p : Program) (e : Fault) : p.lower ≠ .error (.fault e) := by
  intro h
  unfold Program.lower at h
  generalize hs : ({} : State) = s at h
  have hg := gives_lowerProgram p hs.symm
  unfold Gives at hg
  split at h
  · cases h
  · rename_i e' heq
    cases h
    rw [heq] at hg
    exact hg

/-- A module that lowering gives is sound, and all its globals and functions have names of their
own. -/
theorem ready_of_lower {p : Program} (h : p.lower = .ok m) : ∃ scope, Ready ⟨m, scope⟩ := by
  unfold Program.lower at h
  generalize hs : ({} : State) = s at h
  have hg := gives_lowerProgram p hs.symm
  split at h
  · rename_i s' heq
    cases h
    exact ⟨s'.scope, hg.ok heq⟩
  · cases h

end Sysy.Lowering
