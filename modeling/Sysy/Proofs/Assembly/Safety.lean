import Sysy.Proofs.Assembly.Execution
import Sysy.Proofs.Frame
import Sysy.Proofs.Lowering.Validity

/-!
Emission of a module that lowering gives fails only when the frame of a function is too large.
-/

namespace Sysy.Assembly
open Ir Lowering

variable {m : Module} {f : Nat} {fn : Func} {fr : Frame} {ty : Ty}

structure Framed (m : Module) (f : FuncId) (fn : Func) (fr : Frame) : Prop where
  finished : Finished m f fn
  linked : Linked m
  fits : Frame.Fits m fn fr

def Loadable (m : Module) (fr : Frame) (id : ValueId) : Prop :=
  ∃ v, m.value? id = some v ∧
    ((∃ w, v.node = .integer w) ∨ (∃ i, v.node = .arg i) ∨ (∃ init, v.node = .global init) ∨
      ∃ s, fr.slot? id = some s)

theorem Loadable.load {id : Nat} (h : Loadable m fr id) (rd : Reg) :
    ∃ code, loadValue ⟨.rv32, m, fr⟩ rd id = .ok code := by
  obtain ⟨v, hv, ⟨w, hnode⟩ | ⟨i, hnode⟩ | ⟨init, hnode⟩ | ⟨s, hs⟩⟩ := h
  · simp only [loadValue, hv, hnode]
    exact ⟨_, rfl⟩
  · simp only [loadValue, hv, hnode]
    split <;> exact ⟨_, rfl⟩
  · simp only [loadValue, hv, hnode]
    exact ⟨_, rfl⟩
  · simp only [loadValue, hv]
    split
    · exact ⟨_, rfl⟩
    · split <;> exact ⟨_, rfl⟩
    · exact ⟨_, rfl⟩
    · rw [hs]
      exact ⟨_, rfl⟩

theorem Loadable.slot {id : Nat} (h : Loadable m fr id)
    (halloc : isAlloc ⟨.rv32, m, fr⟩ id = true) :
    ∃ s, allocSlot ⟨.rv32, m, fr⟩ id = .ok s := by
  obtain ⟨v, hv, hrest⟩ := h
  simp only [isAlloc, Module.node?_eq hv, Option.map_some, Option.getD_some] at halloc
  have hnode : v.node = .alloc := by
    cases hn : v.node <;> rw [hn] at halloc <;> simp only [Node.isAlloc,
      Bool.false_eq_true] at halloc
  rw [hnode] at hrest
  obtain ⟨_, h⟩ | ⟨_, h⟩ | ⟨_, h⟩ | ⟨s, hs⟩ := hrest
  · cases h
  · cases h
  · cases h
  · exact ⟨s, by simp only [allocSlot, hs]⟩

namespace Framed

theorem loadable (h : Framed m f fn fr) {x y : Nat} {v : Value} (hv : m.value? y = some v)
    (hr : m.Readable f x ty) (hx : x ≠ 0 → x ∈ v.node.operands) : Loadable m fr x := by
  obtain ⟨w, hw, -, hread⟩ := hr
  have hused : Frame.Used m x :=
    ⟨y, (h.linked.uses x y).mpr ⟨v, hv, hx (Nat.ne_of_gt (Module.bounds_of_value? hw).1)⟩⟩
  have hslot (hfunc : w.func = f) (harg : ∀ i, w.node ≠ .arg i) : ∃ s, fr.slot? x = some s :=
    h.fits.total x ((Frame.mem_insts h.finished).mpr ⟨_, h.finished.own x w hw hfunc harg⟩) hused
  refine ⟨w, hw, ?_⟩
  rcases hread.cases with hint | hglobal | ⟨hfunc, harg⟩
  · exact .inl hint
  · exact .inr (.inr (.inl hglobal))
  · exact .inr (.inr (.inr (hslot hfunc harg)))

theorem emitLoad_ok {id src : Nat} (h : Loadable m fr src) : ∃ code, emitLoad ⟨.rv32, m,
    fr⟩ id src = .ok code := by
  unfold emitLoad
  by_cases halloc : isAlloc ⟨.rv32, m, fr⟩ src = true
  · obtain ⟨s, hs⟩ := h.slot halloc
    rw [if_pos halloc, hs]
    exact ⟨_, rfl⟩
  · obtain ⟨code, hcode⟩ := h.load .t0
    rw [if_neg halloc, hcode]
    exact ⟨_, rfl⟩

theorem emitStore_ok {val dest : Nat} (hval : Loadable m fr val) (hdest : Loadable m fr dest) :
    ∃ code, emitStore ⟨.rv32, m, fr⟩ val dest = .ok code := by
  obtain ⟨read, hread⟩ := hval.load .t0
  unfold emitStore
  rw [hread]
  by_cases halloc : isAlloc ⟨.rv32, m, fr⟩ dest = true
  · obtain ⟨s, hs⟩ := hdest.slot halloc
    simp only [bind, Except.bind, if_pos halloc, hs]
    exact ⟨_, rfl⟩
  · obtain ⟨code, hcode⟩ := hdest.load .t1
    simp only [bind, Except.bind, if_neg halloc, hcode]
    exact ⟨_, rfl⟩

theorem emitOffset_ok {id src index : Nat} (hsrc : Loadable m fr src) (hindex : Loadable m fr index)
    (size : Int) :
    ∃ code, emitOffset ⟨.rv32, m, fr⟩ id src index size = .ok code := by
  obtain ⟨base, hbase⟩ := hsrc.load .t0
  obtain ⟨read, hread⟩ := hindex.load .t1
  unfold emitOffset
  simp only [bind, Except.bind, hbase]
  cases constOffset? ⟨.rv32, m, fr⟩ index size with
  | none =>
    simp only [hread]
    exact ⟨_, rfl⟩
  | some off => exact ⟨_, rfl⟩

theorem emitArgs_ok (args : List ValueId) (h : ∀ arg ∈ args, Loadable m fr arg) :
    ∀ i, ∃ code, emitArgs ⟨.rv32, m, fr⟩ i args = .ok code := by
  induction args with
  | nil => exact fun i => ⟨[], rfl⟩
  | cons arg args ih =>
    intro i
    obtain ⟨rest, hrest⟩ := ih (fun a ha => h a (List.mem_cons_of_mem _ ha)) (i + 1)
    rw [emitArgs]
    split
    · obtain ⟨code, hcode⟩ := (h arg (List.mem_cons_self ..)).load (.a i)
      simp only [bind, Except.bind, hcode, hrest]
      exact ⟨_, rfl⟩
    · obtain ⟨code, hcode⟩ := (h arg (List.mem_cons_self ..)).load .t0
      simp only [bind, Except.bind, hcode, hrest]
      exact ⟨_, rfl⟩

theorem emitInst_ok (h : Framed m f fn fr) {id bb : Nat} (hid : id ∈ fn.code bb) :
    ∃ code, emitInst ⟨.rv32, m, fr⟩ id = .ok code := by
  obtain ⟨v, hv, -, -, hok⟩ := h.finished.inst bb id hid
  have hload {x : Nat} {ty : Ty} (hr : m.Readable f x ty) (hx : x ≠ 0 → x ∈ v.node.operands) :
    Loadable m fr x :=
    h.loadable hv hr hx
  unfold emitInst
  rw [Module.node?_eq hv]
  generalize v.node = node at hok hload
  generalize v.ty = ty at hok
  cases hok with
  | alloc => exact ⟨_, rfl⟩
  | param _ harg hnode _ _ _ hdest =>
    exact emitStore_ok ⟨_, harg, .inr (.inl ⟨_, hnode⟩)⟩ (hload hdest (by simp [Node.operands]))
  | enter => exact ⟨_, rfl⟩
  | leave _ hl =>
    cases hl with
    | jump => exact ⟨_, rfl⟩
    | branch hcond =>
      obtain ⟨code, hcode⟩ := (hload hcond (by simp [Node.operands])).load .t0
      simp only [hcode]
      exact ⟨_, rfl⟩
  | ret => exact ⟨_, rfl⟩
  | retVal _ _ hval =>
    obtain ⟨code, hcode⟩ := (hload hval (by simp [Node.operands])).load (.a 0)
    simp only [hcode]
    exact ⟨_, rfl⟩
  | plain _ ht =>
    cases ht with
    | load hsrc => exact emitLoad_ok (hload hsrc (by simp [Node.operands]))
    | store hval hdest =>
      exact emitStore_ok (hload hval (by simp +contextual [Node.operands]))
        (hload hdest (by simp +contextual [Node.operands]))
    | getPtr _ hsrc hindex =>
      have hsrc' := hsrc
      obtain ⟨w, hw, hty, -⟩ := hsrc'
      simp only [emitGetPtr, Module.tyOf_eq hw, hty]
      exact emitOffset_ok (hload hsrc (by simp +contextual [Node.operands]))
        (hload hindex (by simp +contextual [Node.operands])) _
    | getElemPtr _ hsrc hindex =>
      have hsrc' := hsrc
      obtain ⟨w, hw, hty, -⟩ := hsrc'
      simp only [emitGetElemPtr, Module.tyOf_eq hw, hty, Ty.ofDims]
      exact emitOffset_ok (hload hsrc (by simp +contextual [Node.operands]))
        (hload hindex (by simp +contextual [Node.operands])) _
    | binary _ hlhs hrhs =>
      obtain ⟨l, hl⟩ := (hload hlhs (by simp +contextual [Node.operands])).load .t0
      obtain ⟨r, hr⟩ := (hload hrhs (by simp +contextual [Node.operands])).load .t1
      simp only [emitBinary, bind, Except.bind, hl, hr]
      exact ⟨_, rfl⟩
    | call hg hargs =>
      obtain ⟨pass, hpass⟩ := emitArgs_ok _ (fun arg harg => by
        obtain ⟨i, hi, rfl⟩ := List.getElem_of_mem harg
        have hlen := hargs.length_eq
        exact hload (hargs.get hi (by lia)) (by simp [Node.operands])) 0
      simp only [emitCall, bind, Except.bind, hpass, hg]
      exact ⟨_, rfl⟩

theorem emitInsts_ok (h : Framed m f fn fr) {bb : Nat} (ids : List ValueId)
    (hids : ∀ id ∈ ids, id ∈ fn.code bb) :
    ∃ code, emitInsts ⟨.rv32, m, fr⟩ ids = .ok code := by
  induction ids with
  | nil => exact ⟨[], rfl⟩
  | cons id ids ih =>
    obtain ⟨code, hcode⟩ := h.emitInst_ok (hids id (List.mem_cons_self ..))
    obtain ⟨rest, hrest⟩ := ih fun x hx => hids x (List.mem_cons_of_mem _ hx)
    simp only [emitInsts, bind, Except.bind, hcode, hrest]
    exact ⟨_, rfl⟩

theorem emitBlocks_ok (h : Framed m f fn fr) (bbs : List BlockId) :
    ∃ ls, emitBlocks ⟨.rv32, m, fr⟩ fn bbs = .ok ls := by
  induction bbs with
  | nil => exact ⟨[], rfl⟩
  | cons bb bbs ih =>
    obtain ⟨code, hcode⟩ := h.emitInsts_ok (fn.code bb) fun _ hx => hx
    obtain ⟨rest, hrest⟩ := ih
    rw [Func.code] at hcode
    simp only [emitBlocks, bind, Except.bind, hcode, hrest]
    exact ⟨_, rfl⟩

end Framed

theorem ofFunc_eq (h : Finished m f fn) : Frame.ofFunc .rv32 m fn = Frame.plan .rv32 m fn := by
  rw [Frame.ofFunc, h.isDeclared]
  rfl

theorem fits_of_ofFunc (h : Finished m f fn) (hfr : Frame.ofFunc .rv32 m fn = .ok fr) :
    Frame.Fits m fn fr := by
  rw [ofFunc_eq h] at hfr
  rcases Frame.plan_fits h with ⟨fr', hfr', hfits⟩ | ⟨e, he⟩
  · rw [hfr] at hfr'
    cases hfr'
    exact hfits
  · rw [hfr] at he
    cases he

/-- Only the size of its frame keeps a complete function from being emitted. -/
theorem emitFunc_cases (h : Finished m f fn) (hl : Linked m) :
    (∃ ls, emitFunc .rv32 m fn = .ok ls) ∨ ∃ b, emitFunc .rv32 m fn = .error
      (.frame (.tooLarge fn.name b)) := by
  unfold emitFunc
  rw [ofFunc_eq h]
  rcases Frame.plan_fits h with ⟨fr, hfr, hfits⟩ | ⟨b, hb⟩
  · rw [hfr]
    obtain ⟨body, hbody⟩ := (Framed.mk h hl hfits).emitBlocks_ok fn.layout.toList
    simp only [bind, Except.bind, hbody]
    exact .inl ⟨_, rfl⟩
  · rw [hb]
    exact .inr ⟨b, rfl⟩

section
variable {α β ε : Type} {g : α → Except ε β}

theorem mapM_ok {xs : List α} (h : ∀ x ∈ xs, ∃ y, g x = .ok y) : ∃ ys, xs.mapM g = .ok ys := by
  induction xs with
  | nil => exact ⟨[], rfl⟩
  | cons x xs ih =>
    obtain ⟨y, hy⟩ := h x (List.mem_cons_self ..)
    obtain ⟨ys, hys⟩ := ih fun z hz => h z (List.mem_cons_of_mem _ hz)
    rw [List.mapM_cons, hy, hys]
    exact ⟨y :: ys, rfl⟩

theorem mapM_cases {P : ε → Prop} {l : List α}
    (h : ∀ x ∈ l, (∃ y, g x = .ok y) ∨ ∃ e, P e ∧ g x = .error e) :
    (∃ ys, l.mapM g = .ok ys) ∨ ∃ e, P e ∧ l.mapM g = .error e := by
  induction l with
  | nil => exact .inl ⟨[], rfl⟩
  | cons x xs ih =>
    rw [List.mapM_cons]
    rcases h x (List.mem_cons_self ..) with ⟨y, hy⟩ | ⟨e, he, hx⟩
    · rcases ih fun z hz => h z (List.mem_cons_of_mem _ hz) with ⟨ys, hys⟩ | ⟨e, he, hxs⟩
      · rw [hy, hys]
        exact .inl ⟨y :: ys, rfl⟩
      · rw [hy, hxs]
        exact .inr ⟨e, he, rfl⟩
    · rw [hx]
      exact .inr ⟨e, he, rfl⟩

end

theorem initData_succ (m : Module) (depth id : Nat) : initData m (depth + 1) id =
    match m.value? id with
    | none => .error (.missingInit id)
    | some v =>
      match v.node with
      | .integer w => .ok [if w = 0 then .zeros 1 else .word w]
      | .zeroInit => .ok [.zeros (v.ty.size.tdiv 4).toNat]
      | .aggregate es => return (← es.mapM (initData m depth)).flatten
      | k => .error (.unsupportedInit k.kindName) := rfl

theorem initData_zeroInit {id : Nat} {v : Value} {ds : List Nat} (depth : Nat)
    (hv : m.value? id = some v) (hnode : v.node = .zeroInit) (hty : v.ty = .ofDims ds)
    (hds : Shaped ds) : ∃ data,
      initData m (depth + 1) id = .ok data ∧ data.flatMap Datum.words = List.replicate
        (product ds) 0 := by
  rw [initData_succ, hv]
  dsimp only
  rw [hnode, hty, size_ofDims hds]
  exact ⟨_, rfl, by simp [Datum.words]⟩

theorem initData_rows {ns : List Nat} {depth : Nat} {elems : List ValueId} {rows : List (List Word)}
    (hrow : ∀ {e : ValueId} {ws : List Word}, Holds m ns e ws → e < depth →
      ∃ data, initData m depth e = .ok data ∧ data.flatMap Datum.words = ws)
    (hrows : List.Forall₂ (Holds m ns) elems rows) (hold : ∀ e ∈ elems, e < depth) :
    ∃ parts, elems.mapM (initData m depth) = .ok parts ∧ parts.flatten.flatMap Datum.words =
      rows.flatten := by
  induction hrows with
  | nil => exact ⟨[], rfl, rfl⟩
  | cons h _ ih =>
    obtain ⟨data, hdata, hwords⟩ := hrow h (hold _ (List.mem_cons_self ..))
    obtain ⟨parts, hparts, hrest⟩ := ih fun e he => hold e (List.mem_cons_of_mem _ he)
    refine ⟨data :: parts, ?_, ?_⟩
    · rw [List.mapM_cons, hdata, hparts]
      rfl
    · rw [List.flatten_cons, List.flatMap_append, hwords, hrest, List.flatten_cons]

theorem initData_spec (hl : Linked m) (ds : List Nat) :
    ∀ {id depth : Nat} {ws : List Word}, Shaped ds →
    Holds m ds id ws → id < depth → ∃ data, initData m depth id = .ok data ∧
    data.flatMap Datum.words = ws := by
  induction ds with
  | nil =>
    intro id depth ws hds h hlt
    obtain ⟨depth, rfl⟩ := Nat.exists_eq_succ_of_ne_zero (Nat.ne_of_gt (Nat.zero_lt_of_lt hlt))
    obtain ⟨v, hv, hty, ⟨hnode, rfl⟩ | ⟨w, hnode, rfl⟩⟩ := h
    · have hdims : v.ty = .ofDims [] := hty
      exact initData_zeroInit depth hv hnode hdims hds
    · rw [initData_succ, hv]
      dsimp only
      rw [hnode]
      refine ⟨_, rfl, ?_⟩
      split
      · rename_i hw
        simp [Datum.words, hw]
      · simp [Datum.words]
  | cons n ns ih =>
    intro id depth ws hds h hlt
    obtain ⟨depth, rfl⟩ := Nat.exists_eq_succ_of_ne_zero (Nat.ne_of_gt (Nat.zero_lt_of_lt hlt))
    obtain ⟨v, hv, hty, ⟨hnode, rfl⟩ | ⟨elems, rows, hnode, -, hrows, rfl⟩⟩ := h
    · exact initData_zeroInit depth hv hnode hty hds
    -- an aggregate is made after its elements, so the depth left over is enough for each of them
    · have hold : ∀ e ∈ elems, e < depth := by
        intro e he
        obtain ⟨i, hi, rfl⟩ := List.getElem_of_mem he
        have hlen := hrows.length_eq
        obtain ⟨w, hw, -⟩ := (hrows.get hi (by lia)).isUnit
        have hpos := (Module.bounds_of_value? hw).1
        have hlt' := (hl.operand id v hv elems[i] (by
          rw [hnode, Node.operands, List.mem_filter]
          exact ⟨he, by simpa using Nat.ne_of_gt hpos⟩)).1
        lia
      obtain ⟨parts, hparts, hwords⟩ := initData_rows (ih hds.tail) hrows hold
      refine ⟨parts.flatten, ?_, hwords⟩
      rw [initData_succ, hv]
      dsimp only
      rw [hnode]
      dsimp only
      rw [hparts]
      rfl

theorem emitGlobal_ok {id : Nat} (hl : Linked m) (h : GlobalOk m id) :
    ∃ ls, emitGlobal m id = .ok ls := by
  obtain ⟨v, init, ds, ws, hv, hnode, -, hds, hholds⟩ := h
  obtain ⟨w, hw, -⟩ := hholds.isUnit
  obtain ⟨data, hdata, -⟩ :=
    initData_spec hl ds hds hholds (Nat.lt_succ_of_le (Module.bounds_of_value? hw).2)
  simp only [emitGlobal, hv, hnode, hdata]
  exact ⟨_, rfl⟩

def emitNamed (m : Module) (fn : Func) : Except EmissionError (List Line) :=
  match emitFunc .rv32 m fn with
  | .error e => .error (.inFunc fn.name e)
  | .ok code => .ok code

theorem emit_eq (m : Module) : emit .rv32 m = (do
    let globals ← m.globals.toList.mapM (emitGlobal m)
    let funcs ← (m.funcs.toList.filter (!·.isDeclared)).mapM (emitNamed m)
    return joinParts (globals ++ funcs)) := rfl

theorem emit_cases (h : Sound m) : (∃ ls, emit .rv32 m = .ok ls) ∨
    ∃ fn b, fn ∈ m.funcs.toList ∧
    emit .rv32 m = .error (.inFunc fn.name (.frame (.tooLarge fn.name b))) := by
  obtain ⟨globals, hglobals⟩ : ∃ ys, m.globals.toList.mapM (emitGlobal m) = .ok ys :=
    mapM_ok fun id hid => emitGlobal_ok h.linked (h.globals id (Array.mem_toList_iff.mp hid))
  have hfuncs := mapM_cases (P := fun e => ∃ fn b, fn ∈ m.funcs.toList ∧
      e = EmissionError.inFunc fn.name (.frame (.tooLarge fn.name b)))
    (g := emitNamed m) (l := m.funcs.toList.filter (!·.isDeclared)) fun fn hfn => by
      obtain ⟨hmem, hdecl⟩ := List.mem_filter.mp hfn
      obtain ⟨g, hfin⟩ := h.finished hmem (by simpa using hdecl)
      rcases emitFunc_cases hfin h.linked with ⟨ls, hls⟩ | ⟨b, hb⟩
      · rw [emitNamed, hls]
        exact .inl ⟨ls, rfl⟩
      · rw [emitNamed, hb]
        exact .inr ⟨_, ⟨fn, b, hmem, rfl⟩, rfl⟩
  rw [emit_eq]
  simp only [bind, Except.bind, hglobals]
  rcases hfuncs with ⟨funcs, hfuncs⟩ | ⟨_, ⟨fn, b, hmem, rfl⟩, hfuncs⟩
  · left
    rw [hfuncs]
    exact ⟨_, rfl⟩
  · right
    rw [hfuncs]
    exact ⟨fn, b, hmem, rfl⟩

/-- Emission of a module that lowering gives succeeds, or finds the frame of a function too
large. -/
theorem emit_of_lower {p : Program} (h : p.lower = .ok m) :
    (∃ ls, emit .rv32 m = .ok ls) ∨ ∃ fn b, fn ∈ m.funcs.toList ∧
      emit .rv32 m = .error (.inFunc fn.name (.frame (.tooLarge fn.name b))) := by
  obtain ⟨scope, hready⟩ := ready_of_lower h
  exact emit_cases hready.sound

theorem emit_of_lower_sample : ∃ m, sample.lower = .ok m ∧ ((∃ ls, emit .rv32 m = .ok ls) ∨
    ∃ fn b, fn ∈ m.funcs.toList ∧
      emit .rv32 m = .error (.inFunc fn.name (.frame (.tooLarge fn.name b)))) := by
  obtain ⟨m, hm⟩ := exists_lower_sample
  exact ⟨m, hm, emit_of_lower hm⟩

end Sysy.Assembly
