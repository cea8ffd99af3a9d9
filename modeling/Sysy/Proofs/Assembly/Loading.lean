import Std.Data.String.ToNat
import Sysy.Proofs.Assembly.Simulation

/-!
Assembly as it is loaded. The code of a module is a list of pieces, each behind a label of its own,
and its data is a list of pieces behind symbols. No two labels are the same, so every label leads to
its piece.
-/

namespace Sysy.Lowering
open Ir

/-- Hints of blocks cannot be mistaken for each other at the end of a label. -/
theorem bodyHints_apart : ∀ h ∈ bodyHints, ∀ h' ∈ bodyHints, '_' :: h.toList <:+ '_' :: h'.toList →
    h = h' := by
  decide

theorem toList_blockLabel {fn : Func} {bb : BlockId} {b : Block} (h : fn.block? bb = some b) :
    (Frame.blockLabel fn bb).toList =
      '.' :: 'L' :: (fn.name.toList ++ '_' :: b.name.toList ++ '_' :: Nat.toDigits 10 bb) := by
  rw [Frame.blockLabel, Func.blockName, h]
  simp [String.toList_append, toString]

/-- A list splits in one way at the last place where an element stands. -/
theorem eq_and_eq_of_append_cons {α : Type} {x : α} {as as' bs bs' : List α} (h : x ∉ bs)
    (h' : x ∉ bs') (heq : as ++ x :: bs = as' ++ x :: bs') : as = as' ∧ bs = bs' := by
  rcases List.append_eq_append_iff.mp heq with ⟨cs, rfl, hcs⟩ | ⟨cs, rfl, hcs⟩
  · cases cs with
    | nil => exact ⟨by simp, by simpa using hcs⟩
    | cons y cs =>
      obtain ⟨-, rfl⟩ := List.cons.inj hcs
      exact absurd (by simp) h
  · cases cs with
    | nil => exact ⟨by simp, by simpa using hcs.symm⟩
    | cons y cs =>
      obtain ⟨-, rfl⟩ := List.cons.inj hcs
      exact absurd (by simp) h'

section
variable {m : Module} {f f' : FuncId} {fn fn' : Func} {bb bb' : BlockId}

theorem Coded.blockLabel_inj (h : Coded m f fn) (h' : Coded m f' fn') (hbb : bb ∈ fn.layout.toList)
    (hbb' : bb' ∈ fn'.layout.toList) (heq : Frame.blockLabel fn bb = Frame.blockLabel fn' bb') :
    fn.name = fn'.name ∧ bb = bb' := by
  obtain ⟨hpos, hsize⟩ := h.bounds bb hbb
  obtain ⟨hpos', hsize'⟩ := h'.bounds bb' hbb'
  obtain ⟨b, hb⟩ := Func.exists_block? hpos hsize
  obtain ⟨b', hb'⟩ := Func.exists_block? hpos' hsize'
  have hlist := congrArg String.toList heq
  rw [toList_blockLabel hb, toList_blockLabel hb', List.cons.injEq, List.cons.injEq] at hlist
  obtain ⟨hfront, hdigits⟩ :=
    eq_and_eq_of_append_cons Nat.underscore_not_in_toDigits Nat.underscore_not_in_toDigits
    hlist.2.2
  obtain rfl : bb = bb' := Nat.repr_inj.mp (congrArg String.ofList hdigits)
  have hhint : b.name = b'.name := by
    obtain ⟨h₁, h₂, h₃⟩ := h.hints bb b hb
    obtain ⟨h₁', h₂', h₃'⟩ := h'.hints bb b' hb'
    rcases Nat.lt_trichotomy bb 2 with hlt | heq | hlt
    · have : bb = 1 := by lia
      rw [h₁ this, h₁' this]
    · rw [h₂ heq, h₂' heq]
    · have hsuffix : '_' :: b'.name.toList <:+ fn.name.toList ++ '_' :: b.name.toList := by
        rw [hfront]
        exact List.suffix_append ..
      rcases List.suffix_or_suffix_of_suffix (List.suffix_append ..) hsuffix with hle | hle
      · exact bodyHints_apart _ (h₃ hlt) _ (h₃' hlt) hle
      · exact (bodyHints_apart _ (h₃' hlt) _ (h₃ hlt) hle).symm
  rw [hhint] at hfront
  exact ⟨String.toList_inj.mp (List.append_cancel_right hfront), rfl⟩

end

end Sysy.Lowering

namespace Sysy.Assembly
open Ir Lowering

variable {b : Board} {m : Module}

section
variable {α : Type} {ps qs : List (String × List α)} {p : String × List α} {i j : Nat}

/-- Where a piece starts when pieces are put one after the other. -/
def offset (ps : List (String × List α)) (i : Nat) : Nat := ((ps.take i).flatMap (·.2)).length

theorem offset_append (h : i ≤ ps.length) : offset (ps ++ qs) i = offset ps i := by
  rw [offset, List.take_append_of_le_length h]
  rfl

theorem offset_length : offset ps ps.length = (ps.flatMap (·.2)).length := by
  rw [offset, List.take_length]

theorem drop_offset (ps : List (String × List α)) (i : Nat) :
    (ps.flatMap (·.2)).drop (offset ps i) = (ps.drop i).flatMap (·.2) := by
  have hsplit : ps.flatMap (·.2) = (ps.take i).flatMap (·.2) ++ (ps.drop i).flatMap (·.2) := by
    rw [← List.flatMap_append, List.take_append_drop]
  rw [hsplit]
  exact List.drop_left

theorem offset_le (hp : ps[i]? = some p) (hij : i < j) :
    offset ps i + p.2.length ≤ offset ps j := by
  obtain ⟨hi, rfl⟩ := List.getElem?_eq_some_iff.mp hp
  have hsub : ps.take (i + 1) <+: ps.take j := List.take_prefix_take_left (by omega)
  have hsucc : ((ps.take (i + 1)).flatMap (·.2)).length = offset ps i + ps[i].2.length := by
    rw [List.take_add_one, List.getElem?_eq_getElem hi, Option.toList_some, List.flatMap_append,
      List.flatMap_singleton, List.length_append]
    rfl
  rw [← hsucc]
  exact (hsub.flatMap (·.2)).length_le

end

structure Loaded (b : Board) (gs : List (String × List Word)) (ps : List (String × List Instr))
    (img : Image) : Prop where
  data : img.data = gs.flatMap (·.2)
  symbolNames : img.symbols.map (·.1) = (gs.map (·.1)).reverse
  symbols : ∀ i g, gs[i]? = some g → (g.1, b.base + 4 * (offset gs i : Int)) ∈ img.symbols
  code : img.code = ps.flatMap (·.2)
  labelNames : img.labels.map (·.1) = (ps.map (·.1)).reverse
  labels : ∀ i p, ps[i]? = some p → (p.1, offset ps i) ∈ img.labels

theorem lookup_iff_mem {β : Type} {l : List (String × β)} {k : String} {x : β}
    (hnodup : (l.map (·.1)).Nodup) : l.lookup k = some x ↔ (k, x) ∈ l := by
  rw [List.lookup_eq_some_iff]
  constructor
  · rintro ⟨l₁, l₂, rfl, -⟩
    simp
  · intro h
    obtain ⟨l₁, l₂, rfl⟩ := List.append_of_mem h
    refine ⟨l₁, l₂, rfl, fun p hp => ?_⟩
    -- no entry before has the key
    rw [List.map_append, List.nodup_append] at hnodup
    have hne := hnodup.2.2 p.1 (List.mem_map_of_mem hp) k (by simp)
    simpa using hne.symm

section
variable {gs : List (String × List Word)} {ps : List (String × List Instr)} {img : Image}

theorem Loaded.empty : Loaded b [] [] {} := by
  constructor <;> simp

theorem Loaded.symbol (h : Loaded b gs ps img) (hnodup : (gs.map (·.1)).Nodup) {i : Nat}
    {g : String × List Word} (hg : gs[i]? = some g) :
    img.symbols.lookup g.1 = some (b.base + 4 * (offset gs i : Int)) := by
  refine (lookup_iff_mem ?_).mpr (h.symbols i g hg)
  rw [h.symbolNames, List.nodup_reverse]
  exact hnodup

theorem Loaded.label (h : Loaded b gs ps img) (hnodup : (ps.map (·.1)).Nodup)
    {l r : List (String × List Instr)} {p : String × List Instr} (hps : ps = l ++ p :: r) :
    ∃ n, img.labels.lookup p.1 = some n ∧
      ∀ code, code <+: p.2 ++ r.flatMap (·.2) → CodeAt img n code := by
  refine ⟨offset ps l.length, (lookup_iff_mem ?_).mpr (h.labels _ p (by simp [hps])),
    fun code hcode => ?_⟩
  · rw [h.labelNames, List.nodup_reverse]
    exact hnodup
  · rw [CodeAt, h.code, drop_offset, hps, List.drop_left]
    exact hcode

theorem foldl_datum (b : Board) (ds : List Datum) (img : Image) :
    (ds.map .datum).foldl (Image.add b) img =
    { img with data := img.data ++ ds.flatMap Datum.words } := by
  induction ds generalizing img with
  | nil => simp
  | cons d ds ih => simp [ih, Image.add]

theorem foldl_instr (b : Board) (code : List Instr) (img : Image) :
    (code.map .instr).foldl (Image.add b) img =
    { img with code := img.code ++ code } := by
  induction code generalizing img with
  | nil => simp
  | cons i code ih => simp [ih, Image.add]

def dataLines (name : String) (ds : List Datum) : List Line :=
  [.dataSection, .globl name, .label name] ++ ds.map .datum

theorem Loaded.addData (h : Loaded b gs ps img) (name : String) (ds : List Datum) :
    Loaded b (gs ++ [(name, ds.flatMap Datum.words)]) ps
      ((dataLines name ds).foldl (Image.add b) img) := by
  have himg : (dataLines name ds).foldl (Image.add b) img = { img with
      inText := false, symbols := (name, b.base + 4 * img.data.length) :: img.symbols
      data := img.data ++ ds.flatMap Datum.words } := by
    rw [dataLines, List.foldl_append, foldl_datum]
    rfl
  rw [himg]
  refine ⟨by
    simp [h.data], by simp [h.symbolNames], fun i g hg => ?_, h.code, h.labelNames, h.labels⟩
  rcases Nat.lt_or_ge i gs.length with hi | hi
  · rw [List.getElem?_append_left hi] at hg
    rw [offset_append (by omega)]
    exact List.mem_cons_of_mem _ (h.symbols i g hg)
  · rw [List.getElem?_append_right hi] at hg
    obtain ⟨hi', rfl⟩ := List.getElem?_eq_some_iff.mp hg
    obtain rfl : i = gs.length := by
      rw [List.length_singleton] at hi'
      omega
    rw [offset_append le_rfl, offset_length, h.data]
    simp

def pieceLines (p : String × List Instr) : List Line := .label p.1 :: p.2.map .instr

theorem Loaded.addPiece (h : Loaded b gs ps img) (htext : img.inText = true)
    (p : String × List Instr) :
    Loaded b gs (ps ++ [p]) ((pieceLines p).foldl (Image.add b) img) ∧
      ((pieceLines p).foldl (Image.add b) img).inText = true := by
  have himg : (pieceLines p).foldl (Image.add b) img = { img with
      labels := (p.1, img.code.length) :: img.labels, code := img.code ++ p.2 } := by
    rw [pieceLines, List.foldl_cons, foldl_instr, Image.add, if_pos htext]
  rw [himg]
  refine ⟨⟨h.data, h.symbolNames, h.symbols,
    by simp [h.code], by simp [h.labelNames], fun i q hq => ?_⟩, htext⟩
  rcases Nat.lt_or_ge i ps.length with hi | hi
  · rw [List.getElem?_append_left hi] at hq
    rw [offset_append (by omega)]
    exact List.mem_cons_of_mem _ (h.labels i q hq)
  · rw [List.getElem?_append_right hi] at hq
    obtain ⟨hi', rfl⟩ := List.getElem?_eq_some_iff.mp hq
    obtain rfl : i = ps.length := by
      rw [List.length_singleton] at hi'
      omega
    rw [offset_append le_rfl, offset_length, h.code]
    simp

theorem Loaded.addPieces (qs : List (String × List Instr)) :
    ∀ {ps : List (String × List Instr)} {img : Image},
    Loaded b gs ps img → img.inText = true →
    Loaded b gs (ps ++ qs) ((qs.flatMap pieceLines).foldl (Image.add b) img) := by
  induction qs with
  | nil =>
    intro ps img h _
    simpa using h
  | cons q qs ih =>
    intro ps img h htext
    obtain ⟨h₁, htext₁⟩ := h.addPiece htext q
    rw [List.flatMap_cons, List.foldl_append]
    simpa using ih h₁ htext₁

def codeLines (name : String) (qs : List (String × List Instr)) : List Line :=
  [.textSection, .globl name] ++ qs.flatMap pieceLines

theorem Loaded.addCode (h : Loaded b gs ps img) (name : String) (qs : List (String × List Instr)) :
    Loaded b gs (ps ++ qs) ((codeLines name qs).foldl (Image.add b) img) := by
  have himg : (codeLines name qs).foldl (Image.add b) img =
      (qs.flatMap pieceLines).foldl (Image.add b) { img with inText := true } := by
    rw [codeLines, List.foldl_append]
    rfl
  rw [himg]
  exact Loaded.addPieces qs ⟨h.data, h.symbolNames, h.symbols, h.code, h.labelNames, h.labels⟩ rfl

theorem foldl_joinParts (b : Board) (parts : List (List Line)) (img : Image) :
    (joinParts parts).foldl (Image.add b) img = parts.foldl
      (fun img p => p.foldl (Image.add b) img) img := by
  induction parts generalizing img with
  | nil => rfl
  | cons p parts ih =>
    cases parts with
    | nil => rfl
    | cons q parts =>
      rw [joinParts, List.foldl_append, List.foldl_cons, List.foldl_cons, ih]
      · rfl
      · simp

def FuncPieces (m : Module) (fn : Func) (qs : List (String × List Instr)) : Prop :=
  ∃ fr bs, Frame.ofFunc .rv32 m fn = .ok fr ∧ qs = (fn.name, prologue fr) :: bs ∧
    List.Forall₂ (fun bb q => q.1 = fr.label bb ∧ emitInsts ⟨.rv32, m, fr⟩ (fn.code bb) = .ok q.2)
      fn.layout.toList bs

def GlobalPiece (m : Module) (id : ValueId) (g : String × List Word) : Prop :=
  ∃ v, m.value? id = some v ∧ g = (symbol v.name, globalWords m id)

theorem emitBlocks_pieces {env : Env} {fn : Func} (bbs : List BlockId) : ∀ {ls : List Line},
    emitBlocks env fn bbs = .ok ls → ∃ bs, ls = bs.flatMap pieceLines ∧
      List.Forall₂ (fun bb q => q.1 = env.frame.label bb ∧ emitInsts env (fn.code bb) = .ok q.2)
        bbs bs := by
  induction bbs with
  | nil =>
    rintro ls ⟨⟩
    exact ⟨[], rfl, .nil⟩
  | cons bb bbs ih =>
    intro ls h
    rw [emitBlocks] at h
    cases hcode : emitInsts env (((fn.block? bb).map (·.insts.toList)).getD []) with
    | error => rw [hcode] at h; cases h
    | ok code =>
      cases hrest : emitBlocks env fn bbs with
      | error => rw [hcode, hrest] at h; cases h
      | ok rest =>
        rw [hcode, hrest] at h
        obtain ⟨bs, rfl, hbs⟩ := ih hrest
        refine ⟨(env.frame.label bb, code) :: bs, (Except.ok.inj h).symm, .cons ⟨rfl, hcode⟩ hbs⟩

theorem emitNamed_pieces {fn : Func} {ls : List Line} (h : emitNamed m fn = .ok ls) :
    ∃ qs, ls = codeLines fn.name qs ∧ FuncPieces m fn qs := by
  rw [emitNamed, emitFunc] at h
  cases hfr : Frame.ofFunc .rv32 m fn with
  | error => rw [hfr] at h; cases h
  | ok fr =>
    rw [hfr] at h
    dsimp only at h
    cases hbody : emitBlocks ⟨.rv32, m, fr⟩ fn fn.layout.toList with
    | error => rw [hbody] at h; cases h
    | ok body =>
      rw [hbody] at h
      obtain ⟨bs, rfl, hbs⟩ := emitBlocks_pieces _ hbody
      exact ⟨(fn.name, prologue fr) :: bs, (Except.ok.inj h).symm, fr, bs, hfr, rfl, hbs⟩

theorem words_joinZeros (ds : List Datum) (n : Nat) :
    (joinZeros n ds).flatMap Datum.words = List.replicate n 0 ++ ds.flatMap Datum.words := by
  have hzeros (n : Nat) : (if n = 0 then [] else [Datum.zeros n]).flatMap Datum.words =
    List.replicate n 0 := by
    cases n with
    | zero => rfl
    | succ n => exact List.flatMap_singleton ..
  induction ds generalizing n with
  | nil => rw [joinZeros, hzeros, List.flatMap_nil, List.append_nil]
  | cons d ds ih =>
    cases d with
    | zeros k =>
      rw [joinZeros, ih, List.replicate_add, List.append_assoc, List.flatMap_cons, Datum.words]
    | word w =>
      rw [joinZeros, List.flatMap_append, hzeros, List.flatMap_cons, ih, List.flatMap_cons]; rfl

theorem forall₂_of_mapM {α β ε : Type} {g : α → Except ε β} {xs : List α} {ys : List β}
    (h : xs.mapM g = .ok ys) :
    List.Forall₂ (fun x y => g x = .ok y) xs ys := by
  induction xs generalizing ys with
  | nil =>
    cases h
    exact .nil
  | cons x xs ih =>
    rw [List.mapM_cons] at h
    cases hx : g x with
    | error => rw [hx] at h; cases h
    | ok y =>
      cases hxs : xs.mapM g with
      | error => rw [hx, hxs] at h; cases h
      | ok ys' =>
        rw [hx, hxs] at h
        cases h
        exact .cons hx (ih hxs)

theorem initWords_succ (m : Module) (depth id : Nat) : initWords m (depth + 1) id =
    match m.value? id with
    | none => []
    | some v =>
      match v.node with
      | .integer w => [w]
      | .zeroInit => List.replicate (v.ty.size / 4).toNat 0
      | .aggregate es => es.flatMap (initWords m depth)
      | _ => [] := rfl

theorem words_of_initData (depth : Nat) :
    ∀ {id : ValueId} {ds : List Datum}, initData m depth id = .ok ds →
    ds.flatMap Datum.words = initWords m depth id := by
  induction depth with
  | zero =>
    intro id ds h
    have herror : initData m 0 id = .error (.missingInit id) := rfl
    rw [herror] at h
    cases h
  | succ depth ih =>
    intro id ds h
    rw [initData_succ] at h
    rw [initWords_succ]
    cases hv : m.value? id with
    | none => rw [hv] at h; cases h
    | some v =>
      rw [hv] at h
      dsimp only at h ⊢
      cases hnode : v.node with
      | integer w =>
        rw [hnode] at h
        cases h
        split
        · rename_i hw
          rw [hw]
          rfl
        · rfl
      | zeroInit =>
        rw [hnode] at h
        cases h
        -- the divisions round a negative size differently, but neither leaves a word of it
        have hsize : (v.ty.size.tdiv 4).toNat = (v.ty.size / 4).toNat := by
          rcases Int.le_total 0 v.ty.size with hpos | hneg
          · rw [Int.tdiv_eq_ediv_of_nonneg hpos]
          · obtain ⟨k, hk⟩ : ∃ k : Nat, v.ty.size = -(k : Int) := ⟨v.ty.size.natAbs, by omega⟩
            rw [hk, Int.neg_tdiv, Int.tdiv_eq_ediv_of_nonneg (by omega)]
            omega
        simp [Datum.words, hsize]
      | aggregate es =>
        rw [hnode] at h
        dsimp only at h ⊢
        cases hes : es.mapM (initData m depth) with
        | error => rw [hes] at h; cases h
        | ok parts =>
          rw [hes] at h
          cases h
          have hparts := (forall₂_of_mapM hes).imp fun _ _ hx => ih hx
          clear hes hnode
          induction hparts with
          | nil => rfl
          | cons hx _ ihs => rw [List.flatten_cons, List.flatMap_append, hx, ihs, List.flatMap_cons]
      | _ => rw [hnode] at h; cases h

theorem emitGlobal_pieces {id : ValueId} {ls : List Line} (h : emitGlobal m id = .ok ls) :
    ∃ v ds, m.value? id = some v ∧ ls = dataLines (symbol v.name) ds ∧
      ds.flatMap Datum.words = globalWords m id := by
  rw [emitGlobal] at h
  cases hv : m.value? id with
  | none => rw [hv] at h; cases h
  | some v =>
    rw [hv] at h
    dsimp only at h
    cases hnode : v.node with
    | «global» init =>
      rw [hnode] at h
      dsimp only at h
      cases hdata : initData m (m.values.size + 1) init with
      | error => rw [hdata] at h; cases h
      | ok ds =>
        rw [hdata] at h
        refine ⟨v, joinZeros 0 ds, rfl, (Except.ok.inj h).symm, ?_⟩
        rw [words_joinZeros, List.replicate_zero, List.nil_append, words_of_initData _ hdata,
          globalWords,
          Module.node?_eq hv, hnode]
    | _ => rw [hnode] at h; cases h

theorem loaded_globals {ids : List ValueId} {parts : List (List Line)}
    (hparts : List.Forall₂ (fun id p => emitGlobal m id = .ok p) ids parts) :
    ∀ {gs : List (String × List Word)} {img : Image}, Loaded b gs [] img → ∃ gs',
      Loaded b (gs ++ gs') [] (parts.foldl (fun img p => p.foldl (Image.add b) img) img) ∧
        List.Forall₂ (GlobalPiece m) ids gs' := by
  induction hparts with
  | nil =>
    intro gs img h
    exact ⟨[], by simpa using h, .nil⟩
  | cons hpart _ ih =>
    intro gs img h
    obtain ⟨v, ds, hv, rfl, hwords⟩ := emitGlobal_pieces hpart
    obtain ⟨gs', h', hgs'⟩ := ih (h.addData (symbol v.name) ds)
    refine ⟨_ :: gs', by simpa using h', .cons ⟨v, hv, ?_⟩ hgs'⟩
    rw [hwords]

theorem loaded_funcs {fns : List Func} {parts : List (List Line)}
    (hparts : List.Forall₂ (fun fn p => emitNamed m fn = .ok p) fns parts) :
    ∀ {gs : List (String × List Word)} {ps : List (String × List Instr)} {img : Image}, Loaded
      b gs ps img →
      ∃ qss, Loaded b gs (ps ++ qss.flatten)
        (parts.foldl (fun img p => p.foldl (Image.add b) img) img) ∧
        List.Forall₂ (FuncPieces m) fns qss := by
  induction hparts with
  | nil =>
    intro gs ps img h
    exact ⟨[], by simpa using h, .nil⟩
  | cons hpart _ ih =>
    intro gs ps img h
    obtain ⟨qs, rfl, hqs⟩ := emitNamed_pieces hpart
    obtain ⟨qss, h', hqss⟩ := ih (h.addCode _ qs)
    exact ⟨qs :: qss, by simpa using h', .cons hqs hqss⟩

theorem loaded_of_emit {ls : List Line} (h : emit .rv32 m = .ok ls) : ∃ gs qss,
    Loaded b gs qss.flatten (Image.ofLines b ls) ∧
    List.Forall₂ (GlobalPiece m) m.globals.toList gs ∧
      List.Forall₂ (FuncPieces m) (m.funcs.toList.filter (!·.isDeclared)) qss := by
  rw [emit_eq] at h
  cases hglobals : m.globals.toList.mapM (emitGlobal m) with
  | error => rw [hglobals] at h; cases h
  | ok globals =>
    cases hfuncs : (m.funcs.toList.filter (!·.isDeclared)).mapM (emitNamed m) with
    | error => rw [hglobals, hfuncs] at h; cases h
    | ok funcs =>
      rw [hglobals, hfuncs] at h
      cases h
      rw [Image.ofLines, foldl_joinParts, List.foldl_append]
      obtain ⟨gs, hgs, hgs'⟩ := loaded_globals (forall₂_of_mapM hglobals) Loaded.empty
      obtain ⟨qss, hqss, hqss'⟩ := loaded_funcs (forall₂_of_mapM hfuncs) hgs
      exact ⟨gs, qss, by simpa using hqss, hgs', hqss'⟩

end

/-! The labels and symbols of a module. -/

section
variable {scope : Scope Binding} {gs : List (String × List Word)}
  {qss : List (List (String × List Instr))}

def Named (m : Module) : Prop := ∀ g fn, m.func? g = some fn → fn.name.toList.head? ≠ some '.'

theorem func?_succ {i : Nat} (hi : i < m.funcs.toList.length) :
    m.func? (i + 1) = some m.funcs.toList[i] := by
  rw [Module.func?_of_pos _ (Nat.succ_pos i), Nat.succ_sub_one, ← Array.getElem?_toList,
    List.getElem?_eq_getElem hi]

theorem name_inj (h : Ready ⟨m, scope⟩) {g g' : FuncId} {fn fn' : Func} (hg : m.func? g = some fn)
    (hg' : m.func? g' = some fn') (hname : fn.name = fn'.name) : g = g' := by
  have h₁ := h.listed.funcs g fn hg
  have h₂ := h.listed.funcs g' fn' hg'
  rw [← hname] at h₂
  have hb := List.inj_on_of_nodup_map h.listed.nodup h₁ h₂ rfl
  cases hb
  rfl

theorem pairwise_names (h : Ready ⟨m, scope⟩) : m.funcs.toList.Pairwise fun fn fn' =>
    fn.name ≠ fn'.name := by
  rw [List.pairwise_iff_getElem]
  intro i j hi hj hlt hname
  have := name_inj h (func?_succ hi) (func?_succ hj) hname
  lia

theorem ofName?_eq_none (h : Ready ⟨m, scope⟩) {f : FuncId} {fn : Func} (hfin : Finished m f fn) :
    Service.ofName? fn.name = none := by
  cases hk : Service.ofName? fn.name with
  | none => rfl
  | some k =>
    have hname : k.name = fn.name := by simpa using List.find?_some hk
    have hlib : ∃ p ∈ Build.libraryFuncs, p.1 = k.name := by cases k <;> decide
    obtain ⟨p, hp, hpk⟩ := hlib
    obtain ⟨g, gn, hg, hgname, hlayout⟩ := h.stocked p hp
    obtain rfl : g = f := name_inj h hg hfin.found (by rw [hgname, hpk, hname])
    obtain rfl := Option.some.inj (hg.symm.trans hfin.found)
    have hfirst := hfin.first
    rw [hlayout] at hfirst
    cases hfirst

theorem FuncPieces.frame {f : FuncId} {fn : Func} {qs : List (String × List Instr)}
    (h : FuncPieces m fn qs) (hfin : Finished m f fn) :
    ∃ fr bs, frameOf m f = some fr ∧ Frame.Fits m fn fr ∧
      qs = (fn.name, prologue fr) :: bs ∧
      List.Forall₂ (fun bb q => q.1 = fr.label bb ∧ emitInsts ⟨.rv32, m, fr⟩ (fn.code bb) = .ok q.2)
        fn.layout.toList bs := by
  obtain ⟨fr, bs, hfr, hqs, hbs⟩ := h
  refine ⟨fr, bs, ?_, fits_of_ofFunc hfin hfr, hqs, hbs⟩
  rw [frameOf, hfin.found]
  simp only [Option.bind_some, hfr]
  rfl

def labelsOf (fn : Func) : List String := fn.name :: fn.layout.toList.map (Frame.blockLabel fn)

theorem FuncPieces.names {f : FuncId} {fn : Func} {qs : List (String × List Instr)}
    (h : FuncPieces m fn qs) (hfin : Finished m f fn) : qs.map (·.1) = labelsOf fn := by
  obtain ⟨fr, bs, -, hfits, rfl, hbs⟩ := h.frame hfin
  rw [labelsOf, List.map_cons]
  congr 1
  have hlabel := hfits.label
  generalize fn.layout.toList = bbs at hbs hlabel
  clear h
  induction hbs with
  | nil => rfl
  | cons hq _ ih =>
    rw [List.map_cons, List.map_cons, hq.1, hlabel _ (List.mem_cons_self ..),
      ih fun bb hbb => hlabel bb (List.mem_cons_of_mem _ hbb)]

theorem head_blockLabel {f : FuncId} {fn : Func} {bb : BlockId} (h : Finished m f fn)
    (hbb : bb ∈ fn.layout.toList) :
    (Frame.blockLabel fn bb).toList.head? = some '.' := by
  obtain ⟨hpos, hsize⟩ := h.bounds bb hbb
  obtain ⟨bl, hbl⟩ := Func.exists_block? hpos hsize
  rw [toList_blockLabel hbl]
  rfl

theorem nodup_labelsOf (hn : Named m) {f : FuncId} {fn : Func} (h : Finished m f fn) :
    (labelsOf fn).Nodup := by
  refine List.nodup_cons.mpr ⟨fun hmem => ?_, ?_⟩
  · obtain ⟨bb, hbb, heq⟩ := List.mem_map.mp hmem
    exact hn f fn h.found (by rw [← heq]; exact head_blockLabel h hbb)
  · exact h.nodup.map_on fun bb hbb bb' hbb' heq => (h.blockLabel_inj h.toCoded hbb hbb' heq).2

theorem labelsOf_disjoint (hn : Named m) {f f' : FuncId} {fn fn' : Func} (h : Finished m f fn)
    (h' : Finished m f' fn') (hne : fn.name ≠ fn'.name) :
    List.Disjoint (labelsOf fn) (labelsOf fn') := by
  intro l hl hl'
  rcases List.mem_cons.mp hl with rfl | hl
  · rcases List.mem_cons.mp hl' with heq | hl'
    · exact hne heq
    · obtain ⟨bb, hbb, heq⟩ := List.mem_map.mp hl'
      exact hn f fn h.found (by rw [← heq]; exact head_blockLabel h' hbb)
  · obtain ⟨bb, hbb, rfl⟩ := List.mem_map.mp hl
    rcases List.mem_cons.mp hl' with heq | hl'
    · exact hn f' fn' h'.found (by rw [← heq]; exact head_blockLabel h hbb)
    · obtain ⟨bb', hbb', heq⟩ := List.mem_map.mp hl'
      exact hne (h.blockLabel_inj h'.toCoded hbb hbb' heq.symm).1

theorem exists_finished (h : Sound m) {fn : Func}
    (hfn : fn ∈ m.funcs.toList.filter (!·.isDeclared)) :
    ∃ g, Finished m g fn := by
  obtain ⟨hmem, hdecl⟩ := List.mem_filter.mp hfn
  exact h.finished hmem (by simpa using hdecl)

theorem names_flatten (h : Sound m)
    (hqss : List.Forall₂ (FuncPieces m) (m.funcs.toList.filter (!·.isDeclared)) qss) :
    qss.flatten.map (·.1) = (m.funcs.toList.filter (!·.isDeclared)).flatMap labelsOf := by
  have hfin : ∀ fn ∈ m.funcs.toList.filter (!·.isDeclared), ∃ g, Finished m g fn :=
    fun fn hfn => exists_finished h hfn
  generalize m.funcs.toList.filter (!·.isDeclared) = fns at hqss hfin
  induction hqss with
  | nil => rfl
  | cons hqs _ ih =>
    obtain ⟨g, hg⟩ := hfin _ (List.mem_cons_self ..)
    rw [List.flatten_cons, List.map_append, hqs.names hg, ih fun fn hfn =>
      hfin fn (List.mem_cons_of_mem _ hfn),
      List.flatMap_cons]

theorem nodup_flatMap_labelsOf (h : Ready ⟨m, scope⟩) (hn : Named m) :
    ((m.funcs.toList.filter (!·.isDeclared)).flatMap labelsOf).Nodup := by
  rw [List.nodup_flatMap]
  refine ⟨fun fn hfn => ?_, ?_⟩
  · obtain ⟨g, hg⟩ := exists_finished h.sound hfn
    exact nodup_labelsOf hn hg
  · refine ((pairwise_names h).filter _).imp_of_mem fun hfn hfn' hne => ?_
    obtain ⟨g, hg⟩ := exists_finished h.sound hfn
    obtain ⟨g', hg'⟩ := exists_finished h.sound hfn'
    exact labelsOf_disjoint hn hg hg' hne

theorem nodup_labels (h : Ready ⟨m, scope⟩) (hn : Named m)
    (hqss : List.Forall₂ (FuncPieces m) (m.funcs.toList.filter (!·.isDeclared)) qss) :
    (qss.flatten.map (·.1)).Nodup := by
  rw [names_flatten h.sound hqss]
  exact nodup_flatMap_labelsOf h hn

theorem exists_split {α β : Type} {R : α → β → Prop} {xs : List α} {ys : List β}
    (h : List.Forall₂ R xs ys) {x : α} (hx : x ∈ xs) : ∃ l y r, ys = l ++ y :: r ∧ R x y := by
  induction h with
  | nil => cases hx
  | @cons x' y xs ys hr _ ih =>
    rcases List.mem_cons.mp hx with rfl | hx
    · exact ⟨[], y, ys, rfl, hr⟩
    · obtain ⟨l, y', r, rfl, hr'⟩ := ih hx
      exact ⟨y :: l, y', r, rfl, hr'⟩

theorem exists_pieces
    (hqss : List.Forall₂ (FuncPieces m) (m.funcs.toList.filter (!·.isDeclared)) qss) {f : FuncId}
    {fn : Func} (hfin : Finished m f fn) :
    ∃ l qs r, qss.flatten = l ++ qs ++ r ∧ FuncPieces m fn qs := by
  have hmem : fn ∈ m.funcs.toList.filter (!·.isDeclared) := by
    rw [List.mem_filter, hfin.isDeclared]
    exact ⟨Module.mem_funcs hfin.found, rfl⟩
  obtain ⟨l, qs, r, rfl, hqs⟩ := exists_split hqss hmem
  exact ⟨l.flatten, qs, r.flatten, by simp, hqs⟩

theorem symbol_name (name : String) : symbol ("@" ++ name) = name := by
  simp [symbol, String.toList_append]

theorem GlobalPiece.listed (h : Ready ⟨m, scope⟩) {id : ValueId} {g : String × List Word}
    (hid : id ∈ m.globals.toList) (hg : GlobalPiece m id g) :
    ∃ c, (g.1, Binding.var id c) ∈ scope.outermost := by
  obtain ⟨v, hv, rfl⟩ := hg
  obtain ⟨name, c, w, hmem, hw, hname⟩ := h.listed.vars id (Array.mem_toList_iff.mp hid)
  obtain rfl := Option.some.inj (hv.symm.trans hw)
  refine ⟨c, ?_⟩
  dsimp only
  rw [hname, symbol_name]
  exact hmem

theorem nodup_symbols (h : Ready ⟨m, scope⟩)
    (hgs : List.Forall₂ (GlobalPiece m) m.globals.toList gs) :
    (gs.map (·.1)).Nodup := by
  have hname : ∀ id ∈ m.globals.toList, ∀ g, GlobalPiece m id g →
    ∃ c, (g.1, Binding.var id c) ∈ scope.outermost :=
    fun id hid g hg => hg.listed h hid
  have hnodup := h.listed.globals
  dsimp only at hnodup
  generalize m.globals.toList = ids at hgs hname hnodup
  induction hgs with
  | nil => exact .nil
  | @cons id g ids gs hg hgs ih =>
    obtain ⟨hid, hids⟩ := List.nodup_cons.mp hnodup
    refine List.nodup_cons.mpr ⟨fun hmem =>
      ?_, ih (fun x hx => hname x (List.mem_cons_of_mem _ hx)) hids⟩
    obtain ⟨g', hg', heq⟩ := List.mem_map.mp hmem
    obtain ⟨l, id', r, rfl, hpiece⟩ := exists_split hgs.flip hg'
    obtain ⟨c, hc⟩ := hname id (List.mem_cons_self ..) g hg
    obtain ⟨c', hc'⟩ := hname id' (by simp) g' hpiece
    rw [heq] at hc'
    have hb := List.inj_on_of_nodup_map h.listed.nodup hc hc' rfl
    cases hb
    simp at hid

structure Stored (b : Board) (m : Module) (img : Image) : Prop where
  global : ∀ id ∈ m.globals, ∃ o : Nat, globalAddr m img id = some (b.base + 4 * o) ∧
    globalWords m id <+: img.data.drop o ∧ o + (globalWords m id).length ≤ img.data.length
  apart : ∀ id ∈ m.globals, ∀ id' ∈ m.globals, id ≠ id' → ∀ o o' : Nat, globalAddr m img id =
    some (b.base + 4 * o) →
    globalAddr m img id' = some (b.base + 4 * o') →
    o + (globalWords m id).length ≤ o' ∨ o' + (globalWords m id').length ≤ o

theorem stored {ls : List Line} {p : Program} (hp : p.lower = .ok m) (hls : emit .rv32 m = .ok ls) :
    Stored b m (Image.ofLines b ls) := by
  obtain ⟨scope, h⟩ := ready_of_lower hp
  obtain ⟨gs, qss, hloaded, hgs, -⟩ := loaded_of_emit (b := b) hls
  have hsymbols := nodup_symbols h hgs
  have hpiece : ∀ id ∈ m.globals, ∃ i : Nat, ∃ g, m.globals.toList[i]? = some id ∧ gs[i]? = some g ∧
      g.2 = globalWords m id ∧ globalAddr m (Image.ofLines b ls) id =
        some (b.base + 4 * (offset gs i : Int)) := by
    intro id hid
    obtain ⟨i, hi, rfl⟩ := List.getElem_of_mem (Array.mem_toList_iff.mpr hid)
    have hi' : i < gs.length := by
      rw [← hgs.length_eq]
      exact hi
    obtain ⟨v, hv, heq⟩ := hgs.get hi hi'
    have hg : gs[i]? = some (symbol v.name, globalWords m m.globals.toList[i]) := by
      rw [List.getElem?_eq_getElem hi']
      exact congrArg some heq
    refine ⟨i, _, List.getElem?_eq_getElem hi, hg, rfl, ?_⟩
    rw [globalAddr, show m.value? m.globals.toList[i] = some v from hv]
    exact hloaded.symbol hsymbols hg
  refine ⟨fun id hid => ?_, fun id hid id' hid' hne o o' ho ho' => ?_⟩
  · obtain ⟨i, g, -, hg, hwords, haddr⟩ := hpiece id hid
    refine ⟨offset gs i, haddr, ?_, ?_⟩
    · obtain ⟨hi, rfl⟩ := List.getElem?_eq_some_iff.mp hg
      rw [hloaded.data, drop_offset, ← hwords, List.drop_eq_getElem_cons hi, List.flatMap_cons]
      exact List.prefix_append ..
    · have hlen := (List.getElem?_eq_some_iff.mp hg).1
      have := offset_le hg hlen
      rwa [offset_length, ← hloaded.data, hwords] at this
  · obtain ⟨i, g, hi, hg, hwords, haddr⟩ := hpiece id hid
    obtain ⟨i', g', hi', hg', hwords', haddr'⟩ := hpiece id' hid'
    have heq := Option.some.inj (ho.symm.trans haddr)
    have heq' := Option.some.inj (ho'.symm.trans haddr')
    -- the words of the globals stand one after the other, so those of the later one are behind the
    -- other
    rcases Nat.lt_trichotomy i i' with hlt | rfl | hlt
    · have := offset_le hg hlt
      rw [hwords] at this
      omega
    · exact absurd (Option.some.inj (hi.symm.trans hi')) hne
    · have := offset_le hg' hlt
      rw [hwords'] at this
      omega

/-- The image of a module holds its code. -/
theorem installed {ls : List Line} {p : Program} (hp : p.lower = .ok m)
    (hls : emit .rv32 m = .ok ls) (hn : Named m)
    (hshort : (Image.ofLines b ls).code.length < 0x80000000) :
    Installed b m (Image.ofLines b ls) := by
  obtain ⟨scope, h⟩ := ready_of_lower hp
  obtain ⟨gs, qss, hloaded, -, hqss⟩ := loaded_of_emit (b := b) hls
  have hlabels := nodup_labels h hn hqss
  refine ⟨h.sound, fun id hid => ?_, by
    omega, fun f fn hfin => ?_, fun f fn fr hfin hfr bb hbb => ?_⟩
  · obtain ⟨o, haddr, -⟩ := (stored (b := b) hp hls).global id hid
    exact ⟨_, haddr⟩
  · obtain ⟨l, qs, r, hps, hqs⟩ := exists_pieces hqss hfin
    obtain ⟨fr, bs, hfr, hfits, rfl, hbs⟩ := hqs.frame hfin
    obtain ⟨n, hlookup, hat⟩ :=
      hloaded.label hlabels (l := l) (p := (fn.name, prologue fr)) (r := bs ++ r)
      (by rw [hps]; simp)
    obtain ⟨bbs, hlayout⟩ : ∃ bbs, fn.layout.toList = 1 :: bbs :=
      List.head?_eq_some_iff.mp hfin.first
    rw [hlayout] at hbs
    cases hbs with
    | @cons _ q _ bs' hq _ =>
      refine ⟨fr, n, q.2, hfr, hfits, ofName?_eq_none h hfin, hlookup, hq.2, hat _ ?_⟩
      rw [List.cons_append, List.flatMap_cons, ← List.append_assoc]
      exact List.prefix_append ..
  · obtain ⟨l, qs, r, hps, hqs⟩ := exists_pieces hqss hfin
    obtain ⟨fr', bs, hfr', hfits, rfl, hbs⟩ := hqs.frame hfin
    obtain rfl := Option.some.inj (hfr.symm.trans hfr')
    obtain ⟨l', q, r', rfl, hq⟩ := exists_split hbs hbb
    obtain ⟨n, hlookup, hat⟩ :=
      hloaded.label hlabels (l := l ++ (fn.name, prologue fr) :: l') (p := q) (r := r' ++ r)
      (by rw [hps]; simp)
    refine ⟨n, q.2, ?_, hq.2, hat _ (List.prefix_append ..)⟩
    rw [← hq.1]
    exact hlookup

theorem exists_of_label {ls : List Line} {p : Program} (hp : p.lower = .ok m)
    (hls : emit .rv32 m = .ok ls) {name : String} {n : Nat} (hname : name.toList.head? ≠ some '.')
    (h : (Image.ofLines b ls).labels.lookup name = some n) : ∃ fn, m.funcNamed? name = some fn := by
  obtain ⟨scope, hready⟩ := ready_of_lower hp
  obtain ⟨gs, qss, hloaded, -, hqss⟩ := loaded_of_emit (b := b) hls
  obtain ⟨l, r, hsplit, -⟩ := List.lookup_eq_some_iff.mp h
  have hmem : name ∈ (Image.ofLines b ls).labels.map (·.1) := by
    rw [hsplit]
    simp
  rw [hloaded.labelNames, List.mem_reverse, names_flatten hready.sound hqss] at hmem
  obtain ⟨fn, hfn, hmem⟩ := List.mem_flatMap.mp hmem
  obtain ⟨g, hg⟩ := exists_finished hready.sound hfn
  rcases List.mem_cons.mp hmem with rfl | hmem
  · refine Option.isSome_iff_exists.mp (Array.find?_isSome.mpr ⟨fn, ?_, by simp⟩)
    exact Array.mem_toList_iff.mp (Module.mem_funcs hg.found)
  · obtain ⟨bb, hbb, rfl⟩ := List.mem_map.mp hmem
    exact absurd (head_blockLabel hg hbb) hname

end

end Sysy.Assembly
