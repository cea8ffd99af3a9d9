import Sysy.Proofs.Assembly.Loading

/-!
Where the instructions of a function come from. `Stems` lists what an instruction of intermediate
code can be emitted as, with the constants and the labels that stand in it.
-/

namespace Sysy.Assembly
open Ir Lowering

/-- The label that an instruction goes to, calls, or takes the address of. -/
def Instr.target? : Instr → Option String
  | .j l | .bnez _ l | .call l | .la _ l => some l
  | _ => none

def Instr.constant? : Instr → Option Int
  | .li _ v => some v
  | _ => none

def Instr.IsPlain (i : Instr) : Prop := i.target? = none ∧ i.constant? = none

inductive Stems (env : Env) (node : Node) : Instr → Prop
  | plain {i : Instr} (h : i.IsPlain) : Stems env node i
  | integer {x : ValueId} {w : Word} (rd : Reg) (h : env.module.node? x = some (.integer w)) :
      Stems env node (.li rd w.toInt)
  | slot {x : ValueId} {s : Slot} (rd : Reg) (h : env.frame.slot? x = some s) :
      Stems env node (.li rd s.offset)
  /-- An argument that was passed on the stack. -/
  | incoming {x : ValueId} {i : Nat} (rd : Reg) (hx : x ∈ node.operands)
      (h : env.module.node? x = some (.arg i))
      (hi : ¬(i : Int) < env.machine.argRegs) :
        Stems env node (.li rd (Frame.incomingOffset env.machine env.frame i))
  | outgoing {g : FuncId} {args : List ValueId} {i : Nat} (rd : Reg) (h : node = .call g args)
      (hlen : i < args.length)
      (hi : ¬(i : Int) < env.machine.argRegs) :
        Stems env node (.li rd (Frame.outgoingOffset env.machine i))
  /-- The size of what a pointer is moved by. -/
  | pointee {src index : ValueId} {e : Ty} (rd : Reg) (h : node = .getPtr src index)
      (hty : env.module.tyOf src = .ptr e) : Stems env node (.li rd e.size)
  | element {src index : ValueId} {e : Ty} {n : Int} (rd : Reg) (h : node = .getElemPtr src index)
      (hty : env.module.tyOf src = .ptr (.array e n)) : Stems env node (.li rd e.size)
  | link (rd : Reg) (h : env.frame.hasCall = true) : Stems env node (.li rd env.frame.raOffset)
  | close (rd : Reg) : Stems env node (.li rd env.frame.size)
  | global {x init : ValueId} {v : Value} (rd : Reg) (hv : env.module.value? x = some v)
      (h : v.node = .global init) :
      Stems env node (.la rd (symbol v.name))
  | jump {bb : BlockId} (h : bb ∈ node.successors) : Stems env node (.j (env.frame.label bb))
  | branch {bb : BlockId} (rs : Reg) (h : bb ∈ node.successors) :
      Stems env node (.bnez rs (env.frame.label bb))
  | call {g : FuncId} {args : List ValueId} {fn : Func} (h : node = .call g args)
      (hg : env.module.func? g = some fn) :
      Stems env node (.call fn.name)

section
variable {off : Int} {i : Instr} {rd rs tmp : Reg}

theorem mem_spAddr (h : i ∈ (spAddr tmp off).1) : i.IsPlain ∨ i = .li tmp off := by
  rw [spAddr] at h
  split at h
  · cases h
  · simp only [List.mem_cons, List.not_mem_nil, or_false] at h
    rcases h with rfl | rfl
    · exact .inr rfl
    · exact .inl ⟨rfl, rfl⟩

theorem mem_loadSp (h : i ∈ loadSp rd tmp off) : i.IsPlain ∨ i = .li tmp off := by
  rcases List.mem_append.mp h with h | h
  · exact mem_spAddr h
  · obtain rfl := List.mem_singleton.mp h
    exact .inl ⟨rfl, rfl⟩

theorem mem_storeSp (h : i ∈ storeSp rs tmp off) : i.IsPlain ∨ i = .li tmp off := by
  rcases List.mem_append.mp h with h | h
  · exact mem_spAddr h
  · obtain rfl := List.mem_singleton.mp h
    exact .inl ⟨rfl, rfl⟩

/-- An offset stands in the instruction where it fits, and is loaded first where it does not. -/
theorem mem_short_or_long {short long : Instr} (hshort : short.IsPlain) (hlong : long.IsPlain)
    (h : i ∈ if fitsImm12 off then [short] else [.li rd off, long]) :
    i.IsPlain ∨ i = .li rd off := by
  split at h
  · obtain rfl := List.mem_singleton.mp h
    exact .inl hshort
  · simp only [List.mem_cons, List.not_mem_nil, or_false] at h
    rcases h with rfl | rfl
    · exact .inr rfl
    · exact .inl hlong

theorem mem_addrSp (h : i ∈ addrSp rd off) : i.IsPlain ∨ i = .li rd off :=
  mem_short_or_long ⟨rfl, rfl⟩ ⟨rfl, rfl⟩ h

theorem mem_addSp (h : i ∈ addSp off) : i.IsPlain ∨ i = .li .t0 off :=
  mem_short_or_long ⟨rfl, rfl⟩ ⟨rfl, rfl⟩ h

theorem mem_prologue {fr : Frame} (h : i ∈ prologue fr) :
    i.IsPlain ∨ i = .li .t0 (-fr.size) ∨ fr.hasCall = true ∧ i = .li .t0 fr.raOffset := by
  rw [prologue] at h
  split at h
  · cases h
  · rcases List.mem_append.mp h with h | h
    · exact (mem_addSp h).imp_right .inl
    · split at h
      · rename_i hcall
        exact (mem_storeSp h).imp_right fun heq => .inr ⟨hcall, heq⟩
      · cases h

theorem li_mem_loadSp (h : fitsImm12 off = false) : .li tmp off ∈ loadSp rd tmp off := by
  simp [loadSp, spAddr, h]

end

section
variable {env : Env} {node : Node} {i : Instr} {code : List Instr} {x : ValueId} {rd rs tmp : Reg}

theorem Stems.of_li {off : Int} (hli : Stems env node (.li tmp off))
    (h : i.IsPlain ∨ i = .li tmp off) :
    Stems env node i := by
  rcases h with h | rfl
  · exact .plain h
  · exact hli

theorem stems_arithCode {op : Arith} (h : i ∈ arithCode op) : Stems env node i := by
  refine .plain ?_
  cases op <;> simp only [arithCode, List.mem_cons, List.not_mem_nil, or_false] at h
  all_goals first
    | (obtain rfl := h; exact ⟨rfl, rfl⟩)
    | (rcases h with rfl | rfl <;> exact ⟨rfl, rfl⟩)

theorem stems_saveResult (h : i ∈ saveResult env x rs tmp) : Stems env node i := by
  rw [saveResult] at h
  split at h
  · cases h
  · rename_i s hs
    exact .of_li (.slot _ hs) (mem_storeSp h)

theorem stems_epilogue (h : i ∈ epilogue env.frame) : Stems env node i := by
  rcases List.mem_append.mp h with h | h
  · split at h
    · cases h
    · rcases List.mem_append.mp h with h | h
      · split at h
        · rename_i hcall
          exact .of_li (.link _ hcall) (mem_loadSp h)
        · cases h
      · exact .of_li (.close _) (mem_addSp h)
  · obtain rfl := List.mem_singleton.mp h
    exact .plain ⟨rfl, rfl⟩

theorem stems_loadValue (hx : x ≠ 0 → x ∈ node.operands) (h : loadValue env rd x = .ok code)
    (hi : i ∈ code) :
    Stems env node i := by
  rw [loadValue] at h
  cases hv : env.module.value? x with
  | none => rw [hv] at h; cases h
  | some v =>
    rw [hv] at h
    dsimp only at h
    have hnode := Module.node?_eq hv
    split at h
    · rename_i w hw
      cases h
      obtain rfl := List.mem_singleton.mp hi
      exact .integer rd (hw ▸ hnode)
    · rename_i k hk
      have hmem := hx (Nat.ne_of_gt (Module.bounds_of_value? hv).1)
      split at h
      · cases h
        obtain rfl := List.mem_singleton.mp hi
        exact .plain ⟨rfl, rfl⟩
      · rename_i hregs
        cases h
        exact .of_li (.incoming rd hmem (hk ▸ hnode) hregs) (mem_loadSp hi)
    · rename_i init hinit
      cases h
      obtain rfl := List.mem_singleton.mp hi
      exact .global rd hv hinit
    · split at h
      · cases h
      · rename_i s hs
        cases h
        split at hi
        · exact .of_li (.slot rd hs) (mem_addrSp hi)
        · exact .of_li (.slot rd hs) (mem_loadSp hi)

theorem allocSlot_ok {s : Slot} (h : allocSlot env x = .ok s) : env.frame.slot? x = some s := by
  rw [allocSlot] at h
  split at h
  · cases h
  · rename_i hs
    cases h
    exact hs

theorem stems_emitLoad {id src : ValueId} (hsrc : src ≠ 0 → src ∈ node.operands)
    (h : emitLoad env id src = .ok code) (hi : i ∈ code) : Stems env node i := by
  rw [emitLoad] at h
  dsimp only at h
  split at h
  · obtain ⟨s, hs, h⟩ := bind_eq_ok.mp h
    cases h
    rcases List.mem_append.mp hi with hi | hi
    · exact .of_li (.slot _ (allocSlot_ok hs)) (mem_loadSp hi)
    · exact stems_saveResult hi
  · obtain ⟨load, hload, h⟩ := bind_eq_ok.mp h
    cases h
    rcases List.mem_append.mp hi with hi | hi
    · rcases List.mem_append.mp hi with hi | hi
      · exact stems_loadValue hsrc hload hi
      · obtain rfl := List.mem_singleton.mp hi
        exact .plain ⟨rfl, rfl⟩
    · exact stems_saveResult hi

theorem stems_emitStore {val dest : ValueId} (hval : val ≠ 0 → val ∈ node.operands)
    (hdest : dest ≠ 0 → dest ∈ node.operands) (h : emitStore env val dest = .ok code)
    (hi : i ∈ code) :
    Stems env node i := by
  obtain ⟨read, hread, h⟩ := bind_eq_ok.mp h
  split at h
  · obtain ⟨s, hs, h⟩ := bind_eq_ok.mp h
    cases h
    rcases List.mem_append.mp hi with hi | hi
    · exact stems_loadValue hval hread hi
    · exact .of_li (.slot _ (allocSlot_ok hs)) (mem_storeSp hi)
  · obtain ⟨place, hplace, h⟩ := bind_eq_ok.mp h
    cases h
    rcases List.mem_append.mp hi with hi | hi
    · rcases List.mem_append.mp hi with hi | hi
      · exact stems_loadValue hval hread hi
      · exact stems_loadValue hdest hplace hi
    · obtain rfl := List.mem_singleton.mp hi
      exact .plain ⟨rfl, rfl⟩

theorem stems_emitOffset {id src index : ValueId} {size : Int}
    (hsrc : src ≠ 0 → src ∈ node.operands) (hindex : index ≠ 0 → index ∈ node.operands)
    (hsize : Stems env node (.li .t2 size)) (h : emitOffset env id src index size = .ok code)
    (hi : i ∈ code) : Stems env node i := by
  obtain ⟨base, hbase, h⟩ := bind_eq_ok.mp h
  dsimp only at h
  split at h
  · cases h
    rcases List.mem_append.mp hi with hi | hi
    · rcases List.mem_append.mp hi with hi | hi
      · exact stems_loadValue hsrc hbase hi
      · split at hi
        · cases hi
        · obtain rfl := List.mem_singleton.mp hi
          exact .plain ⟨rfl, rfl⟩
    · exact stems_saveResult hi
  · obtain ⟨read, hread, h⟩ := bind_eq_ok.mp h
    cases h
    rcases List.mem_append.mp hi with hi | hi
    · rcases List.mem_append.mp hi with hi | hi
      · exact stems_loadValue hsrc hbase hi
      · rcases List.mem_append.mp hi with hi | hi
        · exact stems_loadValue hindex hread hi
        · simp only [List.mem_cons, List.not_mem_nil, or_false] at hi
          rcases hi with rfl | rfl | rfl
          · exact hsize
          · exact .plain ⟨rfl, rfl⟩
          · exact .plain ⟨rfl, rfl⟩
    · exact stems_saveResult hi

theorem stems_emitBinary {id lhs rhs : ValueId} {op : Arith} (hlhs : lhs ≠ 0 → lhs ∈ node.operands)
    (hrhs : rhs ≠ 0 → rhs ∈ node.operands) (h : emitBinary env id op lhs rhs = .ok code)
    (hi : i ∈ code) :
    Stems env node i := by
  obtain ⟨l, hl, h⟩ := bind_eq_ok.mp h
  obtain ⟨r, hr, h⟩ := bind_eq_ok.mp h
  cases h
  rcases List.mem_append.mp hi with hi | hi
  · rcases List.mem_append.mp hi with hi | hi
    · rcases List.mem_append.mp hi with hi | hi
      · exact stems_loadValue hlhs hl hi
      · exact stems_loadValue hrhs hr hi
    · exact stems_arithCode hi
  · exact stems_saveResult hi

theorem stems_emitArgs {g : FuncId} {all : List ValueId} (hnode : node = .call g all)
    (args : List ValueId) :
    ∀ {n : Nat} {code : List Instr}, n + args.length = all.length →
    (∀ x ∈ args, x ≠ 0 → x ∈ node.operands) →
      emitArgs env n args = .ok code → i ∈ code → Stems env node i := by
  induction args with
  | nil =>
    intro n code _ _ h hi
    cases h
    cases hi
  | cons arg args ih =>
    intro n code hlen hargs h hi
    rw [List.length_cons] at hlen
    have harg := hargs arg (List.mem_cons_self ..)
    rw [emitArgs] at h
    dsimp only at h
    split at h
    · obtain ⟨pass, hpass, h⟩ := bind_eq_ok.mp h
      obtain ⟨rest, hrest, h⟩ := bind_eq_ok.mp h
      cases h
      rcases List.mem_append.mp hi with hi | hi
      · exact stems_loadValue harg hpass hi
      · exact ih (by omega) (fun x hx => hargs x (List.mem_cons_of_mem _ hx)) hrest hi
    · rename_i hregs
      obtain ⟨read, hread, h⟩ := bind_eq_ok.mp h
      rw [pure_bind] at h
      obtain ⟨rest, hrest, h⟩ := bind_eq_ok.mp h
      cases h
      rcases List.mem_append.mp hi with hi | hi
      · rcases List.mem_append.mp hi with hi | hi
        · exact stems_loadValue harg hread hi
        · exact .of_li (.outgoing _ hnode (by omega) hregs) (mem_storeSp hi)
      · exact ih (by omega) (fun x hx => hargs x (List.mem_cons_of_mem _ hx)) hrest hi

theorem stems_emitCall {id : ValueId} {g : FuncId} {args : List ValueId}
    (hnode : node = .call g args) (hargs : ∀ x ∈ args, x ≠ 0 → x ∈ node.operands)
    (h : emitCall env id g args = .ok code) (hi : i ∈ code) :
    Stems env node i := by
  obtain ⟨pass, hpass, h⟩ := bind_eq_ok.mp h
  split at h
  · cases h
  · rename_i fn hg
    cases h
    rcases List.mem_append.mp hi with hi | hi
    · rcases List.mem_append.mp hi with hi | hi
      · exact stems_emitArgs hnode args (Nat.zero_add _) hargs hpass hi
      · obtain rfl := List.mem_singleton.mp hi
        exact .call hnode hg
    · exact stems_saveResult hi

theorem stems_emitInst {id : ValueId} (hnode : env.module.node? id = some node)
    (h : emitInst env id = .ok code) (hi : i ∈ code) : Stems env node i := by
  rw [emitInst, hnode] at h
  dsimp only at h
  split at h
  · cases h
    cases hi
  · exact stems_emitLoad (by simp [Node.operands]) h hi
  · exact stems_emitStore (by simp +contextual [Node.operands])
      (by simp +contextual [Node.operands]) h hi
  · rw [emitGetPtr] at h
    split at h
    · rename_i hty
      exact stems_emitOffset (by simp +contextual [Node.operands]) (by
        simp +contextual [Node.operands])
        (.pointee _ rfl hty) h hi
    · cases h
  · rw [emitGetElemPtr] at h
    split at h
    · rename_i hty
      exact stems_emitOffset (by simp +contextual [Node.operands]) (by
        simp +contextual [Node.operands])
        (.element _ rfl hty) h hi
    · cases h
    · cases h
  · exact stems_emitBinary (by simp +contextual [Node.operands])
      (by simp +contextual [Node.operands]) h hi
  · exact stems_emitCall rfl (by simp +contextual [Node.operands]) h hi
  · cases h
    obtain rfl := List.mem_singleton.mp hi
    exact .jump (by simp [Node.successors])
  · obtain ⟨read, hread, h⟩ := bind_eq_ok.mp h
    cases h
    rcases List.mem_append.mp hi with hi | hi
    · exact stems_loadValue (by simp [Node.operands]) hread hi
    · simp only [List.mem_cons, List.not_mem_nil, or_false] at hi
      rcases hi with rfl | rfl
      · exact .branch _ (by simp [Node.successors])
      · exact .jump (by simp [Node.successors])
  · cases h
    exact stems_epilogue hi
  · obtain ⟨read, hread, h⟩ := bind_eq_ok.mp h
    cases h
    rcases List.mem_append.mp hi with hi | hi
    · exact stems_loadValue (by simp [Node.operands]) hread hi
    · exact stems_epilogue hi
  · cases h

theorem mem_emitInsts {ids : List ValueId} :
    ∀ {code : List Instr}, emitInsts env ids = .ok code → i ∈ code →
    ∃ id ∈ ids, ∃ part, emitInst env id = .ok part ∧ i ∈ part := by
  induction ids with
  | nil =>
    intro code h hi
    cases h
    cases hi
  | cons id ids ih =>
    intro code h hi
    obtain ⟨part, hpart, h⟩ := bind_eq_ok.mp h
    obtain ⟨rest, hrest, h⟩ := bind_eq_ok.mp h
    cases h
    rcases List.mem_append.mp hi with hi | hi
    · exact ⟨id, List.mem_cons_self .., part, hpart, hi⟩
    · obtain ⟨id', hid', hrest⟩ := ih hrest hi
      exact ⟨id', List.mem_cons_of_mem _ hid', hrest⟩

theorem exists_emitInst {ids : List ValueId} {id : ValueId} (hid : id ∈ ids) :
    ∀ {code : List Instr},
    emitInsts env ids = .ok code → ∃ part, emitInst env id = .ok part ∧ part ⊆ code := by
  induction ids with
  | nil => cases hid
  | cons id' ids ih =>
    intro code h
    obtain ⟨part, hpart, h⟩ := bind_eq_ok.mp h
    obtain ⟨rest, hrest, h⟩ := bind_eq_ok.mp h
    cases h
    rcases List.mem_cons.mp hid with rfl | hid
    · exact ⟨part, hpart, List.subset_append_left _ _⟩
    · obtain ⟨part', hpart', hsub⟩ := ih hid hrest
      exact ⟨part', hpart', List.subset_append_of_subset_right _ hsub⟩

end

/-! The instructions and labels of lines, and of the image that they are loaded as. -/

def labels (ls : List Line) : List String :=
  ls.filterMap fun l => match l with
    | .label s => some s
    | _ => none

def instrs (ls : List Line) : List Instr :=
  ls.filterMap fun l => match l with
    | .instr i => some i
    | _ => none

theorem code_ofLines (b : Board) (ls : List Line) : (Image.ofLines b ls).code = instrs ls := by
  have hfold (ls : List Line) : ∀ img : Image, (ls.foldl (Image.add b) img).code = img.code ++
    instrs ls := by
    induction ls with
    | nil => simp [instrs]
    | cons l ls ih =>
      intro img
      rw [List.foldl_cons, ih]
      cases l with
      | instr i => simp [Image.add, instrs]
      | label s =>
        rw [Image.add]
        split <;> rfl
      | _ => rfl
  exact (hfold ls {}).trans (List.nil_append _)

theorem labels_ofLines (b : Board) (ls : List Line) : List.Perm (labels ls)
    ((Image.ofLines b ls).symbols.map (·.1) ++ (Image.ofLines b ls).labels.map (·.1)) := by
  have hfold (ls : List Line) : ∀ img : Image,
      List.Perm (labels ls ++ (img.symbols.map (·.1) ++ img.labels.map (·.1)))
        ((ls.foldl (Image.add b) img).symbols.map (·.1) ++ (ls.foldl (Image.add b) img).labels.map
          (·.1)) := by
    induction ls with
    | nil => exact fun img => .refl _
    | cons l ls ih =>
      intro img
      rw [List.foldl_cons]
      refine .trans ?_ (ih _)
      cases l with
      | label s =>
        have hlabels : labels (.label s :: ls) = s :: labels ls := rfl
        rw [hlabels, Image.add]
        split
        · refine .trans (@List.perm_middle _ s (labels ls) _).symm (.append_left _ ?_)
          exact List.perm_middle.symm
        · exact (@List.perm_middle _ s (labels ls) _).symm
      | _ => exact .refl _
  have h := hfold ls {}
  rwa [show (({} : Image).symbols.map (·.1) ++ ({} : Image).labels.map (·.1)) = [] from rfl,
    List.append_nil] at h

section
variable {m : Module} {ls : List Line} {i : Instr}

theorem instr_cases (hs : Sound m) (hls : emit .rv32 m = .ok ls) (hi : i ∈ instrs ls) :
    ∃ f fn fr, Finished m f fn ∧ Frame.ofFunc .rv32 m fn = .ok fr ∧ Frame.Fits m fn fr ∧
      (i ∈ prologue fr ∨ ∃ bb id v, id ∈ fn.code bb ∧ m.value? id = some v ∧
        Stems ⟨.rv32, m, fr⟩ v.node i) := by
  obtain ⟨gs, qss, hloaded, -, hqss⟩ := loaded_of_emit (b := .small) hls
  rw [← code_ofLines .small, hloaded.code] at hi
  obtain ⟨q, hq, hi⟩ := List.mem_flatMap.mp hi
  obtain ⟨qs, hqs, hq⟩ := List.mem_flatten.mp hq
  obtain ⟨l, fn, r, heq, hpieces⟩ := exists_split hqss.flip hqs
  have hfn : fn ∈ m.funcs.toList.filter (!·.isDeclared) := by
    rw [heq]
    simp
  obtain ⟨f, hfin⟩ := exists_finished hs hfn
  obtain ⟨fr, bs, hfr, rfl, hbs⟩ := hpieces
  refine ⟨f, fn, fr, hfin, hfr, fits_of_ofFunc hfin hfr, ?_⟩
  rcases List.mem_cons.mp hq with rfl | hq
  · exact .inl hi
  · obtain ⟨l', bb, r', -, -, hcode⟩ := exists_split hbs.flip hq
    obtain ⟨id, hid, part, hpart, hi⟩ := mem_emitInsts hcode hi
    obtain ⟨v, hv, -⟩ := hfin.inst bb id hid
    exact .inr ⟨bb, id, v, hid, hv, stems_emitInst (Module.node?_eq hv) hpart hi⟩

end

def assembly? (p : Program) : Option (Module × List Line) :=
  match p.lower with
  | .error _ => none
  | .ok m => (emit .rv32 m).toOption.map (m, ·)

theorem of_assembly? {p : Program} {m : Module} {ls : List Line} (h : assembly? p = some (m, ls)) :
    p.lower = .ok m ∧ emit .rv32 m = .ok ls := by
  rw [assembly?] at h
  split at h
  · cases h
  · rename_i m' hm
    cases hls : emit .rv32 m' with
    | error e => rw [hls] at h; cases h
    | ok ls' =>
      rw [hls] at h
      cases h
      exact ⟨hm, hls⟩

end Sysy.Assembly
