import Sysy.Proofs.Assembly.Frames
import Sysy.Proofs.Lowering.Arguments

/-!
Arguments on the machine. The code at the label of a function opens its frame and moves each
argument, from its register or from the frame of the caller, into its slot. Until all of them are
there, no instruction writes a register of an argument, the return address, or memory outside of the
new frame.
-/

namespace Sysy.Assembly
open Ir Lowering

variable {b : Board} {img : Image} {c c₁ c' : Core} {m : Module} {f : Nat} {fn : Func} {fr : Frame}

/-! What code writes. -/

/-- The registers that an instruction writes itself, whatever a function that it calls does. -/
def Instr.writes : Instr → List Reg
  | .li rd _ | .la rd _ | .mv rd _ | .lw rd _ _ | .addi rd _ _ | .alu _ rd _ _ | .seqz rd _ | .snez
      rd _ => [rd]
  | .call _ => [.ra]
  | .sw .. | .j _ | .bnez .. | .ret => []

def Instr.isStore : Instr → Bool
  | .sw .. => true
  | _ => false

theorem exec_keeps {i : Instr} (h : exec b img c i = some c') : c.Keeps i.writes c' := by
  cases i with
  | li rd v | mv rd rs | alu op rd rs₁ rs₂ | seqz rd rs | snez rd rs =>
    cases h
    exact .set (by simp [Instr.writes]) _
  | la rd s | lw rd o base =>
    obtain ⟨a, -, rfl⟩ := Option.map_eq_some_iff.mp h
    exact .set (by simp [Instr.writes]) _
  | sw rs o base =>
    obtain ⟨a, -, rfl⟩ := Option.map_eq_some_iff.mp h
    exact .write _ _ _
  | addi rd rs v =>
    rw [exec] at h
    split at h
    · cases h
      exact .set (by simp [Instr.writes]) _
    · cases h
  | j | bnez | call | ret => cases h

theorem mem_of_exec {i : Instr} (h : exec b img c i = some c') (hi : i.isStore = false) :
    c'.mem = c.mem := by
  cases i with
  | li rd v | mv rd rs | alu op rd rs₁ rs₂ | seqz rd rs | snez rd rs =>
    cases h
    rfl
  | la rd s | lw rd o base =>
    obtain ⟨a, -, rfl⟩ := Option.map_eq_some_iff.mp h
    rfl
  | sw => cases hi
  | addi rd rs v =>
    rw [exec] at h
    split at h
    · cases h
      rfl
    · cases h
  | j | bnez | call | ret => cases h

theorem execAll_keeps {rs : List Reg} {code : List Instr} (hcode : ∀ i ∈ code, i.writes ⊆ rs) :
    ∀ {c c' : Core}, execAll b img code c = some c' → c.Keeps rs c' := by
  induction code with
  | nil =>
    intro c c' h
    cases h
    exact .refl _ _
  | cons i is ih =>
    intro c c' h
    obtain ⟨c₁, hi, his⟩ := Option.bind_eq_some_iff.mp h
    obtain ⟨hhead, htail⟩ := List.forall_mem_cons.mp hcode
    exact ((exec_keeps hi).mono hhead).trans (ih htail his)

theorem mem_of_execAll {code : List Instr} (hcode : ∀ i ∈ code, i.isStore = false) :
    ∀ {c c' : Core}, execAll b img code c = some c' → c'.mem = c.mem := by
  induction code with
  | nil =>
    intro c c' h
    cases h
    rfl
  | cons i is ih =>
    intro c c' h
    obtain ⟨c₁, hi, his⟩ := Option.bind_eq_some_iff.mp h
    obtain ⟨hhead, htail⟩ := List.forall_mem_cons.mp hcode
    exact (ih htail his).trans (mem_of_exec hi hhead)

structure Confined (b : Board) (img : Image) (lo hi : Int) (code : List Instr)
    (c c' : Core) : Prop where
  run : execAll b img code c = some c'
  mem : ∀ before, before <+: code → ∀ c₁, execAll b img before c = some c₁ → ∀ x, x < lo ∨ hi ≤ x →
    c₁.mem x = c.mem x

namespace Confined
variable {lo hi : Int} {code code₁ code₂ first : List Instr} {i : Instr}

theorem quiet (hrun : execAll b img code c = some c') (hcode : ∀ i ∈ code, i.isStore = false) :
    Confined b img lo hi code c c' where
  run := hrun
  mem before hbefore c₁ h₁ x _ :=
    by rw [mem_of_execAll (fun i hi => hcode i (hbefore.subset hi)) h₁]

theorem last (hrun : execAll b img (first ++ [i]) c = some c')
    (hfirst : ∀ j ∈ first, j.isStore = false) (hmem : ∀ x, x < lo ∨ hi ≤ x → c'.mem x = c.mem x) :
    Confined b img lo hi (first ++ [i]) c c' where
  run := hrun
  mem before hbefore c₁ h₁ x hx := by
    rcases List.prefix_concat_iff.mp hbefore with rfl | hbefore
    · obtain rfl := Option.some.inj (hrun.symm.trans h₁)
      exact hmem x hx
    · rw [mem_of_execAll (fun j hj => hfirst j (hbefore.subset hj)) h₁]

theorem trans (h₁ : Confined b img lo hi code₁ c c₁) (h₂ : Confined b img lo hi code₂ c₁ c') :
    Confined b img lo hi (code₁ ++ code₂) c c' where
  run := execAll_trans h₁.run h₂.run
  mem before hbefore c₂ hrun x hx := by
    -- what has been run is a part of the first piece, or all of it and a part of the second one
    rcases List.prefix_or_prefix_of_prefix hbefore (List.prefix_append code₁ code₂) with hbefore
      | ⟨rest, rfl⟩
    · exact h₁.mem before hbefore c₂ hrun x hx
    · have hrest : rest <+: code₂ := (List.prefix_append_right_inj code₁).mp hbefore
      rw [execAll_append, h₁.run] at hrun
      exact (h₂.mem rest hrest c₂ hrun x hx).trans (h₁.mem code₁ List.prefix_rfl c₁ h₁.run x hx)

theorem exists_prefix (h : Confined b img lo hi code c c') {before : List Instr}
    (hbefore : before <+: code) :
    ∃ c₁, execAll b img before c = some c₁ := by
  obtain ⟨rest, rfl⟩ := hbefore
  have hrun := h.run
  rw [execAll_append] at hrun
  obtain ⟨c₁, h₁, -⟩ := Option.bind_eq_some_iff.mp hrun
  exact ⟨c₁, h₁⟩

end Confined

/-! Pieces of code. -/

theorem of_mem_spAddr {tmp : Reg} {off : Int} {i : Instr} (h : i ∈ (spAddr tmp off).1) :
    i.isStore = false ∧ i.writes ⊆ [tmp] := by
  rw [spAddr] at h
  split at h
  · cases h
  · simp only [List.mem_cons, List.not_mem_nil, or_false] at h
    rcases h with rfl | rfl <;> simp [Instr.isStore, Instr.writes]

theorem of_mem_loadSp {rd tmp : Reg} {off : Int} {i : Instr} (h : i ∈ loadSp rd tmp off) :
    i.isStore = false ∧ i.writes ⊆ [rd, tmp] := by
  rcases List.mem_append.mp h with h | h
  · obtain ⟨hstore, hwrites⟩ := of_mem_spAddr h
    exact ⟨hstore, List.Subset.trans hwrites (by simp)⟩
  · obtain rfl := List.mem_singleton.mp h
    simp [Instr.isStore, Instr.writes]

theorem writes_storeSp {rs tmp : Reg} {off : Int} {i : Instr} (h : i ∈ storeSp rs tmp off) :
    i.writes ⊆ [tmp] := by
  rcases List.mem_append.mp h with h | h
  · exact (of_mem_spAddr h).2
  · obtain rfl := List.mem_singleton.mp h
    simp [Instr.writes]

theorem of_mem_addSp {delta : Int} {i : Instr} (h : i ∈ addSp delta) : i.isStore = false ∧
    i.writes ⊆ [.sp, .t0] := by
  rw [addSp] at h
  split at h <;> simp only [List.mem_cons, List.not_mem_nil, or_false] at h
  · simp [h, Instr.isStore, Instr.writes]
  · rcases h with rfl | rfl <;> simp [Instr.isStore, Instr.writes]

theorem writes_prologue {i : Instr} (h : i ∈ prologue fr) : i.writes ⊆ [.sp, .t0] := by
  rw [prologue] at h
  split at h
  · cases h
  · rcases List.mem_append.mp h with h | h
    · exact (of_mem_addSp h).2
    · split at h
      · exact List.Subset.trans (writes_storeSp h) (by simp)
      · cases h

/-- A frame is opened without a change to memory outside of it. -/
theorem confined_prologue (img : Image) (hfits : Frame.Fits m fn fr) {sp : Int} (htop : sp ≤ b.top)
    (hlow : b.base ≤ sp - fr.size) (h16 : 16 ∣ sp) (hsp : c.regs .sp = BitVec.ofInt 32 sp) :
    ∃ c', Confined b img (sp - fr.size) sp (prologue fr) c c' ∧ c'.regs .sp = BitVec.ofInt 32
      (sp - fr.size) := by
  obtain ⟨c', hrun, hsp', -, hmem⟩ := prologue_spec img hfits htop hlow h16 hsp
  refine ⟨c', ?_, hsp'⟩
  cases hcall : fr.hasCall with
  | false =>
    refine .quiet hrun fun i hi => ?_
    rw [prologue] at hi
    split at hi
    · cases hi
    · rw [hcall, if_neg (by simp), List.append_nil] at hi
      exact (of_mem_addSp hi).1
  | true =>
    have hbounds := (Frame.Spans.link hcall).bounds hfits
    have hcode : prologue fr = addSp (-fr.size) ++ (spAddr .t0 fr.raOffset).1 ++
        [.sw .ra (spAddr .t0 fr.raOffset).2.1 (spAddr .t0 fr.raOffset).2.2] := by
      rw [prologue, if_neg (by omega), if_pos hcall, List.append_assoc]
      rfl
    rw [hcode] at hrun ⊢
    refine .last hrun (fun i hi => ?_) fun x hx => ?_
    · rcases List.mem_append.mp hi with hi | hi
      · exact (of_mem_addSp hi).1
      · exact (of_mem_spAddr hi).1
    · rw [hmem, if_pos hcall, Function.update_of_ne (by omega)]

/-! The code that saves arguments. -/

def takeArg (fr : Frame) (i : Nat) : List Instr :=
  if i < 8 then [.mv .t0 (.a i)] else loadSp .t0 .t0 (Frame.incomingOffset .rv32 fr i)

/-- Puts the arguments from number `i` on into their slots. -/
def saveArgs (fr : Frame) : (i : Nat) → List Slot → List Instr
  | _, [] => []
  | i, s :: ss => takeArg fr i ++ storeSp .t0 .t1 s.offset ++ saveArgs fr (i + 1) ss

theorem of_mem_takeArg {i : Nat} {x : Instr} (h : x ∈ takeArg fr i) : x.isStore = false ∧
    x.writes ⊆ [.t0] := by
  rw [takeArg] at h
  split at h
  · simp [List.mem_singleton.mp h, Instr.isStore, Instr.writes]
  · obtain ⟨hstore, hwrites⟩ := of_mem_loadSp h
    exact ⟨hstore, List.Subset.trans hwrites (by simp)⟩

theorem writes_saveArgs (ss : List Slot) : ∀ {i : Nat} {x : Instr}, x ∈ saveArgs fr i ss →
    x.writes ⊆ [.t0, .t1] := by
  induction ss with
  | nil =>
    intro i x h
    cases h
  | cons s ss ih =>
    intro i x h
    rw [saveArgs, List.append_assoc] at h
    rcases List.mem_append.mp h with h | h
    · exact List.Subset.trans (of_mem_takeArg h).2 (by simp)
    · rcases List.mem_append.mp h with h | h
      · exact List.Subset.trans (writes_storeSp h) (by simp)
      · exact ih h

def incoming (c : Core) (sp : Int) (i : Nat) : Word :=
  if i < 8 then c.regs (.a i) else c.mem (sp + Frame.outgoingOffset .rv32 i)

theorem incoming_congr {sp : Int} {i : Nat} (hregs : c'.regs (.a i) = c.regs (.a i))
    (hmem : ∀ x, sp ≤ x → c'.mem x = c.mem x) : incoming c' sp i = incoming c sp i := by
  rw [incoming, incoming, hregs]
  split
  · rfl
  · refine hmem _ ?_
    have hoffset : Frame.outgoingOffset .rv32 i = (i - 8) * 4 := rfl
    omega

structure Opened (b : Board) (fr : Frame) (sp : Int) (c : Core) : Prop where
  low : b.base ≤ sp - fr.size
  top : sp ≤ b.top
  aligned : 16 ∣ sp
  pointer : c.regs .sp = BitVec.ofInt 32 (sp - fr.size)

namespace Opened
variable {sp : Int} {id : ValueId} {s : Slot}

theorem points (h : Opened b fr sp c) (hfits : Frame.Fits m fn fr) :
    PointsTo b (c.regs .sp) (sp - fr.size) := by
  have hbase := b.base_nonneg
  have hlow := h.low
  have htop := h.top
  have hroom := hfits.top
  have hout := hfits.outArgs
  have hlocals := hfits.locals
  exact ⟨h.pointer, by omega, by split at hroom <;> omega⟩

theorem has_slot (h : Opened b fr sp c) (hfits : Frame.Fits m fn fr) (hs : fr.slot? id = some s) :
    b.Has (sp - fr.size + s.offset) ∧ sp - fr.size ≤ sp - fr.size + s.offset ∧
    sp - fr.size + s.offset < sp := by
  have hlow := h.low
  have htop := h.top
  have haligned := h.aligned
  have h16 := hfits.aligned
  obtain ⟨h₁, h₂, h₃⟩ := (Frame.Spans.slot hs).bounds hfits
  obtain ⟨-, -, -, -, v, -, hsize, hpos, hwords⟩ := hfits.slot id s hs
  exact ⟨⟨by omega, by omega, by omega⟩, by omega, by omega⟩

theorem keeps {rs : List Reg} (h : Opened b fr sp c) (hkeeps : c.Keeps rs c') (hsp : .sp ∉ rs) :
    Opened b fr sp c' :=
  { h with pointer := by rw [hkeeps .sp hsp, h.pointer] }

theorem take (img : Image) (h : Opened b fr sp c) (hfits : Frame.Fits m fn fr) {i : Nat}
    (hroom : 8 ≤ i → sp + Frame.outgoingOffset .rv32 i + 4 ≤ b.top) :
    ∃ c', execAll b img (takeArg fr i) c = some c' ∧ c'.regs .t0 = incoming c sp i := by
  rw [takeArg, incoming]
  split
  · exact ⟨c.set .t0 (c.regs (.a i)), rfl, Core.regs_set_self ..⟩
  · have hlow := h.low
    have h16 := h.aligned
    have hsize := hfits.top
    have hout := hfits.outArgs
    have hlocals := hfits.locals
    have haddr : sp - fr.size + Frame.incomingOffset .rv32 fr i = sp + Frame.outgoingOffset
      .rv32 i := by
      rw [Frame.incomingOffset, Frame.outgoingOffset]
      ring
    have hoffset : Frame.outgoingOffset .rv32 i = (i - 8) * 4 := rfl
    have hhas : b.Has (sp - fr.size + Frame.incomingOffset .rv32 fr i) :=
      haddr ▸ ⟨by split at hsize <;> omega, hroom (by omega), by omega⟩
    obtain ⟨c', hrun, -, -, hval⟩ :=
      loadSp_spec img (h.points hfits) hhas .t0 (show Reg.t0 ≠ .sp by simp)
    exact ⟨c', hrun, by rw [hval, haddr]⟩

theorem save (img : Image) (h : Opened b fr sp c) (hfits : Frame.Fits m fn fr)
    (hs : fr.slot? id = some s) {i : Nat}
    (hroom : 8 ≤ i → sp + Frame.outgoingOffset .rv32 i + 4 ≤ b.top) :
    ∃ c', Confined b img (sp - fr.size) sp (takeArg fr i ++ storeSp .t0 .t1 s.offset) c c' ∧
    c.Keeps [.t0, .t1] c' ∧
      c'.mem = Function.update c.mem (sp - fr.size + s.offset) (incoming c sp i) := by
  obtain ⟨c₁, htake, hval⟩ := h.take img hfits hroom
  have hquiet (x : Instr) (hx : x ∈ takeArg fr i) : x.isStore = false := (of_mem_takeArg hx).1
  have hkeeps : c.Keeps [.t0] c₁ := execAll_keeps (fun x hx => (of_mem_takeArg hx).2) htake
  have hmem : c₁.mem = c.mem := mem_of_execAll hquiet htake
  obtain ⟨hhas, hlow, hhigh⟩ := h.has_slot hfits hs
  obtain ⟨c', hstore, hmem', hkeeps'⟩ :=
    storeSp_spec img ((h.keeps hkeeps (by simp)).points hfits) hhas
    (show Reg.t1 ≠ .sp by simp) (show Reg.t0 ≠ .t1 by simp)
  rw [hval, hmem] at hmem'
  refine ⟨c', ?_, (hkeeps.mono (by simp)).trans (hkeeps'.mono (by simp)), hmem'⟩
  have hcode : takeArg fr i ++ storeSp .t0 .t1 s.offset = takeArg fr i ++ (spAddr .t1 s.offset).1 ++
      [.sw .t0 (spAddr .t1 s.offset).2.1 (spAddr .t1 s.offset).2.2] := by
    rw [List.append_assoc]
    rfl
  rw [hcode]
  refine .last (hcode ▸ execAll_trans htake hstore) (fun x hx => ?_) fun x hx => ?_
  · rcases List.mem_append.mp hx with hx | hx
    · exact hquiet x hx
    · exact (of_mem_spAddr hx).1
  · rw [hmem', Function.update_of_ne (by omega)]

theorem saves (img : Image) (hfits : Frame.Fits m fn fr) (ss : List Slot) :
    ∀ {i : Nat} {c : Core}, Opened b fr sp c →
    (∀ s ∈ ss, ∃ id, fr.slot? id = some s) → ss.Pairwise (fun s s' => s.offset ≠ s'.offset) →
    (∀ j, 8 ≤ j → j < i + ss.length → sp + Frame.outgoingOffset .rv32 j + 4 ≤ b.top) →
    ∃ c', Confined b img (sp - fr.size) sp (saveArgs fr i ss) c c' ∧
      (∀ k s, ss[k]? = some s → c'.mem (sp - fr.size + s.offset) = incoming c sp (i + k)) ∧
      ∀ x, (∀ s ∈ ss, x ≠ sp - fr.size + s.offset) → c'.mem x = c.mem x := by
  induction ss with
  | nil =>
    intro i c _ _ _ _
    exact ⟨c, .quiet rfl (List.forall_mem_nil _), fun k s h => (by cases h), fun _ _ => rfl⟩
  | cons s ss ih =>
    intro i c h hslots happart hroom
    obtain ⟨⟨id, hs⟩, hslots⟩ := List.forall_mem_cons.mp hslots
    obtain ⟨hne, happart⟩ := List.pairwise_cons.mp happart
    rw [List.length_cons] at hroom
    obtain ⟨c₁, hconfined₁, hkeeps₁, hmem₁⟩ := h.save img hfits hs fun hi => hroom i hi (by omega)
    obtain ⟨c', hconfined, hsaved, hmem⟩ :=
      ih (i := i + 1) (h.keeps hkeeps₁ (by simp)) hslots happart
      fun j hj hlt => hroom j hj (by omega)
    have habove (x : Int) (hx : sp ≤ x) : c₁.mem x = c.mem x :=
      hconfined₁.mem _ List.prefix_rfl c₁ hconfined₁.run x (.inr hx)
    refine ⟨c', hconfined₁.trans hconfined, fun k s' hk => ?_, fun x hx => ?_⟩
    · cases k with
      | zero =>
        -- the slots are apart, so the first argument is still in its slot at the end
        obtain rfl := Option.some.inj hk
        rw [hmem _ fun s' hs' heq => hne s' hs' (by omega), hmem₁, Function.update_self]
        rfl
      | succ k =>
        rw [hsaved k s' hk, incoming_congr (hkeeps₁ (.a (i + 1 + k)) (by simp)) habove]
        congr 1
        omega
    · obtain ⟨hhead, htail⟩ := List.forall_mem_cons.mp hx
      rw [hmem x htail, hmem₁, Function.update_of_ne hhead]

end Opened

/-! The code that is emitted for the entry. -/

section Emission
variable {env : Env}

theorem emitInsts_append {xs ys : List ValueId} {as bs : List Instr}
    (hxs : emitInsts env xs = .ok as) (hys : emitInsts env ys = .ok bs) :
    emitInsts env (xs ++ ys) = .ok (as ++ bs) := by
  induction xs generalizing as with
  | nil =>
    cases hxs
    exact hys
  | cons x xs ih =>
    obtain ⟨as₁, as₂, hx, htail, rfl⟩ := emitInsts_cons hxs
    simp only [List.cons_append, emitInsts, bind, Except.bind, hx, ih htail, List.append_assoc]
    rfl

theorem emitInsts_single {x : ValueId} {code : List Instr} (h : emitInst env x = .ok code) :
    emitInsts env [x] = .ok code := by
  simp only [emitInsts, bind, Except.bind, h]
  exact congrArg Except.ok (List.append_nil code)

theorem emitInsts_locals {xs : List ValueId} (h : ∀ x ∈ xs, env.module.node? x = some .alloc) :
    emitInsts env xs = .ok [] := by
  induction xs with
  | nil => rfl
  | cons x xs ih =>
    obtain ⟨hx, hxs⟩ := List.forall_mem_cons.mp h
    simp only [emitInsts, bind, Except.bind, emitInst, hx, ih hxs]
    rfl

theorem emitInst_copy {arg slot store i : Nat} {w : Value} {s : Slot} (hw : m.value? arg = some w)
    (hnode : w.node = .arg i) (hslot : m.node? slot = some .alloc) (hs : fr.slot? slot = some s)
    (hstore : m.node? store = some (.store arg slot)) :
    emitInst ⟨.rv32, m, fr⟩ store = .ok (takeArg fr i ++ storeSp .t0 .t1 s.offset) := by
  have hload : loadValue ⟨.rv32, m, fr⟩ .t0 arg = .ok (takeArg fr i) := by
    rw [takeArg]
    by_cases hi : i < 8
    · have hreg : (i : Int) < Machine.rv32.argRegs := by simpa [Machine.rv32] using hi
      simp [loadValue, hw, hnode, hi, hreg]
    · have hreg : ¬(i : Int) < Machine.rv32.argRegs := by simpa [Machine.rv32] using hi
      simp [loadValue, hw, hnode, hi, hreg]
  simp only [emitInst, hstore, emitStore, hload, isAlloc, hslot, allocSlot, hs, bind, Except.bind]
  rfl

theorem emitInsts_copies {args : List ValueId} {tys : List Ty} {copies : List (ValueId × ValueId)}
    {ss : List Slot} :
    ∀ {i : Nat}, List.Forall₂ (IsArg m fn.id) args (tys.zipIdx i) →
    List.Forall₂ (Saved m fn) args copies →
    List.Forall₂ (fun c s => fr.slot? c.1 = some s) copies ss →
    emitInsts ⟨.rv32, m, fr⟩ (copies.flatMap fun c => [c.1, c.2]) = .ok (saveArgs fr i ss) := by
  induction args generalizing tys copies ss with
  | nil =>
    intro i hargs hcopies hslots
    cases hcopies
    cases hslots
    rfl
  | cons arg args ih =>
    intro i hargs hcopies hslots
    cases tys with
    | nil => cases hargs
    | cons ty tys =>
      obtain _ | ⟨⟨w, hw, hnode, -⟩, hargs⟩ := hargs
      obtain _ | ⟨hcopy, hcopies⟩ := hcopies
      obtain _ | ⟨hs, hslots⟩ := hslots
      obtain ⟨name, halloc⟩ := hcopy.slot
      have hslot : m.node? _ = some .alloc := Module.node?_eq halloc
      have hstore :=
        emitInsts_single (emitInst_copy hw hnode hslot hs (Module.node?_eq hcopy.store))
      have hlocal : emitInsts ⟨.rv32, m, fr⟩ [_] = .ok [] :=
        emitInsts_single (by rw [emitInst, hslot])
      have hpair := emitInsts_append hlocal hstore
      exact emitInsts_append hpair (ih hargs hcopies hslots)

end Emission

/-- The code that opens a frame and saves arguments, run in the state `c` where the function is
entered with the stack pointer `sp`. -/
structure Secures (b : Board) (img : Image) (fr : Frame) (sp : Int) (code : List Instr)
    (ss : List Slot) (c : Core) : Prop where
  /-- However far it is run, registers with arguments, the return address and memory outside of the
  frame are as they were. -/
  kept : ∀ before, before <+: code → ∃ c', execAll b img before c = some c' ∧
    (∀ i, c'.regs (.a i) = c.regs (.a i)) ∧
    c'.regs .ra = c.regs .ra ∧ ∀ x, x < sp - fr.size ∨ sp ≤ x → c'.mem x = c.mem x
  /-- At its end each argument is in its slot. -/
  saved : ∃ c', execAll b img code c = some c' ∧
    ∀ i s, ss[i]? = some s → c'.mem (sp - fr.size + s.offset) = incoming c sp i

theorem secures (hfits : Frame.Fits m fn fr) {ss : List Slot}
    (hslots : ∀ s ∈ ss, ∃ id, fr.slot? id = some s)
    (happart : ss.Pairwise fun s s' => s.offset ≠ s'.offset) {sp : Int}
    (hsp : c.regs .sp = BitVec.ofInt 32 sp) (h16 : 16 ∣ sp) (htop : sp ≤ b.top)
    (hlow : b.base ≤ sp - fr.size)
    (hroom : ∀ i : Nat, 8 ≤ i → i < ss.length → sp + Frame.outgoingOffset .rv32 i + 4 ≤ b.top)
    (hwrites : ∀ i ∈ prologue fr ++ saveArgs fr 0 ss, i.writes ⊆ [.sp, .t0, .t1]) :
    Secures b img fr sp (prologue fr ++ saveArgs fr 0 ss) ss c := by
  obtain ⟨c₁, hopens, hsp₁⟩ := confined_prologue img hfits htop hlow h16 hsp
  have hopened : Opened b fr sp c₁ := ⟨hlow, htop, h16, hsp₁⟩
  obtain ⟨c', hsaves, hsaved, -⟩ :=
    hopened.saves img hfits ss (i := 0) hslots happart fun j hj hlt => hroom j hj (by omega)
  have hconfined := hopens.trans hsaves
  have hkeeps {before : List Instr} {c₂ : Core} (hbefore : before <+: prologue fr ++
    saveArgs fr 0 ss)
      (hrun : execAll b img before c = some c₂) : c.Keeps [.sp, .t0, .t1] c₂ :=
    execAll_keeps (fun i hi => hwrites i (hbefore.subset hi)) hrun
  refine ⟨fun before hbefore => ?_, c', hconfined.run, fun i s hs => ?_⟩
  · obtain ⟨c₂, hrun⟩ := hconfined.exists_prefix hbefore
    have hregs := hkeeps hbefore hrun
    exact ⟨c₂, hrun, fun i => hregs (.a i) (by simp), hregs .ra (by simp),
      hconfined.mem before hbefore c₂ hrun⟩
  · have hprefix : prologue fr <+: prologue fr ++ saveArgs fr 0 ss := List.prefix_append ..
    rw [hsaved i s hs, Nat.zero_add]
    exact incoming_congr (hkeeps hprefix hopens.run (.a i) (by simp))
      fun x hx => hconfined.mem _ hprefix c₁ hopens.run x (.inr hx)

theorem pairwise_offsets (hfits : Frame.Fits m fn fr) {ids : List ValueId} {ss : List Slot}
    (hids : ids.Nodup) (hslots : List.Forall₂ (fun id s => fr.slot? id = some s) ids ss) :
    ss.Pairwise fun s s' => s.offset ≠ s'.offset := by
  induction hslots with
  | nil => exact .nil
  | @cons id s ids ss hs hslots ih =>
    obtain ⟨hnot, hids⟩ := List.nodup_cons.mp hids
    refine List.pairwise_cons.mpr ⟨fun s' hs' heq => ?_, ih hids⟩
    obtain ⟨i, hi, rfl⟩ := List.getElem_of_mem hs'
    have hi' : i < ids.length := hslots.length_eq.symm ▸ hi
    have hother := hslots.get hi' hi
    have hne : id ≠ ids[i] := fun h => hnot (h ▸ List.getElem_mem hi')
    obtain ⟨-, -, -, -, v, -, hsize, hpos, -⟩ := hfits.slot _ _ hs
    obtain ⟨-, -, -, -, v', -, hsize', hpos', -⟩ := hfits.slot _ _ hother
    have := hfits.apart _ _ _ _ hs hother hne
    simp only [List.get_eq_getElem] at this hsize'
    omega

theorem exists_slots (hfin : Finished m f fn) (hl : Linked m) (hfits : Frame.Fits m fn fr)
    {copies : List (ValueId × ValueId)} (h : Saves m fn copies) :
    ∃ ss, List.Forall₂ (fun c s => fr.slot? c.1 = some s) copies ss := by
  have hslot (c : ValueId × ValueId) (hc : c ∈ copies) : ∃ s, fr.slot? c.1 = some s := by
    obtain ⟨before, after, last, target, hentry, -⟩ := h.entry
    have hcode : c.1 ∈ fn.code fn.entry := by
      have hpair : c.1 ∈ copies.flatMap fun c => [c.1, c.2] := List.mem_flatMap.mpr ⟨c, hc, by simp⟩
      rw [hentry]
      simp only [List.mem_append]
      exact .inl (.inl (.inr hpair))
    obtain ⟨i, hi, rfl⟩ := List.getElem_of_mem hc
    have hsaved := h.saved.get (h.saved.length_eq.symm ▸ hi) hi
    obtain ⟨name, hlocal⟩ := hsaved.slot
    have hne : copies[i].1 ≠ 0 := Nat.ne_of_gt (Module.bounds_of_value? hlocal).1
    refine hfits.total _ ((Frame.mem_insts hfin).mpr ⟨_, hcode⟩) ⟨copies[i].2,
      (hl.uses _ _).mpr ⟨_, hsaved.store, ?_⟩⟩
    simp [Node.operands, hne]
  refine ⟨copies.map fun c => (fr.slot? c.1).getD ⟨0, 0, false⟩,
    List.forall₂_map_right_iff.mpr (List.forall₂_same.mpr fun c hc => ?_)⟩
  obtain ⟨s, hs⟩ := hslot c hc
  rw [hs, Option.getD_some]

theorem emitFunc_eq (hfin : Finished m f fn) (hl : Linked m) {copies : List (ValueId × ValueId)}
    (h : Saves m fn copies) {ss : List Slot}
    (hslots : List.Forall₂ (fun c s => fr.slot? c.1 = some s) copies ss)
    (hfr : Frame.ofFunc .rv32 m fn = .ok fr) :
    ∃ target rest, emitFunc .rv32 m fn = .ok ([.textSection, .globl fn.name, .label fn.name] ++
      (prologue fr).map .instr ++
      (.label (fr.label fn.entry) :: (saveArgs fr 0 ss).map .instr ++ .instr
        (.j target) :: rest)) := by
  obtain ⟨before, after, last, target, hentry, hlocals, hlast⟩ := h.entry
  have hlayout : ∃ bbs, fn.layout.toList = fn.entry :: bbs := by
    obtain ⟨bbs, hbbs⟩ := List.head?_eq_some_iff.mp hfin.first
    exact ⟨bbs, hfin.entry ▸ hbbs⟩
  obtain ⟨bbs, hbbs⟩ := hlayout
  obtain ⟨rest, hrest⟩ := (Framed.mk hfin hl (fits_of_ofFunc hfin hfr)).emitBlocks_ok bbs
  have hcopies := emitInsts_copies h.args h.saved hslots
  have hbefore : emitInsts ⟨.rv32, m, fr⟩ before = .ok [] :=
    emitInsts_locals fun x hx => hlocals x (List.mem_append_left after hx)
  have hafter : emitInsts ⟨.rv32, m, fr⟩ after = .ok [] :=
    emitInsts_locals fun x hx => hlocals x (List.mem_append_right before hx)
  have hjump : emitInsts ⟨.rv32, m, fr⟩ [last] = .ok [.j (fr.label target)] :=
    emitInsts_single (by rw [emitInst, hlast])
  have hcode := emitInsts_append (emitInsts_append (emitInsts_append hbefore hcopies) hafter) hjump
  rw [← hentry, List.nil_append, List.append_nil] at hcode
  refine ⟨fr.label target, rest, ?_⟩
  have hblock : emitInsts ⟨.rv32, m, fr⟩ (((fn.block? fn.entry).map (·.insts.toList)).getD []) =
      .ok (saveArgs fr 0 ss ++ [.j (fr.label target)]) := hcode
  simp only [emitFunc, hfr, hbbs, emitBlocks, hblock, hrest, bind, Except.bind, pure, Except.pure,
    List.map_append,
    List.map_cons, List.map_nil, List.cons_append, List.append_assoc, List.nil_append]

/-- Incoming arguments are saved before anything can overwrite them: the code that copies them comes
first, and writes the stack pointer and two scratch registers only. -/
theorem arguments_saved {p : Program} (hp : p.lower = .ok m) (hf : m.func? f = some fn)
    (hcode : fn.isDeclared = false) :
    ∃ copies, Saves m fn copies ∧ ∀ fr, Frame.ofFunc .rv32 m fn = .ok fr → ∃ ss target rest,
      List.Forall₂ (fun c s => fr.slot? c.1 = some s) copies ss ∧
      emitFunc .rv32 m fn = .ok ([.textSection, .globl fn.name, .label fn.name] ++
        (prologue fr).map .instr ++
        (.label (fr.label fn.entry) :: (saveArgs fr 0 ss).map .instr ++
          .instr (.j target) :: rest)) ∧
      (∀ i ∈ prologue fr ++ saveArgs fr 0 ss, i.writes ⊆ [.sp, .t0, .t1]) ∧
      ∀ (b : Board) (img : Image) (c : Core) (sp : Int), c.regs .sp = BitVec.ofInt 32 sp → 16 ∣ sp →
        sp ≤ b.top → b.base ≤ sp - fr.size →
        (∀ i : Nat, 8 ≤ i → i < fn.args.length → sp + Frame.outgoingOffset .rv32 i + 4 ≤ b.top) →
        Secures b img fr sp (prologue fr ++ saveArgs fr 0 ss) ss c := by
  obtain ⟨copies, hsaves⟩ := exists_saves hp hf hcode
  refine ⟨copies, hsaves, fun fr hfr => ?_⟩
  obtain ⟨scope, hready⟩ := ready_of_lower hp
  obtain ⟨-, -, ⟨hnone, -⟩ | hfin⟩ := hready.sound.funcs _ fn hf
  · rw [Func.isDeclared, hnone] at hcode
    cases hcode
  have hfits := fits_of_ofFunc hfin hfr
  obtain ⟨ss, hslots⟩ := exists_slots hfin hready.sound.linked hfits hsaves
  obtain ⟨target, rest, hemit⟩ := emitFunc_eq hfin hready.sound.linked hsaves hslots hfr
  have hwrites : ∀ i ∈ prologue fr ++ saveArgs fr 0 ss, i.writes ⊆ [.sp, .t0, .t1] := by
    intro i hi
    rcases List.mem_append.mp hi with hi | hi
    · exact List.Subset.trans (writes_prologue hi) (by simp)
    · exact List.Subset.trans (writes_saveArgs ss hi) (by simp)
  refine ⟨ss, target, rest, hslots, hemit, hwrites, fun b img c sp hsp h16 htop hlow hroom => ?_⟩
  have hlength : ss.length = fn.args.length := (hsaves.saved.length_eq.trans hslots.length_eq).symm
  refine secures hfits ?_ ?_ hsp h16 htop hlow (fun i hi hlt => hroom i hi (hlength ▸ hlt)) hwrites
  · intro s hs
    obtain ⟨i, hi, rfl⟩ := List.getElem_of_mem hs
    exact ⟨_, hslots.get (hslots.length_eq.symm ▸ hi) hi⟩
  · exact pairwise_offsets hfits hsaves.own (List.forall₂_map_left_iff.mpr hslots)

/-- A machine that enters a function with its stack at `0x8000`. -/
def entrySample : Core := ⟨fun r => if r = .sp then 0x8000 else 1, fun _ => 2⟩

theorem arguments_saved_wideSample :
    ∃ m f fn fr copies ss, wideSample.lower = .ok m ∧ m.func? f = some fn ∧
      fn.isDeclared = false ∧ fn.args.length = 10 ∧ Saves m fn copies ∧
      Frame.ofFunc .rv32 m fn = .ok fr ∧
      Secures .small {} fr 0x8000 (prologue fr ++ saveArgs fr 0 ss) ss entrySample := by
  have hsample : ((plansOf .rv32 wideSample).find? fun q => q.2.1.args.length = 10 ∧
    q.2.2.size ≤ 0x400).isSome = true := by
    decide +kernel
  obtain ⟨⟨m, fn, fr⟩, hfind⟩ := Option.isSome_iff_exists.mp hsample
  obtain ⟨hm, hfn, hfr⟩ := of_mem_plansOf (List.mem_of_find?_eq_some hfind)
  obtain ⟨hlength, hsize⟩ : fn.args.length = 10 ∧ fr.size ≤ 0x400 :=
    by simpa using List.find?_some hfind
  obtain ⟨f, hf⟩ := Module.exists_func?_of_mem hfn
  have hcode : fn.isDeclared = false := by
    by_contra hdecl
    rw [Frame.ofFunc, if_pos (by simpa using hdecl)] at hfr
    cases hfr
  obtain ⟨copies, hsaves, hframes⟩ := arguments_saved hm hf hcode
  obtain ⟨ss, target, rest, -, -, -, hruns⟩ := hframes fr hfr
  refine ⟨m, f, fn, fr, copies, ss, hm, hf, hcode, hlength, hsaves, hfr,
    hruns .small {} entrySample 0x8000 rfl ?_ ?_ ?_ ?_⟩
  · decide
  · decide
  · have hbase : Board.small.base = 0x100 := rfl
    omega
  · intro i hi hlt
    have htop : Board.small.top = 0x100000 := rfl
    have hoffset : Frame.outgoingOffset .rv32 i = (i - 8) * 4 := rfl
    omega

end Sysy.Assembly
