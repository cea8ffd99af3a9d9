import Sysy.Proofs.Assembly.Operands

/-!
What the code of each instruction does that stays in its block: it computes the result of the
instruction in scratch registers and leaves memory in agreement with the next state of the run.
-/

namespace Sysy.Assembly
open Ir Lowering

variable {b : Board} {m : Module} {img : Image} {next : Nat} {c : Core}

theorem Word.ofBool_beq_zero (p : Bool) : Word.ofBool (Word.ofBool p == 0) = Word.ofBool (!p) := by
  cases p <;> rfl

theorem arithCode_spec (img : Image) {op : Arith} {z : Word}
    (h : op.eval? (c.regs .t0) (c.regs .t1) = some z) : ∃ c',
    execAll b img (arithCode op) c = some c' ∧ c'.mem = c.mem ∧ c.Keeps [.t0] c' ∧
    c'.regs .t0 = z := by
  have hone (al : Alu) : execAll b img [.alu al .t0 .t0 .t1] c =
      some (c.set .t0 (al.eval (c.regs .t0) (c.regs .t1))) := rfl
  have htwo (al : Alu) (i : Instr) (hi : i = .seqz .t0 .t0 ∨ i = .snez .t0 .t0) : ∃ c',
      execAll b img [.alu al .t0 .t0 .t1, i] c = some c' ∧ c'.mem = c.mem ∧ c.Keeps [.t0] c' ∧
        (i = .seqz .t0 .t0 → c'.regs .t0 = Word.ofBool (al.eval (c.regs .t0) (c.regs .t1) == 0)) ∧
        (i = .snez .t0 .t0 →
          c'.regs .t0 = Word.ofBool (al.eval (c.regs .t0) (c.regs .t1) != 0)) := by
    rcases hi with rfl | rfl
    · refine ⟨_, rfl, rfl, (Core.Keeps.set (by simp) _).trans (.set (by simp) _),
        fun _ => ?_, by simp⟩
      simp only [Core.regs_set_self]
    · refine ⟨_, rfl, rfl, (Core.Keeps.set (by simp) _).trans (.set (by simp) _), by
        simp, fun _ => ?_⟩
      simp only [Core.regs_set_self]
  have hxor : (c.regs .t0 ^^^ c.regs .t1 == 0) = (c.regs .t0 == c.regs .t1) := by
    rw [Bool.eq_iff_iff, beq_iff_eq, beq_iff_eq]
    exact BitVec.xor_eq_zero_iff
  cases op with
  | add | sub | mul | div | mod | lt | gt =>
    obtain rfl := Option.some.inj h
    exact ⟨_, hone _, rfl, .set (by simp) _, Core.regs_set_self ..⟩
  | eq =>
    obtain rfl := Option.some.inj h
    obtain ⟨c', hrun, hmem, hkeeps, hval, -⟩ := htwo .xor (.seqz .t0 .t0) (.inl rfl)
    exact ⟨c', hrun, hmem, hkeeps, by rw [hval rfl, Alu.eval, hxor]⟩
  | ne =>
    obtain rfl := Option.some.inj h
    obtain ⟨c', hrun, hmem, hkeeps, -, hval⟩ := htwo .xor (.snez .t0 .t0) (.inr rfl)
    exact ⟨c', hrun, hmem, hkeeps, by rw [hval rfl, Alu.eval, bne, hxor, bne]⟩
  | ge =>
    obtain rfl := Option.some.inj h
    obtain ⟨c', hrun, hmem, hkeeps, hval, -⟩ := htwo .slt (.seqz .t0 .t0) (.inl rfl)
    exact ⟨c', hrun, hmem, hkeeps, by
      rw [hval rfl, Alu.eval, Word.ofBool_beq_zero, BitVec.sle_eq_not_slt]⟩
  | le =>
    obtain rfl := Option.some.inj h
    obtain ⟨c', hrun, hmem, hkeeps, hval, -⟩ := htwo .sgt (.seqz .t0 .t0) (.inl rfl)
    exact ⟨c', hrun, hmem, hkeeps, by
      rw [hval rfl, Alu.eval, Word.ofBool_beq_zero, BitVec.sle_eq_not_slt]⟩
  | unnamed => cases h

def moveCode (env : Env) (index : ValueId) (size : Int) : Emit :=
  match constOffset? env index size with
  | some off => .ok (if off = 0 then [] else [.addi .t0 .t0 off])
  | none => do
    let read ← loadValue env .t1 index
    return read ++ [.li .t2 size, .alu .mul .t1 .t1 .t2, .alu .add .t0 .t0 .t1]

theorem emitOffset_eq (env : Env) (id src index : ValueId) (size : Int) :
    emitOffset env id src index size = (do
      let base ← loadValue env .t0 src
      let move ← moveCode env index size
      return base ++ move ++ saveResult env id .t0 .t1) := by
  rw [emitOffset, moveCode]
  cases constOffset? env index size with
  | some => rfl
  | none => cases loadValue env .t1 index <;> rfl

def readCode (env : Env) (src : ValueId) : Emit :=
  if isAlloc env src then do return loadSp .t0 .t0 (← allocSlot env src).offset
  else do return (← loadValue env .t0 src) ++ [.lw .t0 0 .t0]

theorem emitLoad_eq (env : Env) (id src : ValueId) : emitLoad env id src = (do
    let read ← readCode env src
    return read ++ saveResult env id .t0 .t1) := by
  rw [emitLoad, readCode]
  split
  · cases allocSlot env src <;> rfl
  · cases loadValue env .t0 src <;> rfl

def writeCode (env : Env) (dest : ValueId) : Emit :=
  if isAlloc env dest then do return storeSp .t0 .t1 (← allocSlot env dest).offset
  else do return (← loadValue env .t1 dest) ++ [.sw .t0 0 .t1]

theorem emitStore_eq (env : Env) (val dest : ValueId) : emitStore env val dest = (do
    let read ← loadValue env .t0 val
    let write ← writeCode env dest
    return read ++ write) := by
  rw [emitStore, writeCode]
  cases loadValue env .t0 val with
  | error => rfl
  | ok read =>
    split
    · cases allocSlot env dest <;> rfl
    · cases loadValue env .t1 dest with
      | error => rfl
      | ok code => exact congrArg Except.ok (List.append_assoc ..)

theorem loadValue_ne_nil {fr : Frame} {rd : Reg} {x : ValueId} {code : List Instr}
    (h : loadValue ⟨.rv32, m, fr⟩ rd x = .ok code) : code ≠ [] := by
  have hload (rd tmp : Reg) (off : Int) : loadSp rd tmp off ≠ [] := by simp [loadSp]
  have haddr (rd : Reg) (off : Int) : addrSp rd off ≠ [] := by
    rw [addrSp]
    split <;> simp
  rw [loadValue] at h
  split at h
  · cases h
  · split at h
    · cases h
      simp
    · split at h <;> cases h
      · simp
      · exact hload _ _ _
    · cases h
      simp
    · split at h
      · cases h
      · cases h
        split
        · exact haddr _ _
        · exact hload _ _ _

section
variable {top : Activation} {outer : List Activation} {s : Store} {place : Region → Option Int}
  {links : List Word} {fn : Func} {fr : Frame} {id : ValueId} {u : Value}

def scratch : List Reg := [.t0, .t1, .t2]

structure Poised (b : Board) (m : Module) (img : Image) (top : Activation)
    (outer : List Activation) (s : Store)
    (place : Region → Option Int) (links : List Word) (fn : Func) (fr : Frame)
    (id : ValueId) (u : Value) (c : Core) : Prop where
  staged : Staged b m img ⟨top :: outer, s.mem, place, links⟩ s.next
  held : Held b m ⟨top :: outer, s.mem, place, links⟩ c
  symbols : Symbols m img
  sound : Sound m
  framed : Framed m top.func fn fr
  frame : frameOf m top.func = some fr
  value : m.value? id = some u
  notAlloc : u.node ≠ .alloc

namespace Poised
variable (h : Poised b m img top outer s place links fn fr id u c)
include h

theorem keeps {c' : Core} {rs : List Reg} (hmem : c'.mem = c.mem) (hkeeps : c.Keeps rs c')
    (hsp : .sp ∉ rs) :
    Poised b m img top outer s place links fn fr id u c' :=
  { h with held := h.held.keeps hmem hkeeps hsp }

theorem load {x : ValueId} {ty : Ty} (hr : m.Readable top.func x ty)
    (hx : x ≠ 0 → x ∈ u.node.operands) {y : Val} (hread : top.read m x = some y) {rd : Reg}
    (hrd : rd ≠ .sp) : ∃ code c',
    loadValue ⟨.rv32, m, fr⟩ rd x = .ok code ∧ execAll b img code c = some c' ∧ c'.mem = c.mem ∧
      c.Keeps [rd] c' ∧ Rep place y (c'.regs rd) :=
  h.staged.load h.held h.symbols h.sound h.framed h.frame h.value hr hx hread hrd

theorem save {y : Val} {rs tmp : Reg} (hrep : Rep place y (c.regs rs)) (htmp : tmp ≠ .sp)
    (hrs : rs ≠ tmp) :
    ∃ c', execAll b img (saveResult ⟨.rv32, m, fr⟩ id rs tmp) c = some c' ∧ c.Keeps [tmp] c' ∧
      Held b m ⟨top.set id y :: outer, s.mem, place, links⟩ c' := by
  refine h.staged.save h.held h.frame ?_ hrep htmp hrs
  rw [Module.node?_eq h.value]
  exact fun heq => h.notAlloc (Option.some.inj heq)

theorem binary {op : Arith} {lhs rhs : ValueId} {x y z : Word} (hnode : u.node = .binary op lhs rhs)
    (hlhs : m.Readable top.func lhs .i32) (hrhs : m.Readable top.func rhs .i32)
    (hx : top.read m lhs = some (.word x)) (hy : top.read m rhs = some (.word y))
    (hz : op.eval? x y = some z) :
    ∃ code c', emitBinary ⟨.rv32, m, fr⟩ id op lhs rhs = .ok code ∧ execAll b img code c = some c' ∧
      c.Keeps scratch c' ∧ code ≠ [] ∧ Held b m ⟨top.set id (.word z) :: outer, s.mem, place,
        links⟩ c' := by
  obtain ⟨code₁, c₁, hcode₁, hrun₁, hmem₁, hkeeps₁, hrep₁⟩ :=
    h.load hlhs (by simp +contextual [hnode, Node.operands]) hx (show Reg.t0 ≠ .sp by simp)
  have h₁ := h.keeps hmem₁ hkeeps₁ (by simp)
  obtain ⟨code₂, c₂, hcode₂, hrun₂, hmem₂, hkeeps₂, hrep₂⟩ :=
    h₁.load hrhs (by simp +contextual [hnode, Node.operands]) hy (show Reg.t1 ≠ .sp by simp)
  have h₂ := h₁.keeps hmem₂ hkeeps₂ (by simp)
  have hx₂ : c₂.regs .t0 = x := (hkeeps₂ .t0 (by simp)).trans hrep₁
  have hy₂ : c₂.regs .t1 = y := hrep₂
  obtain ⟨c₃, hrun₃, hmem₃, hkeeps₃, hval⟩ := arithCode_spec (b := b) img (hx₂ ▸ hy₂ ▸ hz)
  have h₃ := h₂.keeps hmem₃ hkeeps₃ (by simp)
  have hrep₃ : Rep place (.word z) (c₃.regs .t0) := hval
  obtain ⟨c₄, hrun₄, hkeeps₄, hheld⟩ := h₃.save hrep₃ (show Reg.t2 ≠ .sp by simp) (by simp)
  refine ⟨code₁ ++ code₂ ++ arithCode op ++ saveResult ⟨.rv32, m, fr⟩ id .t0 .t2, c₄, ?_,
    execAll_trans (execAll_trans (execAll_trans hrun₁ hrun₂) hrun₃) hrun₄, ?_, by
      simp [loadValue_ne_nil hcode₁],
    hheld⟩
  · simp only [emitBinary, bind, Except.bind, hcode₁, hcode₂]
    rfl
  · exact (((hkeeps₁.mono (by simp [scratch])).trans (hkeeps₂.mono (by simp [scratch]))).trans
      (hkeeps₃.mono (by simp [scratch]))).trans (hkeeps₄.mono (by simp [scratch]))

theorem move {index : ValueId} {i : Word} {x : Int} (size : Int)
    (hops : index ≠ 0 → index ∈ u.node.operands) (hindex : m.Readable top.func index .i32)
    (hi : top.read m index = some (.word i)) (hx : c.regs .t0 = BitVec.ofInt 32 x) : ∃ code c',
    moveCode ⟨.rv32, m, fr⟩ index size = .ok code ∧ execAll b img code c = some c' ∧
      c'.mem = c.mem ∧ c.Keeps scratch c' ∧ c'.regs .t0 = BitVec.ofInt 32 (x + i.toInt * size) := by
  rw [moveCode]
  cases hoff : constOffset? ⟨.rv32, m, fr⟩ index size with
  | some off =>
    obtain ⟨rfl, hfits⟩ : off = i.toInt * size ∧ fitsImm12 off = true := by
      rw [constOffset?] at hoff
      split at hoff
      · rename_i w hw
        have hread : top.read m index = some (.word w) := by
          simp only [Activation.read, hw, bind, Option.bind]
        cases hread.symm.trans hi
        split at hoff
        · cases hoff
          exact ⟨rfl, ‹_›⟩
        · cases hoff
      · cases hoff
    dsimp only
    split
    · rename_i hzero
      exact ⟨[], c, rfl, rfl, rfl, .refl _ _, by rw [hx, hzero, Int.add_zero]⟩
    · refine ⟨_, c.set .t0 (c.regs .t0 + BitVec.ofInt 32 (i.toInt * size)), rfl,
        execAll_single (by rw [exec, if_pos hfits]), rfl, .set (by simp [scratch]) _, ?_⟩
      rw [Core.regs_set_self, hx, ← BitVec.ofInt_add]
  -- the offset is not known or too large: it is multiplied out, modulo the size of a word
  | none =>
    obtain ⟨read, c₁, hread, hrun, hmem, hkeeps, hrep⟩ :=
      h.load hindex hops hi (show Reg.t1 ≠ .sp by simp)
    have hindex₁ : c₁.regs .t1 = i := hrep
    have hbase : c₁.regs .t0 = BitVec.ofInt 32 x := (hkeeps .t0 (by simp)).trans hx
    obtain ⟨c₂, hc₂⟩ : ∃ c₂, c₂ = ((c₁.set .t2 (BitVec.ofInt 32 size)).set .t1
      (i * BitVec.ofInt 32 size)).set .t0
        (BitVec.ofInt 32 x + i * BitVec.ofInt 32 size) := ⟨_, rfl⟩
    have hrun₂ : execAll b img [.li .t2 size, .alu .mul .t1 .t1 .t2, .alu .add .t0 .t0 .t1] c₁ =
      some c₂ := by
      rw [hc₂, ← hindex₁, ← hbase]
      rfl
    have hkeeps₂ : c₁.Keeps scratch c₂ := by
      rw [hc₂]
      exact ((Core.Keeps.set (by simp [scratch]) _).trans (.set (by simp [scratch]) _)).trans
        (.set (by simp [scratch]) _)
    refine ⟨_, c₂, ?_, execAll_trans hrun hrun₂, ?_,
      (hkeeps.mono (by simp [scratch])).trans hkeeps₂, ?_⟩
    · simp only [bind, Except.bind, hread]
      rfl
    · rw [hc₂]
      exact hmem
    · rw [hc₂, Core.regs_set_self, BitVec.ofInt_add, BitVec.ofInt_mul, BitVec.ofInt_toInt]

theorem offset {src index : ValueId} {ty : Ty} {r : Region} {o : Int} {i : Word} (size : Int)
    (hops : u.node.operands = [src, index].filter (· ≠ 0)) (hsrc : m.Readable top.func src ty)
    (hindex : m.Readable top.func index .i32) (hx : top.read m src = some (.addr r o))
    (hi : top.read m index = some (.word i)) : ∃ code c',
    emitOffset ⟨.rv32, m, fr⟩ id src index size = .ok code ∧ execAll b img code c = some c' ∧
      c.Keeps scratch c' ∧ code ≠ [] ∧
      Held b m ⟨top.set id (.addr r (o + i.toInt * size)) :: outer, s.mem, place, links⟩ c' := by
  obtain ⟨code₁, c₁, hcode₁, hrun₁, hmem₁, hkeeps₁, x, hplace, hval₁⟩ :=
    h.load hsrc (by simp +contextual [hops]) hx (show Reg.t0 ≠ .sp by simp)
  have h₁ := h.keeps hmem₁ hkeeps₁ (by simp)
  obtain ⟨code₂, c₂, hcode₂, hrun₂, hmem₂, hkeeps₂, hval₂⟩ :=
    h₁.move size (by simp +contextual [hops]) hindex hi hval₁
  have h₂ := h₁.keeps hmem₂ hkeeps₂ (by simp [scratch])
  have hrep₂ : Rep place (.addr r (o + i.toInt * size)) (c₂.regs .t0) :=
    ⟨x, hplace, by rw [hval₂, Int.add_assoc]⟩
  obtain ⟨c₃, hrun₃, hkeeps₃, hheld⟩ := h₂.save hrep₂ (show Reg.t1 ≠ .sp by simp) (by simp)
  refine ⟨code₁ ++ code₂ ++ saveResult ⟨.rv32, m, fr⟩ id .t0 .t1, c₃, ?_,
    execAll_trans (execAll_trans hrun₁ hrun₂) hrun₃, ?_, by simp [loadValue_ne_nil hcode₁], hheld⟩
  · simp only [emitOffset_eq, bind, Except.bind, hcode₁, hcode₂]
    rfl
  · exact ((hkeeps₁.mono (by simp [scratch])).trans hkeeps₂).trans
      (hkeeps₃.mono (by simp [scratch]))

theorem allocSlot {x : ValueId} {ty : Ty} {r : Region} {o : Int} (hr : m.Readable top.func x ty)
    (hx : x ≠ 0 → x ∈ u.node.operands) (halloc : isAlloc ⟨.rv32, m, fr⟩ x = true)
    (hread : top.read m x = some (.addr r o)) :
    ∃ slot, Assembly.allocSlot ⟨.rv32, m, fr⟩ x = .ok slot ∧ o = 0 ∧
      place r = some (stackPointer b m (top :: outer) + slot.offset) := by
  obtain ⟨w, hw, -, hreadable⟩ := hr
  have hnode : w.node = .alloc := by
    rw [isAlloc, Module.node?_eq hw] at halloc
    exact isAlloc_iff.mp halloc
  have hfunc : w.func = top.func := by
    rw [Value.IsReadable, hnode] at hreadable
    exact hreadable
  obtain ⟨slot, hslot⟩ := h.framed.slot h.value hx hw hfunc (by simp [hnode])
  rw [read_env hw (by simp [hnode]) (by simp [hnode]) (by simp [hnode])] at hread
  obtain ⟨k, -, heq, -, hplace⟩ := (h.staged.active _ _ _ frameAt?_self).alloc x _
    (by rw [Module.node?_eq hw, hnode]) hread
  cases heq
  exact ⟨slot, by simp only [Assembly.allocSlot, hslot], rfl, hplace fr slot h.frame hslot⟩

theorem fetch {src : ValueId} {ty : Ty} {r : Region} {o : Int} {y : Val}
    (hsrc : m.Readable top.func src ty) (hops : src ≠ 0 → src ∈ u.node.operands)
    (hx : top.read m src = some (.addr r o)) (hy : s.load r o = some y) :
    ∃ code c', readCode ⟨.rv32, m, fr⟩ src = .ok code ∧ execAll b img code c = some c' ∧
      c'.mem = c.mem ∧ c.Keeps [.t0] c' ∧ code ≠ [] ∧ Rep place y (c'.regs .t0) := by
  obtain ⟨cells, i, hmem, rfl, hi⟩ := Store.load_cases hy
  have hlt : i < cells.length := (List.getElem?_eq_some_iff.mp hi).1
  have hloc {x : Int} (hplace : place r = some x) :
      Located b m ⟨top :: outer, s.mem, place, links⟩ (.cell r i) (x + 4 * i) :=
        .cell hmem hplace hlt
  rw [readCode]
  split
  · rename_i halloc
    obtain ⟨slot, hslot, hzero, hplace⟩ := h.allocSlot hsrc hops halloc hx
    have hloc := hloc hplace
    rw [hzero, Int.add_zero] at hloc
    obtain ⟨c', hrun, hmem', hkeeps, hval⟩ :=
      loadSp_spec img (h.staged.pointsTo h.held) (h.staged.laid.has hloc) .t0
        (show Reg.t0 ≠ .sp by simp)
    refine ⟨loadSp .t0 .t0 slot.offset, c', ?_, hrun, hmem', hkeeps.mono (by simp), by
      simp [loadSp], ?_⟩
    · rw [hslot]
      rfl
    · rw [hval]
      exact h.held.agree _ _ _ hloc (.cell hmem hi)
  · obtain ⟨code, c₁, hcode, hrun, hmem₁, hkeeps, x, hplace, hval⟩ :=
      h.load hsrc hops hx (show Reg.t0 ≠ .sp by simp)
    have hhas := h.staged.laid.has (hloc hplace)
    have haddr : c₁.address? b 0 .t0 = some (x + 4 * i) :=
      address?_of_fits (by rw [hval, hhas.pointsTo.toInt, Int.add_zero]) rfl hhas
    refine ⟨code ++ [.lw .t0 0 .t0], c₁.set .t0 (c₁.mem (x + 4 * i)), ?_,
      execAll_trans hrun (execAll_single (by rw [exec, haddr]; rfl)), hmem₁,
        hkeeps.trans (.set (by simp) _),
      by simp, ?_⟩
    · rw [hcode]
      rfl
    · rw [Core.regs_set_self, hmem₁]
      exact h.held.agree _ _ _ (hloc hplace) (.cell hmem hi)

theorem loadWord {src : ValueId} {ty : Ty} {r : Region} {o : Int} {y : Val}
    (hnode : u.node = .load src) (hsrc : m.Readable top.func src ty)
    (hx : top.read m src = some (.addr r o)) (hy : s.load r o = some y) :
    ∃ code c', emitLoad ⟨.rv32, m, fr⟩ id src = .ok code ∧ execAll b img code c = some c' ∧
      c.Keeps scratch c' ∧ code ≠ [] ∧ Held b m ⟨top.set id y :: outer, s.mem, place,
        links⟩ c' := by
  obtain ⟨code₁, c₁, hcode₁, hrun₁, hmem₁, hkeeps₁, hne, hrep₁⟩ :=
    h.fetch hsrc (by simp [hnode, Node.operands]) hx hy
  have h₁ := h.keeps hmem₁ hkeeps₁ (by simp)
  obtain ⟨c₂, hrun₂, hkeeps₂, hheld⟩ := h₁.save hrep₁ (show Reg.t1 ≠ .sp by simp) (by simp)
  refine ⟨code₁ ++ saveResult ⟨.rv32, m, fr⟩ id .t0 .t1, c₂, ?_, execAll_trans hrun₁ hrun₂, ?_,
    by simp [hne],
    hheld⟩
  · simp only [emitLoad_eq, bind, Except.bind, hcode₁]
    rfl
  · exact (hkeeps₁.mono (by simp [scratch])).trans (hkeeps₂.mono (by simp [scratch]))

theorem put {dest : ValueId} {ty : Ty} {r : Region} {o : Int} {y : Val} {s' : Store}
    (hdest : m.Readable top.func dest ty) (hops : dest ≠ 0 → dest ∈ u.node.operands)
    (hx : top.read m dest = some (.addr r o)) (hrep : Rep place y (c.regs .t0))
    (hs : s.store r o y = some s') :
    ∃ code c', writeCode ⟨.rv32, m, fr⟩ dest = .ok code ∧ execAll b img code c = some c' ∧
      c.Keeps [.t1] c' ∧ Held b m ⟨top :: outer, s'.mem, place, links⟩ c' := by
  obtain ⟨cells, i, hmem, rfl, hi, rfl⟩ := Store.store_cases hs
  have hloc {x : Int} (hplace : place r = some x) :
      Located b m ⟨top :: outer, s.mem, place, links⟩ (.cell r i) (x + 4 * i) :=
        .cell hmem hplace hi
  rw [writeCode]
  split
  · rename_i halloc
    obtain ⟨slot, hslot, hzero, hplace⟩ := h.allocSlot hdest hops halloc hx
    have hloc := hloc hplace
    have hheld := h.held.agree.store h.staged.laid hmem hplace hi hrep
    rw [hzero, Int.add_zero] at hloc hheld
    obtain ⟨c', hrun, hmem', hkeeps⟩ :=
      storeSp_spec img (h.staged.pointsTo h.held) (h.staged.laid.has hloc)
      (show Reg.t1 ≠ .sp by simp) (show Reg.t0 ≠ .t1 by simp)
    refine ⟨storeSp .t0 .t1 slot.offset, c', ?_, hrun, hkeeps, ?_, ?_⟩
    · rw [hslot]
      rfl
    · rw [hmem']
      exact hheld
    · rw [hkeeps .sp (by simp)]
      exact h.held.sp
  · obtain ⟨code, c₁, hcode, hrun, hmem₁, hkeeps, x, hplace, hval⟩ :=
      h.load hdest hops hx (show Reg.t1 ≠ .sp by simp)
    have hhas := h.staged.laid.has (hloc hplace)
    have haddr : c₁.address? b 0 .t1 = some (x + 4 * i) :=
      address?_of_fits (by rw [hval, hhas.pointsTo.toInt, Int.add_zero]) rfl hhas
    refine ⟨code ++ [.sw .t0 0 .t1], c₁.write (x + 4 * i) (c₁.regs .t0), ?_,
      execAll_trans hrun (execAll_single (by rw [exec, haddr]; rfl)),
        hkeeps.trans (.write _ _ _), ?_, ?_⟩
    · rw [hcode]
      rfl
    · rw [Core.mem_write, hmem₁, hkeeps .t0 (by simp)]
      exact h.held.agree.store h.staged.laid hmem hplace hi hrep
    · exact (hkeeps .sp (by simp)).trans h.held.sp

end Poised

end

end Sysy.Assembly
