import Sysy.Proofs.Assembly.Execution

/-!
Straight code. What the pieces of code do from which instructions are put together: access to the
stack through small and large offsets, and moves of the stack pointer. `CodeAt` ties code to its
place in an image.
-/

namespace Sysy.Assembly
open Ir

variable {b : Board} {img : Image} {lib : Library} {c c' : Core}

theorem execAll_append (xs ys : List Instr) (c : Core) :
    execAll b img (xs ++ ys) c = (execAll b img xs c).bind (execAll b img ys) := by
  induction xs generalizing c with
  | nil => rfl
  | cons x xs ih =>
    rw [List.cons_append, execAll, execAll]
    cases exec b img c x with
    | none => rfl
    | some c₁ => exact ih c₁

theorem execAll_trans {xs ys : List Instr} {c₁ c₂ : Core} (h₁ : execAll b img xs c = some c₁)
    (h₂ : execAll b img ys c₁ = some c₂) : execAll b img (xs ++ ys) c = some c₂ := by
  rw [execAll_append, h₁]
  exact h₂

theorem execAll_single {i : Instr} {c₁ : Core} (h : exec b img c i = some c₁) :
    execAll b img [i] c = some c₁ := by
  rw [execAll, h]
  rfl

def Core.Keeps (rs : List Reg) (c c' : Core) : Prop := ∀ r, r ∉ rs → c'.regs r = c.regs r

namespace Core.Keeps
variable {rs rs' : List Reg} {c₁ c₂ : Core}

theorem refl (rs : List Reg) (c : Core) : Keeps rs c c := fun _ _ => rfl

theorem trans (h : Keeps rs c c₁) (h' : Keeps rs c₁ c₂) : Keeps rs c c₂ :=
  fun r hr => (h' r hr).trans (h r hr)

theorem mono (h : Keeps rs c c₁) (hsub : rs ⊆ rs') : Keeps rs' c c₁ := fun r hr => h r fun hmem =>
    hr (hsub hmem)

theorem set {r : Reg} (hr : r ∈ rs) (w : Word) : Keeps rs c (c.set r w) := by
  intro r' hr'
  exact regs_set_of_ne c w fun heq => hr' (heq ▸ hr)

theorem write (rs : List Reg) (a : Int) (w : Word) : Keeps rs c (c.write a w) := fun _ _ => rfl

end Core.Keeps

theorem toInt_ofInt {a : Int} (h : 0 ≤ a) (h' : a < 0x80000000) :
    (BitVec.ofInt 32 a).toInt = a := by
  rw [BitVec.toInt_ofInt]
  exact Int.bmod_eq_of_le (by omega) (by omega)

structure PointsTo (b : Board) (w : Word) (a : Int) : Prop where
  word : w = BitVec.ofInt 32 a
  low : 0 ≤ a
  high : a ≤ b.top

theorem PointsTo.toInt {w : Word} {a : Int} (h : PointsTo b w a) : w.toInt = a := by
  have := b.top_small
  rw [h.word]
  exact toInt_ofInt h.low (lt_of_le_of_lt h.high this)

theorem Board.Has.pointsTo {a : Int} (h : b.Has a) : PointsTo b (BitVec.ofInt 32 a) a := by
  obtain ⟨h₁, h₂, -⟩ := h
  have := b.base_nonneg
  exact ⟨rfl, by omega, by omega⟩

theorem address?_of_fits {r : Reg} {a off : Int} (hr : (c.regs r).toInt + off = a)
    (hfits : fitsImm12 off = true) (ha : b.Has a) : c.address? b off r = some a := by
  rw [Core.address?, hr]
  exact if_pos ⟨hfits, ha⟩

section
variable (img) {s off : Int} (hsp : PointsTo b (c.regs .sp) s) (ha : b.Has (s + off))
include hsp ha

theorem spAddr_spec {tmp : Reg} (htmp : tmp ≠ .sp) : ∃ c₁,
    execAll b img (spAddr tmp off).1 c = some c₁ ∧ c₁.mem = c.mem ∧ c.Keeps [tmp] c₁ ∧
      c₁.address? b (spAddr tmp off).2.1 (spAddr tmp off).2.2 = some (s + off) := by
  rw [spAddr]
  split
  · rename_i hfits
    exact ⟨c, rfl, rfl, .refl _ _, address?_of_fits (by rw [hsp.toInt]) hfits ha⟩
  · refine ⟨_, rfl, rfl, (Core.Keeps.set (by simp) _).trans (.set (by simp) _), ?_⟩
    refine address?_of_fits ?_ rfl ha
    have hval : BitVec.ofInt 32 off + c.regs .sp = BitVec.ofInt 32 (s + off) := by
      rw [hsp.word, ← BitVec.ofInt_add, Int.add_comm]
    rw [Core.regs_set_self, Alu.eval, Core.regs_set_self, Core.regs_set_of_ne c _ htmp.symm, hval,
      ha.pointsTo.toInt, Int.add_zero]

theorem loadSp_spec (rd : Reg) {tmp : Reg} (htmp : tmp ≠ .sp) : ∃ c',
    execAll b img (loadSp rd tmp off) c = some c' ∧ c'.mem = c.mem ∧ c.Keeps [rd, tmp] c' ∧
      c'.regs rd = c.mem (s + off) := by
  obtain ⟨c₁, h₁, hmem, hkeeps, haddr⟩ := spAddr_spec img hsp ha htmp
  have hload : exec b img c₁ (.lw rd (spAddr tmp off).2.1 (spAddr tmp off).2.2) =
      some (c₁.set rd (c₁.mem (s + off))) := by
    rw [exec, haddr]
    rfl
  refine ⟨c₁.set rd (c₁.mem (s + off)), execAll_trans h₁ (execAll_single hload), hmem, ?_, ?_⟩
  · exact (hkeeps.mono (by simp)).trans (.set (by simp) _)
  · rw [Core.regs_set_self, hmem]

theorem storeSp_spec {rs tmp : Reg} (htmp : tmp ≠ .sp) (hrs : rs ≠ tmp) : ∃ c',
    execAll b img (storeSp rs tmp off) c = some c' ∧ c'.mem = Function.update c.mem (s + off)
      (c.regs rs) ∧ c.Keeps [tmp] c' := by
  obtain ⟨c₁, h₁, hmem, hkeeps, haddr⟩ := spAddr_spec img hsp ha htmp
  have hstore : exec b img c₁ (.sw rs (spAddr tmp off).2.1 (spAddr tmp off).2.2) =
      some (c₁.write (s + off) (c₁.regs rs)) := by
    rw [exec, haddr]
    rfl
  refine ⟨c₁.write (s + off) (c₁.regs rs), execAll_trans h₁ (execAll_single hstore), ?_,
    hkeeps.trans (.write _ _ _)⟩
  rw [Core.mem_write, hmem, hkeeps rs (by simpa using hrs)]

end

theorem addrSp_spec (img : Image) {s : Int} (hsp : c.regs .sp = BitVec.ofInt 32 s) {rd : Reg}
    (hrd : rd ≠ .sp) (off : Int) :
    ∃ c', execAll b img (addrSp rd off) c = some c' ∧ c'.mem = c.mem ∧ c.Keeps [rd] c' ∧
      c'.regs rd = BitVec.ofInt 32 (s + off) := by
  rw [addrSp]
  split
  · rename_i hfits
    refine ⟨c.set rd (c.regs .sp + BitVec.ofInt 32 off),
      execAll_single (by rw [exec, if_pos hfits]), rfl,
      .set (by simp) _, ?_⟩
    rw [Core.regs_set_self, hsp, BitVec.ofInt_add]
  · refine ⟨_, rfl, rfl, (Core.Keeps.set (by simp) _).trans (.set (by simp) _), ?_⟩
    rw [Core.regs_set_self, Alu.eval, Core.regs_set_self, Core.regs_set_of_ne c _ hrd.symm, hsp,
      ← BitVec.ofInt_add, Int.add_comm]

theorem addSp_spec (img : Image) {s : Int} (hsp : c.regs .sp = BitVec.ofInt 32 s) (delta : Int) :
    ∃ c',
    execAll b img (addSp delta) c = some c' ∧ c'.mem = c.mem ∧ c.Keeps [.sp, .t0] c' ∧
      c'.regs .sp = BitVec.ofInt 32 (s + delta) := by
  rw [addSp]
  split
  · rename_i hfits
    refine ⟨c.set .sp (c.regs .sp + BitVec.ofInt 32 delta),
      execAll_single (by rw [exec, if_pos hfits]), rfl,
      .set (by simp) _, ?_⟩
    rw [Core.regs_set_self, hsp, BitVec.ofInt_add]
  · refine ⟨_, rfl, rfl, (Core.Keeps.set (by simp) _).trans (.set (by simp) _), ?_⟩
    rw [Core.regs_set_self, Alu.eval, Core.regs_set_self, Core.regs_set_of_ne c _ (by simp), hsp,
      ← BitVec.ofInt_add]

def CodeAt (img : Image) (n : Nat) (code : List Instr) : Prop := code <+: img.code.drop n

namespace CodeAt
variable {n : Nat} {xs ys : List Instr} {i : Instr}

theorem right (h : CodeAt img n (xs ++ ys)) : CodeAt img (n + xs.length) ys := by
  obtain ⟨rest, hrest⟩ := h
  refine ⟨rest, ?_⟩
  rw [← List.drop_drop, ← hrest, List.append_assoc, List.drop_left]

theorem get (h : CodeAt img n (i :: xs)) : img.code[n]? = some i := by
  obtain ⟨rest, hrest⟩ := h
  have := congrArg (fun l : List Instr => l[0]?) hrest
  simpa using this.symm

theorem lt (h : CodeAt img n (i :: xs)) : n < img.code.length := by
  obtain ⟨hlt, -⟩ := List.getElem?_eq_some_iff.mp h.get
  exact hlt

end CodeAt

def Goes (b : Board) (img : Image) (lib : Library) (σ σ' : State) : Prop :=
  step b img lib σ = some σ'

abbrev GoesOn (b : Board) (img : Image) (lib : Library) := Relation.ReflTransGen (Goes b img lib)

abbrev GoesFar (b : Board) (img : Image) (lib : Library) := Relation.TransGen (Goes b img lib)

theorem step_eq {σ : State} {n : Nat} {i : Instr} (hpc : σ.pc = n) (hi : img.code[n]? = some i) :
    step b img lib σ = perform b img lib σ i := by
  rw [step, hpc, if_neg (by omega), Int.toNat_natCast, hi]
  rfl

theorem step_exec {n : Nat} {i : Instr} {t : List Event} (hi : img.code[n]? = some i)
    (h : exec b img c i = some c') : Goes b img lib ⟨n, c, t⟩ ⟨(n + 1 : Nat), c', t⟩ := by
  rw [Goes, step_eq rfl hi]
  cases i with
  | j | bnez | call | ret => cases h
  | _ => simp only [perform, h, Option.map_some, Nat.cast_add, Nat.cast_one]

theorem goesOn_of_execAll (lib : Library) {code rest : List Instr} {n : Nat} {t : List Event}
    (hcode : CodeAt img n (code ++ rest)) (h : execAll b img code c = some c') :
    GoesOn b img lib ⟨n, c, t⟩ ⟨(n + code.length : Nat), c', t⟩ ∧
    CodeAt img (n + code.length) rest := by
  refine ⟨?_, hcode.right⟩
  induction code generalizing n c with
  | nil =>
    cases h
    exact .refl
  | cons i is ih =>
    rw [execAll] at h
    obtain ⟨c₁, hi, his⟩ := Option.bind_eq_some_iff.mp h
    have htail : CodeAt img (n + 1) (is ++ rest) :=
      (show CodeAt img n ([i] ++ (is ++ rest)) from hcode).right
    refine .head (step_exec hcode.get hi) ?_
    have := ih htail his
    rwa [Nat.add_assoc, Nat.add_comm 1] at this

end Sysy.Assembly
