import Sysy.Proofs.Assembly.Calls
import Sysy.Proofs.Lowering.WellTyped

/-!
Frames for any machine. The slots, the arguments that are passed on the stack and the return address
lie apart in a frame, and a function finds an argument on the stack where its caller has put it.
-/

namespace Sysy.Frame
open Ir Lowering

inductive Area where
  | slot (id : ValueId)
  /-- The arguments that are passed on the stack. -/
  | outArgs
  /-- The return address. -/
  | link
  deriving DecidableEq, Repr

/-- The offsets where an area begins and ends, if the frame has it. -/
def extent? (t : Machine) (fr : Frame) : Area → Option (Int × Int)
  | .slot id => (fr.slot? id).map fun s => (s.offset, s.offset + s.size)
  | .outArgs => some (0, fr.outArgs)
  | .link => if fr.hasCall then some (fr.raOffset, fr.raOffset + t.wordSize) else none

/-- A frame in which everything that the code of a function keeps has a place of its own. -/
structure Sound (t : Machine) (m : Module) (fn : Func) (fr : Frame) : Prop where
  slots : ∀ id, (∃ s, fr.slot? id = some s) ↔ id ∈ fn.insts ∧ m.users id ≠ []
  keeps : ∀ id s, fr.slot? id = some s → ∃ v, m.value? id = some v ∧
    (v.node = .alloc ∧ s.size = v.ty.elem.size ∧ s.isPtr = false ∨
      v.node ≠ .alloc ∧ s.size = t.wordSize ∧ s.isPtr = v.ty.isPtr)
  hasCall : fr.hasCall = true ↔ ∃ id ∈ fn.insts, ∃ g args, m.node? id = some (.call g args)
  inside : ∀ a lo hi, extent? t fr a = some (lo, hi) → 0 ≤ lo ∧ lo ≤ hi ∧ hi ≤ fr.size
  apart : ∀ a a' lo hi lo' hi', a ≠ a' → extent? t fr a = some (lo, hi) →
    extent? t fr a' = some (lo', hi') →
    hi ≤ lo' ∨ hi' ≤ lo
  aligned : t.stackAlign ∣ fr.size
  small : -0x80000000 ≤ fr.size ∧ fr.size ≤ 0x7FFFFFFF
  passed : ∀ id ∈ fn.insts, ∀ g args, m.node? id = some (.call g args) → ∀ i : Nat, t.argRegs ≤ i →
    i < args.length →
    0 ≤ outgoingOffset t i ∧ outgoingOffset t i + t.wordSize ≤ fr.outArgs

variable {t : Machine} {m : Module} {f : FuncId} {fn : Func} {fr : Frame}

theorem used_iff {id : ValueId} : Used m id ↔ m.users id ≠ [] := by
  rw [Module.users]
  constructor
  · rintro ⟨y, hy⟩
    have hmem : (id, y) ∈ m.uses.toList.filter (·.1 = id) :=
      List.mem_filter.mpr ⟨Array.mem_toList_iff.mpr hy, by simp⟩
    exact List.ne_nil_of_mem (List.mem_map_of_mem hmem)
  · intro hne
    obtain ⟨y, hy⟩ := List.exists_mem_of_ne_nil _ hne
    obtain ⟨⟨x, _⟩, hmem, rfl⟩ := List.mem_map.mp hy
    obtain ⟨huses, hx⟩ := List.mem_filter.mp hmem
    obtain rfl : x = id := by simpa using hx
    exact ⟨_, Array.mem_toList_iff.mp huses⟩

/-- What holds of the offsets of an area, by the part of the frame that it lies in. -/
theorem Planned.extent (h : Planned t m fn fr) {a : Area} {lo hi : Int}
    (ha : extent? t fr a = some (lo, hi)) :
    (a = .outArgs ∧ lo = 0 ∧ hi = fr.outArgs) ∨
    (∃ id s, a = .slot id ∧ fr.slot? id = some s ∧ lo = s.offset ∧
      hi = s.offset + s.size ∧ lo ≤ hi ∧
      fr.outArgs ≤ lo ∧ hi ≤ fr.outArgs + fr.locals) ∨
    (a = .link ∧ lo = fr.size - t.wordSize ∧ hi = fr.size ∧ fr.outArgs + fr.locals ≤ lo) := by
  cases a with
  | outArgs =>
    cases ha
    exact .inl ⟨rfl, rfl, rfl⟩
  | slot id =>
    obtain ⟨s, hs, heq⟩ := Option.map_eq_some_iff.mp ha
    cases heq
    obtain ⟨-, -, h₁, h₂, -, v, -, hkeeps⟩ := h.slot id s hs
    have hpos := hkeeps.needs.1
    have hsize := hkeeps.size
    exact .inr (.inl ⟨id, s, rfl, hs, rfl, rfl, by omega, h₁, h₂⟩)
  | link =>
    rw [extent?] at ha
    split at ha
    · rename_i hcall
      cases ha
      have htop := h.top
      rw [if_pos hcall] at htop
      rw [h.raOffset hcall]
      exact .inr (.inr ⟨rfl, rfl, by omega, by omega⟩)
    · cases ha

theorem outgoingOffset_apart (ht : 1 ≤ t.wordSize) {i j : Nat} (hij : i < j) :
    outgoingOffset t i + t.wordSize ≤ outgoingOffset t j := by
  have hstep : (j : Int) - t.argRegs = (i - t.argRegs) + (j - i) := by ring
  have hone : (1 : Int) ≤ j - i := by omega
  rw [outgoingOffset, outgoingOffset, hstep, add_mul]
  nlinarith

theorem Planned.sound (ht : 1 ≤ t.wordSize) (hs : 1 ≤ t.stackAlign) (h : Planned t m fn fr) :
    Sound t m fn fr := by
  have hout := h.outArgs_nonneg ht
  have hlocals := h.locals
  have hsize : 0 ≤ fr.size ∧ fr.outArgs + fr.locals ≤ fr.size := by
    -- the return address is on top of the locals, so the frame has room for both areas in either
    -- case
    have htop := h.top
    split at htop <;> omega
  refine ⟨fun id => ⟨?_, ?_⟩, fun id s hslot => ?_, ⟨h.called, ?_⟩, fun a lo hi ha => ?_,
    fun a a' lo hi lo' hi' hne ha ha' => ?_, h.aligned, ⟨by omega, ?_⟩,
      fun id hid g args hnode i hi hlen => ?_⟩
  · rintro ⟨s, hslot⟩
    obtain ⟨hmem, hused, -⟩ := h.slot id s hslot
    exact ⟨hmem, used_iff.mp hused⟩
  · rintro ⟨hmem, hused⟩
    exact h.total id hmem (used_iff.mpr hused)
  · obtain ⟨-, -, -, -, -, v, hv, hkeeps⟩ := h.slot id s hslot
    refine ⟨v, hv, ?_⟩
    have hsize := hkeeps.size
    have hptr := hkeeps.isPtr
    rw [need] at hsize
    cases hnode : v.node with
    | alloc =>
      rw [hnode] at hsize hptr
      exact .inl ⟨rfl, hsize, hptr⟩
    | _ =>
      rw [hnode] at hsize hptr
      exact .inr ⟨by simp, hsize, hptr⟩
  · rintro ⟨id, hid, g, args, hnode⟩
    obtain ⟨v, hv, hnode⟩ := Option.map_eq_some_iff.mp hnode
    exact (h.calls id hid v g args hv hnode).1
  · rcases h.extent ha with ⟨-, rfl, rfl⟩ | ⟨-, -, -, -, -, -, hle, h₁, h₂⟩ | ⟨-, rfl, rfl,
      h₁⟩ <;> omega
  · rcases h.extent ha with ⟨rfl, rfl, rfl⟩ | ⟨id, s, rfl, hslot, rfl, rfl, -, h₁, h₂⟩ | ⟨rfl, rfl,
      rfl, h₁⟩ <;>
      rcases h.extent ha' with ⟨rfl, rfl, rfl⟩ | ⟨id', s', rfl, hslot', rfl, rfl, -, h₁',
        h₂'⟩ | ⟨rfl, rfl, rfl, h₁'⟩
    · exact absurd rfl hne
    · omega
    · omega
    · omega
    · exact h.apart id id' s s' hslot hslot' fun heq => hne (by rw [heq])
    · omega
    · omega
    · omega
    · exact absurd rfl hne
  · have := h.small
    rw [maxSize] at this
    omega
  · obtain ⟨v, hv, hnode⟩ := Option.map_eq_some_iff.mp hnode
    have hargs := (h.calls id hid v g args hv hnode).2
    have hregs : (0 : Int) ≤ i - t.argRegs := by omega
    refine ⟨mul_nonneg hregs (by omega), ?_⟩
    calc outgoingOffset t i + t.wordSize
      _ = ((i : Int) + 1 - t.argRegs) * t.wordSize := by rw [outgoingOffset]; ring
      _ ≤ max 0 (fr.maxArgs - t.argRegs) * t.wordSize := by
        refine mul_le_mul_of_nonneg_right (le_max_of_le_right ?_) (by omega)
        omega
      _ = fr.outArgs := h.outArgs.symm

theorem Planned.words (h : Planned .rv32 m fn fr) :
    (∀ a lo hi, extent? .rv32 fr a = some (lo, hi) → 4 ∣ lo ∧ 4 ∣ hi) ∧
    ∀ i, 4 ∣ outgoingOffset .rv32 i ∧ 4 ∣ incomingOffset .rv32 fr i := by
  have hfour : 4 ∣ fr.size := Dvd.dvd.trans (by decide) h.aligned
  refine ⟨fun a lo hi ha => ?_, fun i => ?_⟩
  · rcases h.extent ha with ⟨-, rfl, rfl⟩ | ⟨id, s, -, hslot, rfl, rfl, -⟩ | ⟨-, rfl, rfl, -⟩
    · exact ⟨dvd_zero 4, h.outArgs ▸ Int.dvd_mul_left _ _⟩
    · obtain ⟨-, -, -, -, hoff, v, -, hkeeps⟩ := h.slot id s hslot
      have hoff := hoff (dvd_refl 4)
      exact ⟨hoff, dvd_add hoff (hkeeps.size ▸ hkeeps.needs.2 (dvd_refl 4))⟩
    · exact ⟨dvd_sub hfour (dvd_refl 4), hfour⟩
  · exact ⟨Int.dvd_mul_left _ _, dvd_add hfour (Int.dvd_mul_left _ _)⟩

theorem planned_of_ofFunc (ht : 1 ≤ t.wordSize) (hs : 1 ≤ t.stackAlign) (h : Lowering.Sound m)
    (hfn : fn ∈ m.funcs.toList) (hfr : ofFunc t m fn = .ok fr) : Planned t m fn fr := by
  rw [ofFunc] at hfr
  split at hfr
  · cases hfr
  · rename_i hdecl
    obtain ⟨g, hfin⟩ := h.finished hfn (by simpa using hdecl)
    rcases plan_cases ht hs hfin with ⟨fr', hfr', hplanned⟩ | ⟨b, hb⟩
    · rw [hfr] at hfr'
      cases hfr'
      exact hplanned
    · rw [hfr] at hb
      cases hb

end Sysy.Frame

namespace Sysy.Assembly
open Ir Lowering

variable {t : Machine} {m : Module} {fn : Func} {fr : Frame}

/-- The frames of a module that lowering gives are sound. Arguments that are passed on the stack
have different words there, each one at the place where the function that is called finds it: on the
machine that code is emitted for, this is so once the prologue has run. -/
theorem frame_sound {p : Program} (h : p.lower = .ok m) (hfn : fn ∈ m.funcs.toList)
    (hword : 1 ≤ t.wordSize) (halign : 1 ≤ t.stackAlign) (hfr : Frame.ofFunc t m fn = .ok fr) :
    Frame.Sound t m fn fr ∧
    (∀ i j : Nat, i ≠ j →
      Frame.outgoingOffset t i + t.wordSize ≤ Frame.outgoingOffset t j ∨
      Frame.outgoingOffset t j + t.wordSize ≤ Frame.outgoingOffset t i) ∧
    (∀ (i : Nat) (sp : Int),
      sp - fr.size + Frame.incomingOffset t fr i = sp + Frame.outgoingOffset t i) ∧
    (t = .rv32 →
      (∀ a lo hi, Frame.extent? t fr a = some (lo, hi) → 4 ∣ lo ∧ 4 ∣ hi) ∧
      (∀ i, 4 ∣ Frame.outgoingOffset t i ∧ 4 ∣ Frame.incomingOffset t fr i) ∧
      ∀ (b : Board) (img : Image) (c : Core) (sp : Int), c.regs .sp = BitVec.ofInt 32 sp → 16 ∣ sp →
        sp ≤ b.top → b.base ≤ sp - fr.size → ∃ c', execAll b img (prologue fr) c = some c' ∧
          ∀ i, (c'.regs .sp).toInt + Frame.incomingOffset t fr i =
            sp + Frame.outgoingOffset t i) := by
  obtain ⟨scope, hready⟩ := ready_of_lower h
  have hplanned := Frame.planned_of_ofFunc hword halign hready.sound hfn hfr
  have hsame (i : Nat) (sp : Int) : sp - fr.size + Frame.incomingOffset t fr i = sp +
    Frame.outgoingOffset t i := by
    rw [Frame.incomingOffset, Frame.outgoingOffset]
    ring
  refine ⟨hplanned.sound hword halign, fun i j hne => ?_, hsame, ?_⟩
  · rcases Nat.lt_or_gt_of_ne hne with hlt | hlt
    · exact .inl (Frame.outgoingOffset_apart hword hlt)
    · exact .inr (Frame.outgoingOffset_apart hword hlt)
  · rintro rfl
    refine ⟨hplanned.words.1, hplanned.words.2, fun b img c sp hsp h16 htop hlow => ?_⟩
    obtain ⟨c', hrun, hsp', -⟩ := prologue_spec img hplanned.fits htop hlow h16 hsp
    refine ⟨c', hrun, fun i => ?_⟩
    have hbase := b.base_nonneg
    have hsmall := b.top_small
    have hsize := (hplanned.sound hword halign).inside .outArgs 0 fr.outArgs rfl
    rw [hsp', toInt_ofInt (by omega) (by omega)]
    exact hsame i sp

/-- A function with more parameters than there are registers for them:
`int last(int p0, …, int p9) { return p9; } int main() { return last(0, …, 9); }`. -/
def wideSample : Program where
  span := {}
  items := [
    .func {} {
      name := "last", nameSpan := {}, isVoid := false, bodySpan := {}
      params := (List.range 10).map fun i => ⟨s!"p{i}", {}, none⟩
      body := [.ret {} (some (.lval {} "p9" []))] },
    .func {} {
      name := "main", nameSpan := {}, isVoid := false, bodySpan := {}, params := []
      body := [.ret {}
        (some (.call {} "last" ((List.range 10).map fun i => .lit {} (BitVec.ofNat 32 i))))] }]

def plansOf (t : Machine) (p : Program) : List (Module × Func × Frame) :=
  match p.lower with
  | .error _ => []
  | .ok m => m.funcs.toList.filterMap fun fn => (Frame.ofFunc t m fn).toOption.map (m, fn, ·)

theorem of_mem_plansOf {p : Program} (h : (m, fn, fr) ∈ plansOf t p) :
    p.lower = .ok m ∧ fn ∈ m.funcs.toList ∧ Frame.ofFunc t m fn = .ok fr := by
  rw [plansOf] at h
  split at h
  · cases h
  · rename_i m' hm
    obtain ⟨fn', hfn, heq⟩ := List.mem_filterMap.mp h
    obtain ⟨fr', hfr, heq⟩ := Option.map_eq_some_iff.mp heq
    cases heq
    refine ⟨hm, hfn, ?_⟩
    cases hof : Frame.ofFunc t m fn with
    | error e => rw [hof] at hfr; cases hfr
    | ok fr' =>
      rw [hof] at hfr
      cases hfr
      rfl

theorem frame_sound_wideSample : ∃ m fn fr, wideSample.lower = .ok m ∧ fn ∈ m.funcs.toList ∧
    Frame.ofFunc .rv32 m fn = .ok fr ∧ fr.outArgs = 8 ∧ Frame.Sound .rv32 m fn fr := by
  have hlast : ((plansOf .rv32 wideSample).getLast?.map (·.2.2.outArgs)) = some 8 :=
    by decide +kernel
  obtain ⟨⟨m, fn, fr⟩, hlast, hout⟩ := Option.map_eq_some_iff.mp hlast
  obtain ⟨hm, hfn, hfr⟩ := of_mem_plansOf (List.mem_of_getLast? hlast)
  exact ⟨m, fn, fr, hm, hfn, hfr, hout, (frame_sound hm hfn (by decide) (by decide) hfr).1⟩

end Sysy.Assembly
