import Sysy.Proofs.Assembly.Instructions
import Sysy.Proofs.Lowering.History

/-!
The constants of assembly. A frame fits into 32 bits, but the arguments above it need not: exactly
if an argument lies out of reach, code is emitted that puts a larger number into a register.
-/

namespace Sysy.Assembly
open Ir Lowering

variable {m : Module} {ls : List Line} {f : FuncId} {fn : Func} {fr : Frame}

def InRange (v : Int) : Prop := -0x80000000 ≤ v ∧ v ≤ 0x7FFFFFFF

instance (v : Int) : Decidable (InRange v) := inferInstanceAs (Decidable (_ ∧ _))

/-- The function finds all its arguments at offsets of 32 bits. -/
def Reaches (fn : Func) (fr : Frame) : Prop :=
  ∀ i : Nat, 8 ≤ i → i < fn.params.length → Frame.incomingOffset .rv32 fr i ≤ 0x7FFFFFFF

theorem size_nonneg (h : Frame.Fits m fn fr) : 0 ≤ fr.size ∧ fr.outArgs + fr.locals ≤ fr.size := by
  have hout := h.outArgs
  have hlocals := h.locals
  have htop := h.top
  split at htop <;> omega

theorem inRange_size (h : Frame.Fits m fn fr) : InRange fr.size ∧ InRange (-fr.size) := by
  have hsize := size_nonneg h
  have hsmall := h.small
  exact ⟨⟨by omega, by omega⟩, by omega, by omega⟩

theorem inRange_raOffset (h : Frame.Fits m fn fr) (hcall : fr.hasCall = true) :
    InRange fr.raOffset := by
  have hsize := size_nonneg h
  have hsmall := h.small
  rw [h.raOffset hcall]
  exact ⟨by omega, by omega⟩

theorem inRange_ofDims {ds : List Nat} (h : Shaped ds) : InRange (Ty.ofDims ds).size := by
  have hle : product ds ≤ 0x10000000 := h.2
  rw [size_ofDims h]
  exact ⟨by omega, by omega⟩

theorem inRange_pointee {bb src index : Nat} {e ty : Ty}
    (h : InstOk m f fn bb (.getPtr src index) ty) (hty : m.tyOf src = .ptr e) : InRange e.size := by
  cases h with
  | plain _ ht =>
    cases ht with
    | getPtr hds hsrc =>
      cases hsrc.tyOf_eq.symm.trans hty
      exact inRange_ofDims hds
  | leave _ hl => cases hl

theorem inRange_element {bb src index : Nat} {e ty : Ty} {n : Int}
    (h : InstOk m f fn bb (.getElemPtr src index) ty) (hty : m.tyOf src = .ptr (.array e n)) :
    InRange e.size := by
  cases h with
  | plain _ ht =>
    cases ht with
    | getElemPtr hds hsrc =>
      cases hsrc.tyOf_eq.symm.trans hty
      exact inRange_ofDims hds.tail
  | leave _ hl => cases hl

theorem lt_params_of_operand {bb x i : Nat} {node : Node} {ty : Ty} (h : InstOk m f fn bb node ty)
    (hx : x ∈ node.operands) (hnode : m.node? x = some (.arg i)) : i < fn.params.length := by
  obtain ⟨v, hv, hvnode⟩ := Option.map_eq_some_iff.mp hnode
  rcases h.operand_cases hx with ⟨_, ⟨w, hw, -, hread⟩, -⟩ | ⟨w, j, hw, hwnode, -, -, hj, -⟩
  · obtain rfl := Option.some.inj (hv.symm.trans hw)
    simp [Value.IsReadable, hvnode] at hread
  · obtain rfl := Option.some.inj (hv.symm.trans hw)
    obtain rfl : i = j := by simpa [hvnode] using hwnode
    exact (List.getElem?_eq_some_iff.mp hj).1

theorem Stems.inRange (hfin : Finished m f fn) (hfits : Frame.Fits m fn fr) (hreach : Reaches fn fr)
    {bb id : Nat} {v : Value} (hid : id ∈ fn.code bb) (hv : m.value? id = some v) {i : Instr}
    (h : Stems ⟨.rv32, m, fr⟩ v.node i) {c : Int} (hc : i.constant? = some c) : InRange c := by
  obtain ⟨w, hw, -, -, hok⟩ := hfin.inst bb id hid
  obtain rfl := Option.some.inj (hv.symm.trans hw)
  have hsize := size_nonneg hfits
  have hsmall := hfits.small
  have hout := hfits.outArgs
  have hlocals := hfits.locals
  cases h with
  | plain hplain =>
    rw [hplain.2] at hc
    cases hc
  | «global» | jump | branch | call => cases hc
  | integer rd hnode =>
    cases hc
    rename_i w
    have hlt := w.toInt_lt
    have hle := w.le_toInt
    exact ⟨by omega, by omega⟩
  | slot rd hslot =>
    cases hc
    obtain ⟨-, hlow, hhigh, -, w, -, hneed, hpos, -⟩ := hfits.slot _ _ hslot
    exact ⟨by dsimp only at *; omega, by dsimp only at *; omega⟩
  -- how far up an argument is depends on the size of the frame: this is where the reach is needed
  | @incoming x k rd hx hnode hi =>
    cases hc
    have hlt := lt_params_of_operand hok hx hnode
    have hk : 8 ≤ k := by
      simp only [Machine.rv32] at hi
      omega
    refine ⟨?_, hreach k hk hlt⟩
    simp only [Frame.incomingOffset, Machine.rv32]
    omega
  | outgoing rd hnode hlen hi =>
    cases hc
    have hargs := (hfits.calls id ((Frame.mem_insts hfin).mpr ⟨bb, hid⟩) v _ _ hv hnode).2
    simp only [Machine.rv32] at hi
    simp only [InRange, Frame.outgoingOffset, Machine.rv32]
    omega
  | pointee rd hnode hty =>
    cases hc
    exact inRange_pointee (hnode ▸ hok) hty
  | element rd hnode hty =>
    cases hc
    exact inRange_element (hnode ▸ hok) hty
  | link rd hcall =>
    cases hc
    exact inRange_raOffset hfits hcall
  | close rd =>
    cases hc
    exact (inRange_size hfits).1

theorem reaches_of_inRange {p : Program} (hp : p.lower = .ok m) (hls : emit .rv32 m = .ok ls)
    (hfin : Finished m f fn) (hfr : Frame.ofFunc .rv32 m fn = .ok fr)
    (h : ∀ i ∈ instrs ls, ∀ c, i.constant? = some c → InRange c) : Reaches fn fr := by
  obtain ⟨scope, hready⟩ := ready_of_lower hp
  intro k hk hlen
  by_cases himm : fitsImm12 (Frame.incomingOffset .rv32 fr k) = true
  · simp only [fitsImm12, Bool.and_eq_true, decide_eq_true_eq] at himm
    omega
  -- the argument and the place where it is copied
  obtain ⟨-, hargs, -⟩ := hready.sound.funcs f fn hfin.found
  have hlen' : k < fn.args.length := by
    have := hargs.length_eq
    rw [List.length_zipIdx] at this
    omega
  obtain ⟨w, hw, hwnode, -⟩ := hargs.get hlen' (by simpa using hlen)
  have hlayout : fn.layout ≠ #[] := by
    intro hnil
    have := hfin.isDeclared
    rw [Func.isDeclared, hnil] at this
    cases this
  obtain ⟨span, d, t, s₀, s₁, s₂, s₃, -, rfl, hlowered⟩ :=
    recorded_of_lower hp f fn hfin.found hlayout
  obtain ⟨fn', id, v, dest, hf', hid, hv, hnode⟩ :=
    hlowered.copied fn.args[k] (List.getElem_mem hlen')
  obtain rfl := Option.some.inj (hfin.found.symm.trans hf')
  -- its code
  obtain ⟨gs, qss, hloaded, -, hqss⟩ := loaded_of_emit (b := .small) hls
  obtain ⟨l, qs, r, hsplit, fr', bs, hfr', rfl, hbs⟩ := exists_pieces hqss hfin
  obtain rfl : fr = fr' := by
    rw [hfr] at hfr'
    exact Except.ok.inj hfr'
  obtain ⟨l', q, r', rfl, -, hcode⟩ := exists_split hbs (List.mem_of_mem_head? hfin.first)
  obtain ⟨part, hpart, hsub⟩ := exists_emitInst hid hcode
  have hmem : .li .t0 (Frame.incomingOffset .rv32 fr k) ∈ part := by
    rw [emitInst] at hpart
    simp only [Module.node?_eq hv, hnode] at hpart
    obtain ⟨read, hread, hpart⟩ := bind_eq_ok.mp hpart
    have hli : .li .t0 (Frame.incomingOffset .rv32 fr k) ∈ read := by
      have hregs : ¬(k : Int) < Machine.rv32.argRegs := by
        simp only [Machine.rv32]
        omega
      have hw' : m.value? fn.args[k] = some w := hw
      have hwnode' : w.node = .arg k := by simpa using hwnode
      simp only [loadValue, hw', hwnode', if_neg hregs] at hread
      cases hread
      exact li_mem_loadSp (by simpa using himm)
    split at hpart
    · obtain ⟨s, -, hpart⟩ := bind_eq_ok.mp hpart
      cases hpart
      exact List.mem_append_left _ hli
    · obtain ⟨place, -, hpart⟩ := bind_eq_ok.mp hpart
      cases hpart
      exact List.mem_append_left _ (List.mem_append_left _ hli)
  refine (h (.li .t0 (Frame.incomingOffset .rv32 fr k)) ?_ _ rfl).2
  rw [← code_ofLines .small, hloaded.code, hsplit]
  simp only [List.flatMap_append, List.mem_append, List.flatMap_cons]
  exact .inl (.inr (.inr (.inr (.inl (hsub hmem)))))

/-- All constants of the code are numbers of 32 bits exactly if every function finds its arguments
at such offsets. -/
theorem constants_inRange_iff {p : Program} (hp : p.lower = .ok m) (hls : emit .rv32 m = .ok ls) :
    (∀ i ∈ instrs ls, ∀ c, i.constant? = some c → InRange c) ↔
      ∀ fn ∈ m.funcs.toList, ∀ fr, Frame.ofFunc .rv32 m fn = .ok fr → Reaches fn fr := by
  obtain ⟨scope, hready⟩ := ready_of_lower hp
  constructor
  · intro h fn hfn fr hfr
    have hdecl : fn.isDeclared = false := by
      rw [Frame.ofFunc] at hfr
      split at hfr
      · cases hfr
      · simpa using ‹¬fn.isDeclared = true›
    obtain ⟨f, hfin⟩ := hready.sound.finished hfn hdecl
    exact reaches_of_inRange hp hls hfin hfr h
  · intro h i hi c hc
    obtain ⟨f, fn, fr, hfin, hfr, hfits, hprologue | ⟨bb, id, v, hid, hv, hstems⟩⟩ :=
      instr_cases hready.sound hls hi
    · rcases mem_prologue hprologue with hplain | rfl | ⟨hcall, rfl⟩
      · rw [hplain.2] at hc
        cases hc
      · cases hc
        exact (inRange_size hfits).2
      · cases hc
        exact inRange_raOffset hfits hcall
    · exact hstems.inRange hfin hfits (h fn (Module.mem_funcs hfin.found) fr hfr) hid hv hc

/-- A function whose frame is as large as a frame can be, with arguments on the stack above it:
`void f(int p0, …, int p16) { int a[268435456], b[268435429]; a[0] = 1; b[0] = 1; }`. -/
def farSample : Program where
  span := {}
  items := [.func {} {
    name := "f", nameSpan := {}, isVoid := true, bodySpan := {}
    params := (List.range 17).map fun i => ⟨s!"p{i}", {}, none⟩
    body := [
      .decl {}
        { isConst := false,
          defs := [⟨"a", {}, [.lit {} 268435456], none⟩, ⟨"b", {}, [.lit {} 268435429], none⟩] },
      .assign {} {} "a" [.lit {} 0] (.lit {} 1),
      .assign {} {} "b" [.lit {} 0] (.lit {} 1)] }]

theorem exists_constant_farSample : ∃ m ls, farSample.lower = .ok m ∧ emit .rv32 m = .ok ls ∧
    ∃ i ∈ instrs ls, i.constant? = some 0x80000000 := by
  have hany : (assembly? farSample).map (fun q => (instrs q.2).any (·.constant? == some 0x80000000))
    = some true := by
    decide +kernel
  obtain ⟨⟨m, ls⟩, heq, hany⟩ := Option.map_eq_some_iff.mp hany
  obtain ⟨hm, hls⟩ := of_assembly? heq
  obtain ⟨i, hi, hc⟩ := List.any_eq_true.mp hany
  exact ⟨m, ls, hm, hls, i, hi, by simpa using hc⟩

theorem constants_inRange_iff_farSample :
    ∃ m ls, farSample.lower = .ok m ∧ emit .rv32 m = .ok ls ∧
      ¬∀ fn ∈ m.funcs.toList, ∀ fr, Frame.ofFunc .rv32 m fn = .ok fr → Reaches fn fr := by
  obtain ⟨m, ls, hm, hls, i, hi, hc⟩ := exists_constant_farSample
  refine ⟨m, ls, hm, hls, fun hreach => ?_⟩
  have := (constants_inRange_iff hm hls).mpr hreach i hi _ hc
  exact absurd this (by decide)

/-- Code is emitted with a constant of more than 32 bits. -/
theorem not_forall_inRange : ¬∀ p m ls, Program.lower p = .ok m → emit .rv32 m = .ok ls →
    ∀ i ∈ instrs ls, ∀ c, i.constant? = some c → InRange c := by
  intro h
  obtain ⟨m, ls, hm, hls, i, hi, hc⟩ := exists_constant_farSample
  exact absurd (h _ m ls hm hls i hi _ hc) (by decide)

end Sysy.Assembly
