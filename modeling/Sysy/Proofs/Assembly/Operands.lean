import Sysy.Proofs.Assembly.Memory

/-!
How instructions read and save values. Every operand of an instruction can be put into a register
that then represents it, and a result goes to the slot of its instruction.
-/

namespace Sysy.Assembly
open Ir Lowering

variable {b : Board} {m : Module} {img : Image} {v : View} {next : Nat} {c : Core}

/-- What is known of an activation with the stack pointer `s`: its code is that of a block, its
locals have their regions, and what it has not run yet in its entry has no value. -/
structure Active (m : Module) (place : Region → Option Int) (next : Nat) (s : Int)
    (a : Activation) : Prop where
  code : ∃ fn, Finished m a.func fn ∧ a.rest <:+ fn.code a.block
  alloc : ∀ id y, m.node? id = some .alloc → a.env id = some y →
    ∃ k ∈ a.locals, y = .addr (.local k) 0 ∧
    k < next ∧ ∀ fr slot, frameOf m a.func = some fr → fr.slot? id = some slot →
      place (.local k) = some (s + slot.offset)
  untouched : a.block = 1 → ∀ id ∈ a.rest, a.env id = none

structure Staged (b : Board) (m : Module) (img : Image) (v : View) (next : Nat) : Prop where
  laid : Laid b m img v
  fresh : ∀ k, next ≤ k → v.mem (.local k) = none ∧ v.place (.local k) = none
  active : ∀ d a s, frameAt? b m v.acts d = some (a, s) → Active m v.place next s a

structure Held (b : Board) (m : Module) (v : View) (c : Core) : Prop where
  agree : Agree b m v c.mem
  sp : c.regs .sp = BitVec.ofInt 32 (stackPointer b m v.acts)

theorem Held.keeps {c' : Core} {rs : List Reg} (h : Held b m v c) (hmem : c'.mem = c.mem)
    (hkeeps : c.Keeps rs c') (hsp : .sp ∉ rs) : Held b m v c' :=
  ⟨by rw [hmem]; exact h.agree, by rw [hkeeps .sp hsp]; exact h.sp⟩

theorem Staged.pointsTo (h : Staged b m img v next) (hc : Held b m v c) :
    PointsTo b (c.regs .sp) (stackPointer b m v.acts) := by
  have hroom := h.laid.room
  have hbase := b.base_nonneg
  have hend : b.base ≤ img.dataEnd b := by rw [Image.dataEnd]; omega
  exact ⟨hc.sp, by omega, (h.laid.staffed.stackPointer).1⟩

def Symbols (m : Module) (img : Image) : Prop := ∀ id ∈ m.globals, ∃ x, globalAddr m img id = some x

section
variable {top : Activation} {outer : List Activation} {mem : Region → Option (List Val)}
  {place : Region → Option Int} {links : List Word} {fn : Func} {fr : Frame}

theorem frameAt?_self : frameAt? b m (top :: outer) outer.length =
    some (top, stackPointer b m (top :: outer)) := frameAt?_cons.mpr (.inl ⟨rfl, rfl, rfl⟩)

theorem loadValue_slot {rd : Reg} {id : ValueId} {w : Value} {slot : Slot}
    (hw : m.value? id = some w) (hint : ∀ x, w.node ≠ .integer x) (harg : ∀ i, w.node ≠ .arg i)
    (hglobal : ∀ g, w.node ≠ .global g) (hslot : fr.slot? id = some slot) :
    loadValue ⟨.rv32, m, fr⟩ rd id =
      .ok (if w.node.isAlloc then addrSp rd slot.offset else loadSp rd rd slot.offset) := by
  simp only [loadValue, hw, hslot]

theorem read_env {id : ValueId} {w : Value} (hw : m.value? id = some w)
    (hint : ∀ x, w.node ≠ .integer x) (harg : ∀ i, w.node ≠ .arg i)
    (hglobal : ∀ g, w.node ≠ .global g) :
    top.read m id = top.env id := by
  simp only [Activation.read, Module.node?_eq hw, bind, Option.bind]

theorem isAlloc_iff {w : Value} : w.node.isAlloc = true ↔ w.node = .alloc := by
  cases w.node <;> simp [Node.isAlloc]

theorem Staged.load_slot (h : Staged b m img ⟨top :: outer, mem, place, links⟩ next)
    (hc : Held b m ⟨top :: outer, mem, place, links⟩ c) (hfr : frameOf m top.func = some fr)
    {x : ValueId} {w : Value} {slot : Slot} {y : Val} (hw : m.value? x = some w)
    (hslot : fr.slot? x = some slot) (henv : top.env x = some y) {rd : Reg} (hrd : rd ≠ .sp) : ∃ c',
    execAll b img (if w.node.isAlloc then addrSp rd slot.offset else loadSp rd rd slot.offset)
      c = some c' ∧ c'.mem = c.mem ∧ c.Keeps [rd] c' ∧ Rep place y (c'.regs rd) := by
  have hat : frameAt? b m (top :: outer) outer.length = _ := frameAt?_self
  split
  · rename_i halloc
    obtain ⟨c', hrun, hmem, hkeeps, hval⟩ := addrSp_spec (b := b) img hc.sp hrd slot.offset
    refine ⟨c', hrun, hmem, hkeeps, ?_⟩
    have hnode : m.node? x = some .alloc := by rw [Module.node?_eq hw, isAlloc_iff.mp halloc]
    obtain ⟨k, -, rfl, -, hplace⟩ := (h.active _ _ _ hat).alloc x y hnode henv
    exact ⟨_, hplace fr slot hfr hslot, by rw [hval, Int.add_zero]⟩
  · rename_i halloc
    have hnode : m.node? x ≠ some .alloc := by
      rw [Module.node?_eq hw]
      exact fun heq => halloc (isAlloc_iff.mpr (Option.some.inj heq))
    have hloc := Located.slot (v := ⟨top :: outer, mem, place, links⟩) hat hfr hslot hnode
    obtain ⟨c', hrun, hmem, hkeeps, hval⟩ :=
      loadSp_spec img (h.pointsTo hc) (h.laid.has hloc) rd hrd
    refine ⟨c', hrun, hmem, hkeeps.mono (by simp), ?_⟩
    rw [hval]
    exact hc.agree _ _ _ hloc (.slot hat henv)

/-- An instruction that is read by another has a slot. -/
theorem Framed.slot {f : FuncId} (hf : Framed m f fn fr) {x y : ValueId} {u w : Value}
    (hu : m.value? y = some u) (hx : x ≠ 0 → x ∈ u.node.operands) (hw : m.value? x = some w)
    (hfunc : w.func = f) (harg : ∀ i, w.node ≠ .arg i) : ∃ slot, fr.slot? x = some slot := by
  have hused : Frame.Used m x :=
    ⟨y, (hf.linked.uses x y).mpr ⟨u, hu, hx (Nat.ne_of_gt (Module.bounds_of_value? hw).1)⟩⟩
  exact hf.fits.total x ((Frame.mem_insts hf.finished).mpr ⟨_,
    hf.finished.own x w hw hfunc harg⟩) hused

theorem Staged.load (h : Staged b m img ⟨top :: outer, mem, place, links⟩ next)
    (hc : Held b m ⟨top :: outer, mem, place, links⟩ c) (hsym : Symbols m img) (hsound : Sound m)
    (hf : Framed m top.func fn fr) (hfr : frameOf m top.func = some fr) {x y : ValueId} {u : Value}
    {ty : Ty} (hu : m.value? y = some u) (hr : m.Readable top.func x ty)
    (hx : x ≠ 0 → x ∈ u.node.operands) {val : Val} (hread : top.read m x = some val) {rd : Reg}
    (hrd : rd ≠ .sp) : ∃ code c',
    loadValue ⟨.rv32, m, fr⟩ rd x = .ok code ∧ execAll b img code c = some c' ∧ c'.mem = c.mem ∧
      c.Keeps [rd] c' ∧ Rep place val (c'.regs rd) := by
  obtain ⟨w, hw, -, hreadable⟩ := hr
  by_cases hint : ∃ n, w.node = .integer n
  · obtain ⟨n, hnode⟩ := hint
    obtain rfl : val = .word n := by
      simpa only [Activation.read, Module.node?_eq hw, hnode, bind, Option.bind, Option.some.injEq,
        eq_comm] using hread
    refine ⟨[.li rd n.toInt], c.set rd (BitVec.ofInt 32 n.toInt), by
      simp only [loadValue, hw, hnode], rfl, rfl,
      .set (by simp) _, ?_⟩
    rw [Core.regs_set_self, BitVec.ofInt_toInt]
    exact rfl
  by_cases hglobal : ∃ g, w.node = .global g
  · obtain ⟨g, hnode⟩ := hglobal
    obtain rfl : val = .addr (.global x) 0 := by
      simpa only [Activation.read, Module.node?_eq hw, hnode, bind, Option.bind, Option.some.injEq,
        eq_comm] using hread
    have hmem : x ∈ m.globals := hsound.listed x w g hw hnode
    obtain ⟨a, ha⟩ := hsym x hmem
    have hlookup : img.symbols.lookup (symbol w.name) = some a := by
      rw [globalAddr, hw] at ha
      exact ha
    refine ⟨[.la rd (symbol w.name)], c.set rd (BitVec.ofInt 32 a), by
      simp only [loadValue, hw, hnode], ?_, rfl,
      .set (by simp) _, ?_⟩
    · refine execAll_single ?_
      rw [exec, hlookup]
      rfl
    · rw [Core.regs_set_self]
      exact ⟨a, (h.laid.symbol x hmem).trans ha, by rw [Int.add_zero]⟩
  -- neither a number nor a global: the value has a slot in the frame
  push Not at hint hglobal
  obtain ⟨hfunc, harg⟩ : w.func = top.func ∧ ∀ i, w.node ≠ .arg i := by
    rcases hreadable.cases with ⟨n, hn⟩ | ⟨g, hg⟩ | hown
    · exact absurd hn (hint n)
    · exact absurd hg (hglobal g)
    · exact hown
  obtain ⟨slot, hslot⟩ := hf.slot hu hx hw hfunc harg
  rw [read_env hw hint harg hglobal] at hread
  obtain ⟨c', hrun⟩ := h.load_slot hc hfr hw hslot hread hrd
  exact ⟨_, c', loadValue_slot hw hint harg hglobal hslot, hrun⟩

theorem Staged.advance {top' : Activation}
    (h : Staged b m img ⟨top :: outer, mem, place, links⟩ next) (hf : top'.func = top.func)
    (hlocals : top'.locals = top.locals)
    (henv : ∀ id, m.node? id = some .alloc → top'.env id = top.env id)
    (hcode : ∃ fn, Finished m top.func fn ∧ top'.rest <:+ fn.code top'.block)
    (huntouched : top'.block = 1 → ∀ id ∈ top'.rest, top'.env id = none) :
    Staged b m img ⟨top' :: outer, mem, place, links⟩ next := by
  refine ⟨h.laid.advance hf henv, h.fresh, fun d a s ha => ?_⟩
  rcases frameAt?_top hf ha with ⟨-, rfl, ha₀⟩ | ⟨-, ha⟩
  · have hactive := h.active _ _ _ ha₀
    refine ⟨by rw [hf]; exact hcode, fun id y hnode hy => ?_, huntouched⟩
    rw [henv id hnode] at hy
    rw [hlocals, hf]
    exact hactive.alloc id y hnode hy
  · exact h.active _ _ _ ha

theorem Staged.save (h : Staged b m img ⟨top :: outer, mem, place, links⟩ next)
    (hc : Held b m ⟨top :: outer, mem, place, links⟩ c) (hfr : frameOf m top.func = some fr)
    {id : ValueId} (hnode : m.node? id ≠ some .alloc) {y : Val} {rs tmp : Reg}
    (hrep : Rep place y (c.regs rs)) (htmp : tmp ≠ .sp) (hrs : rs ≠ tmp) :
    ∃ c', execAll b img (saveResult ⟨.rv32, m, fr⟩ id rs tmp) c = some c' ∧
      c.Keeps [tmp] c' ∧ Held b m ⟨top.set id y :: outer, mem, place, links⟩ c' := by
  rw [saveResult]
  cases hslot : fr.slot? id with
  | none => exact ⟨c, rfl, .refl _ _, hc.agree.drop hfr hslot, hc.sp⟩
  | some slot =>
    have hloc : Located b m ⟨top :: outer, mem, place, links⟩ _ _ :=
      .slot frameAt?_self hfr hslot hnode
    obtain ⟨c', hrun, hmem, hkeeps⟩ := storeSp_spec img (h.pointsTo hc) (h.laid.has hloc) htmp hrs
    refine ⟨c', hrun, hkeeps, ?_, ?_⟩
    · rw [hmem]
      exact hc.agree.set h.laid hfr hslot hnode hrep
    · rw [hkeeps .sp (by simpa using htmp.symm)]
      exact hc.sp

def passArg (env : Env) (i : Nat) (x : ValueId) : Emit :=
  if (i : Int) < env.machine.argRegs then loadValue env (.a i) x
  else do
    let read ← loadValue env .t0 x
    return read ++ storeSp .t0 .t1 (Frame.outgoingOffset env.machine i)

theorem emitArgs_cons (env : Env) (i : Nat) (x : ValueId) (args : List ValueId) :
    emitArgs env i (x :: args) = (do
      let pass ← passArg env i x
      return pass ++ (← emitArgs env (i + 1) args)) := by
  rw [emitArgs, passArg]
  split
  · rfl
  · cases loadValue env .t0 x <;> rfl

theorem Staged.pass_one (h : Staged b m img ⟨top :: outer, mem, place, links⟩ next)
    (hc : Held b m ⟨top :: outer, mem, place, links⟩ c) (hfr : frameOf m top.func = some fr)
    {i : Nat} (hi : 4 * ((i + 1 : Nat) - 8 : Int) ≤ fr.outArgs) {x : ValueId} {val : Val}
    (hload : ∀ rd, rd ≠ .sp → ∃ code c', loadValue ⟨.rv32, m, fr⟩ rd x = .ok code ∧
      execAll b img code c = some c' ∧ c'.mem = c.mem ∧ c.Keeps [rd] c' ∧
        Rep place val (c'.regs rd)) : ∃ code c', passArg ⟨.rv32, m, fr⟩ i x = .ok code ∧
      execAll b img code c = some c' ∧ Held b m ⟨top :: outer, mem, place, links⟩ c' ∧
      c.Keeps [.a i, .t0, .t1] c' ∧
      (∀ k : Nat, k + 8 ≠ i → c'.mem (stackPointer b m (top :: outer) + 4 * k) =
        c.mem (stackPointer b m (top :: outer) + 4 * k)) ∧
      (i < 8 → Rep place val (c'.regs (.a i))) ∧
      ∀ j : Nat, i = 8 + j → Rep place val (c'.mem (stackPointer b m (top :: outer) + 4 * j)) := by
  have hregs : (⟨.rv32, m, fr⟩ : Env).machine.argRegs = 8 := rfl
  rw [passArg, hregs]
  by_cases hlt : i < 8
  · rw [if_pos (show (i : Int) < 8 by omega)]
    obtain ⟨code, c', hcode, hrun, hmem, hkeeps, hrep⟩ := hload (.a i) (by simp)
    exact ⟨code, c', hcode, hrun, hc.keeps hmem hkeeps (by simp), hkeeps.mono (by simp),
      fun k _ => by rw [hmem], fun _ => hrep, fun j hj => by omega⟩
  · rw [if_neg (show ¬ (i : Int) < 8 by omega)]
    obtain ⟨j, rfl⟩ : ∃ j, i = 8 + j := ⟨i - 8, by omega⟩
    obtain ⟨code, c₁, hcode, hrun, hmem, hkeeps, hrep⟩ := hload .t0 (by simp)
    have hc₁ := hc.keeps hmem hkeeps (by simp)
    have hloc : Located b m ⟨top :: outer, mem, place, links⟩ (.out outer.length j) _ :=
      .out frameAt?_self hfr (by push_cast at hi; omega)
    have hoff : Frame.outgoingOffset .rv32 (8 + j) = 4 * j := by
      rw [Frame.outgoingOffset]
      simp only [Machine.rv32]
      push_cast
      ring
    obtain ⟨c₂, hrun₂, hmem₂, hkeeps₂⟩ := storeSp_spec img (h.pointsTo hc₁) (h.laid.has hloc)
      (show Reg.t1 ≠ .sp by simp) (show Reg.t0 ≠ .t1 by simp)
    -- nothing is expected in the area for arguments until the function is called
    have hnone : ∀ y, ¬ Content b m ⟨top :: outer, mem, place, links⟩ (.out outer.length j) y := by
      intro y hy
      cases hy with
      | out hacts hd =>
        cases hacts
        omega
    refine ⟨code ++ storeSp .t0 .t1 (4 * j), c₂, ?_, execAll_trans hrun hrun₂, ⟨?_, ?_⟩, ?_,
      fun k hk => ?_,
      fun hlt' => absurd hlt' hlt, fun j' hj' => ?_⟩
    · rw [hcode, hoff]
      rfl
    · rw [hmem₂]
      exact hc₁.agree.scratch h.laid hloc hnone
    · rw [hkeeps₂ .sp (by simp)]
      exact hc₁.sp
    · exact (hkeeps.mono (by simp)).trans (hkeeps₂.mono (by simp))
    · have hne : stackPointer b m (top :: outer) + 4 * k ≠ stackPointer b m (top :: outer) + 4 *
        j := by omega
      rw [hmem₂, Function.update_of_ne hne, hmem]
    · obtain rfl : j' = j := by omega
      rw [hmem₂, Function.update_self]
      exact hrep

theorem Staged.pass (h : Staged b m img ⟨top :: outer, mem, place, links⟩ next)
    (hsym : Symbols m img) (hsound : Sound m) (hf : Framed m top.func fn fr)
    (hfr : frameOf m top.func = some fr) {y : ValueId} {u : Value} (hu : m.value? y = some u)
    {args : List ValueId} (hr : ∀ x ∈ args, ∃ ty, m.Readable top.func x ty)
    (hx : ∀ x ∈ args, x ≠ 0 → x ∈ u.node.operands) : ∀ {vals : List Val} (i : Nat) {c : Core},
    args.mapM (top.read m) = some vals → 4 * ((i + args.length : Nat) - 8 : Int) ≤ fr.outArgs →
    Held b m ⟨top :: outer, mem, place, links⟩ c → ∃ code c',
      emitArgs ⟨.rv32, m, fr⟩ i args = .ok code ∧ execAll b img code c = some c' ∧
        Held b m ⟨top :: outer, mem, place, links⟩ c' ∧ c'.regs .ra = c.regs .ra ∧
        (∀ k < i, c'.regs (.a k) = c.regs (.a k)) ∧
        (∀ k : Nat, k + 8 < i → c'.mem (stackPointer b m (top :: outer) + 4 * k) =
          c.mem (stackPointer b m (top :: outer) + 4 * k)) ∧
        (∀ k v, vals[k]? = some v → i + k < 8 → Rep place v (c'.regs (.a (i + k)))) ∧
        ∀ k j v, vals[k]? = some v → i + k = 8 + j →
          Rep place v (c'.mem (stackPointer b m (top :: outer) + 4 * j)) := by
  induction args with
  | nil =>
    intro vals i c hvals _ hc
    obtain rfl : vals = [] := by simpa using hvals.symm
    exact ⟨[], c, rfl, rfl, hc, rfl, fun _ _ => rfl, fun _ _ => rfl, by simp, by simp⟩
  | cons x args ih =>
    intro vals i c hvals hroom hc
    rw [List.mapM_cons] at hvals
    obtain ⟨v, hv, hvals⟩ := Option.bind_eq_some_iff.mp hvals
    obtain ⟨vs, hvs, hvals⟩ := Option.bind_eq_some_iff.mp hvals
    obtain rfl : vals = v :: vs := by simpa using hvals.symm
    obtain ⟨ty, hread⟩ := hr x (List.mem_cons_self ..)
    rw [List.length_cons] at hroom
    obtain ⟨code₁, c₁, hcode₁, hrun₁, hc₁, hkeeps₁, hmem₁, hreg₁, hstack₁⟩ := h.pass_one hc hfr
      (i := i) (by push_cast at hroom ⊢; omega) fun rd hrd =>
        h.load hc hsym hsound hf hfr hu hread (hx x (List.mem_cons_self ..)) hv hrd
    obtain ⟨code₂, c₂, hcode₂, hrun₂, hc₂, hra₂, hkeeps₂, hmem₂, hreg₂, hstack₂⟩ :=
      ih (fun x hx => hr x (List.mem_cons_of_mem _ hx))
        (fun z hz => hx z (List.mem_cons_of_mem _ hz)) (i + 1) hvs
        (by push_cast at hroom ⊢; omega) hc₁
    -- the arguments behind the first one leave alone where it was put: each has a register or a
    -- word of its own
    refine ⟨code₁ ++ code₂, c₂, ?_, execAll_trans hrun₁ hrun₂, hc₂,
      hra₂.trans (hkeeps₁ .ra (by simp)),
      fun k hk => ?_, fun k hk => ?_, fun k w hw hlt => ?_, fun k j w hw hj => ?_⟩
    · simp only [emitArgs_cons, bind, Except.bind, hcode₁, hcode₂]
      rfl
    · rw [hkeeps₂ k (by omega), hkeeps₁ (.a k) (by simp; omega)]
    · rw [hmem₂ k (by omega), hmem₁ k (by omega)]
    · cases k with
      | zero =>
        obtain rfl : v = w := by simpa using hw
        rw [Nat.add_zero] at hlt ⊢
        rw [hkeeps₂ i (by omega)]
        exact hreg₁ hlt
      | succ k =>
        have := hreg₂ k w (by simpa using hw) (by omega)
        rwa [Nat.add_right_comm, Nat.add_assoc] at this
    · cases k with
      | zero =>
        obtain rfl : v = w := by simpa using hw
        rw [hmem₂ j (by omega)]
        exact hstack₁ j (by omega)
      | succ k => exact hstack₂ k j w (by simpa using hw) (by omega)

end

end Sysy.Assembly
