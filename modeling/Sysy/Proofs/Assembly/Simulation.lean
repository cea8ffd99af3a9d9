import Sysy.Proofs.Assembly.Effects

/-!
The machine simulates the intermediate code. A state of the machine represents one of a run when the
frames of all activations hold what these have computed and every return address leads to the code
behind the call. Every step of the run is one or more steps of the machine.
-/

namespace Sysy.Assembly
open Ir Lowering

variable {b : Board} {m : Module} {img : Image} {lib : Library}

/-- The image holds the code of a sound module: that of its functions and of their blocks behind
their labels, and its globals behind their symbols. -/
structure Installed (b : Board) (m : Module) (img : Image) : Prop where
  sound : Sound m
  symbols : Symbols m img
  short : (img.code.length : Int) < 0x80000000
  func : ∀ f fn, Finished m f fn → ∃ fr n code, frameOf m f = some fr ∧ Frame.Fits m fn fr ∧
    Service.ofName? fn.name = none ∧ img.labels.lookup fn.name = some n ∧
    emitInsts ⟨.rv32, m, fr⟩ (fn.code 1) = .ok code ∧ CodeAt img n (prologue fr ++ code)
  block : ∀ f fn fr, Finished m f fn → frameOf m f = some fr → ∀ bb ∈ fn.layout.toList, ∃ n code,
    img.labels.lookup (fr.label bb) = some n ∧ emitInsts ⟨.rv32, m, fr⟩ (fn.code bb) = .ok code ∧
    CodeAt img n code

theorem Installed.framed (hi : Installed b m img) {f : FuncId} {fn : Func} (h : Finished m f fn) :
    ∃ fr, frameOf m f = some fr ∧ Framed m f fn fr := by
  obtain ⟨fr, n, code, hfr, hfits, -⟩ := hi.func f fn h
  exact ⟨fr, hfr, h, hi.sound.linked, hfits⟩

/-- Every return address leads behind the call of the next activation, and the last one stops the
machine. -/
inductive Chain (m : Module) (img : Image) : List Activation → List Word → Prop
  | bottom (a : Activation) : Chain m img [a] [-1]
  | call {a c : Activation} {outer : List Activation} {w : Word} {ws : List Word} {id : ValueId}
      {rest args : List ValueId} {fr : Frame} {n : Nat} {code : List Instr}
        (hc : c.rest = id :: rest)
      (hnode : m.node? id = some (.call a.func args)) (hfr : frameOf m c.func = some fr)
      (hcode : emitInsts ⟨.rv32, m, fr⟩ rest = .ok code)
      (hat : CodeAt img n (saveResult ⟨.rv32, m, fr⟩ id (.a 0) .t0 ++ code))
        (hn : n ≤ img.code.length)
      (hw : w = BitVec.ofInt 32 n) (hrest : Chain m img (c :: outer) ws) :
        Chain m img (a :: c :: outer) (w :: ws)

theorem Chain.length {acts : List Activation} {ws : List Word} (h : Chain m img acts ws) :
    ws.length = acts.length := by
  induction h with
  | bottom => rfl
  | call _ _ _ _ _ _ _ _ ih => simp [ih]

theorem Chain.top {a a' : Activation} {outer : List Activation} {ws : List Word}
    (h : Chain m img (a :: outer) ws) (hf : a'.func = a.func) : Chain m img (a' :: outer) ws := by
  cases h with
  | bottom => exact .bottom a'
  | call hc hnode hfr hcode hat hn hw hrest =>
    exact .call hc (by rw [hf]; exact hnode) hfr hcode hat hn hw hrest

structure Running (b : Board) (m : Module) (img : Image) (top : Activation)
    (outer : List Activation) (s : Store)
    (place : Region → Option Int) (links : List Word) (n : Nat) (c : Core) : Prop where
  staged : Staged b m img ⟨top :: outer, s.mem, place, links⟩ s.next
  held : Held b m ⟨top :: outer, s.mem, place, links⟩ c
  chain : Chain m img (top :: outer) links
  suspended : ∀ a ∈ outer, a.block ≠ 1
  /-- A function that calls no other keeps its return address in its register. -/
  link : ∀ fr, frameOf m top.func = some fr → fr.hasCall = false → links.head? = some (c.regs .ra)
  /-- In its entry a function still has its arguments. -/
  args : top.block = 1 → ∀ i y, i < 8 → top.args[i]? = some y → Rep place y (c.regs (.a i))
  stackArgs : top.block = 1 → ∀ i, 8 + i < top.args.length → ∃ a rest fr, outer = a :: rest ∧
    frameOf m a.func = some fr ∧ 4 * (i : Int) < fr.outArgs
  code : ∃ fr code, frameOf m top.func = some fr ∧ emitInsts ⟨.rv32, m, fr⟩ top.rest = .ok code ∧
    CodeAt img n code

/-- A state of the machine represents a state of a run. -/
inductive Match (b : Board) (m : Module) (img : Image) : Config → State → Prop
  | running {top : Activation} {outer : List Activation} {s : Store} {place : Region → Option Int}
      {links : List Word} {n : Nat} {c : Core} (h : Running b m img top outer s place links n c) :
      Match b m img (.running top outer s) ⟨n, c, s.trace⟩
  | done {result : Option Val} {s : Store} {place : Region → Option Int} {c : Core}
      (hlaid : Laid b m img ⟨[], s.mem, place, []⟩) (hheld : Held b m ⟨[], s.mem, place, []⟩ c)
      (hresult : ∀ y, result = some y → Rep place y (c.regs (.a 0))) :
      Match b m img (.done result s) ⟨-1, c, s.trace⟩

/-- The stack of a run does not reach the data. -/
def Roomy (b : Board) (m : Module) (img : Image) : Config → Prop
  | .running top outer _ => img.dataEnd b ≤ stackPointer b m (top :: outer)
  | .done _ _ => True

section
variable {top : Activation} {outer : List Activation} {s : Store} {place : Region → Option Int}
  {links : List Word} {n : Nat} {c : Core} {id : ValueId} {rest : List ValueId}

theorem emitInsts_cons {env : Env} {ids : List ValueId} {code : List Instr}
    (h : emitInsts env (id :: ids) = .ok code) : ∃ code₁ code₂, emitInst env id = .ok code₁ ∧
      emitInsts env ids = .ok code₂ ∧ code = code₁ ++ code₂ := by
  rw [emitInsts] at h
  cases h₁ : emitInst env id with
  | error => rw [h₁] at h; cases h
  | ok code₁ =>
    cases h₂ : emitInsts env ids with
    | error => rw [h₁, h₂] at h; cases h
    | ok code₂ =>
      rw [h₁, h₂] at h
      exact ⟨code₁, code₂, rfl, rfl, (Except.ok.inj h).symm⟩

theorem Running.next (hi : Installed b m img) (h : Running b m img top outer s place links n c)
    (hrest : top.rest = id :: rest) : ∃ fn fr u code₁ code₂, Framed m top.func fn fr ∧
      frameOf m top.func = some fr ∧ m.value? id = some u ∧
      InstOk m top.func fn top.block u.node u.ty ∧
      id ∈ fn.code top.block ∧ rest <:+ fn.code top.block ∧ emitInst ⟨.rv32, m, fr⟩ id = .ok code₁ ∧
      emitInsts ⟨.rv32, m, fr⟩ rest = .ok code₂ ∧ CodeAt img n (code₁ ++ code₂) := by
  obtain ⟨fr, code, hfr, hcode, hat⟩ := h.code
  obtain ⟨fn, hfin, hsuffix⟩ := (h.staged.active _ _ _ frameAt?_self).code
  obtain ⟨fr', hfr', hframed⟩ := hi.framed hfin
  obtain rfl := Option.some.inj (hfr.symm.trans hfr')
  rw [hrest] at hcode hsuffix
  have hid : id ∈ fn.code top.block := hsuffix.mem (List.mem_cons_self ..)
  obtain ⟨u, hu, -, -, hok⟩ := hfin.inst _ _ hid
  obtain ⟨code₁, code₂, hcode₁, hcode₂, rfl⟩ := emitInsts_cons hcode
  exact ⟨fn, fr, u, code₁, code₂, hframed, hfr, hu, hok, hid,
    (List.suffix_cons _ _).trans hsuffix, hcode₁,
    hcode₂, hat⟩

theorem Running.goes {fr : Frame} {code₁ code₂ : List Instr} {c' : Core} {top' : Activation}
    {s' : Store} (h : Running b m img top outer s place links n c)
    (hfr : frameOf m top.func = some fr) (hcode₂ : emitInsts ⟨.rv32, m, fr⟩ rest = .ok code₂)
    (hat : CodeAt img n (code₁ ++ code₂)) (hne : code₁ ≠ [])
    (hrun : execAll b img code₁ c = some c') (hkeeps : c.Keeps scratch c')
    (hf : top'.func = top.func) (hblock : top'.block = top.block) (hargs : top'.args = top.args)
    (hrest : top'.rest = rest) (htrace : s'.trace = s.trace)
    (hstaged : Staged b m img ⟨top' :: outer, s'.mem, place, links⟩ s'.next)
    (hheld : Held b m ⟨top' :: outer, s'.mem, place, links⟩ c') : ∃ σ,
    GoesFar b img lib ⟨n, c, s.trace⟩ σ ∧ Match b m img (.running top' outer s') σ := by
  obtain ⟨hgo, hat'⟩ := goesOn_of_execAll lib (t := s.trace) hat hrun
  refine ⟨⟨(n + code₁.length : Nat), c', s'.trace⟩, ?_, .running ⟨hstaged, hheld, h.chain.top hf,
    h.suspended, ?_, ?_,
    ?_, fr, code₂, ?_, ?_, hat'⟩⟩
  · rw [htrace]
    rcases Relation.reflTransGen_iff_eq_or_transGen.mp hgo with heq | hgo
    · have : (n : Int) + code₁.length = n := by simpa using congrArg State.pc heq
      have hlen : code₁.length ≠ 0 := fun h0 => hne (List.length_eq_zero_iff.mp h0)
      omega
    · exact hgo
  · intro fr' hfr' hcall
    rw [hkeeps .ra (by simp [scratch])]
    exact h.link fr' (by rw [← hf]; exact hfr') hcall
  · intro hb i y hi hy
    rw [hkeeps (.a i) (by simp [scratch])]
    exact h.args (by rw [← hblock]; exact hb) i y hi (by rw [← hargs]; exact hy)
  · intro hb i hi
    exact h.stackArgs (by rw [← hblock]; exact hb) i (by rw [← hargs]; exact hi)
  · rw [hf]
    exact hfr
  · rw [hrest]
    exact hcode₂

theorem Running.poised (hi : Installed b m img) (h : Running b m img top outer s place links n c)
    {fn : Func} {fr : Frame} {u : Value} (hf : Framed m top.func fn fr)
    (hfr : frameOf m top.func = some fr) (hu : m.value? id = some u) (hnode : u.node ≠ .alloc) :
    Poised b m img top outer s place links fn fr id u c :=
  ⟨h.staged, h.held, hi.symbols, hi.sound, hf, hfr, hu, hnode⟩

theorem Held.advance {v : View} {top' : Activation}
    (h : Held b m ⟨top :: outer, v.mem, v.place, v.links⟩ c) (hf : top'.func = top.func)
    (henv : top'.env = top.env) (hargs : top'.block = 1 → top.block = 1 ∧ top'.args = top.args) :
    Held b m ⟨top' :: outer, v.mem, v.place, v.links⟩ c :=
  ⟨h.agree.advance hf henv hargs, by rw [stackPointer_top hf]; exact h.sp⟩

theorem Running.gives {fn : Func} {fr : Frame} {u : Value} {code₁ code₂ code : List Instr}
    {c' : Core} {y : Val} (h : Running b m img top outer s place links n c)
    (hf : Framed m top.func fn fr) (hfr : frameOf m top.func = some fr) (hu : m.value? id = some u)
    (hnode : u.node ≠ .alloc) (hblock : top.block ≠ 1) (hsuffix : rest <:+ fn.code top.block)
    (hcode₁ : emitInst ⟨.rv32, m, fr⟩ id = .ok code₁)
    (hcode₂ : emitInsts ⟨.rv32, m, fr⟩ rest = .ok code₂) (hat : CodeAt img n (code₁ ++ code₂))
    (hcode : emitInst ⟨.rv32, m, fr⟩ id = .ok code) (hne : code ≠ [])
    (hrun : execAll b img code c = some c') (hkeeps : c.Keeps scratch c')
    (hheld : Held b m ⟨top.set id y :: outer, s.mem, place, links⟩ c') : ∃ σ,
    GoesFar b img lib ⟨n, c, s.trace⟩ σ ∧
      Match b m img (.running ({ top with rest }.set id y) outer s) σ := by
  obtain rfl : code₁ = code := Except.ok.inj (hcode₁.symm.trans hcode)
  refine h.goes hfr hcode₂ hat hne hrun hkeeps rfl rfl rfl rfl rfl ?_ ?_
  · refine h.staged.advance rfl rfl (fun id' halloc => ?_) ⟨fn, hf.finished, hsuffix⟩ fun hb =>
      absurd hb hblock
    refine Activation.env_set_of_ne { top with rest } y ?_
    rintro rfl
    rw [Module.node?_eq hu] at halloc
    exact hnode (Option.some.inj halloc)
  · exact Held.advance (v := ⟨[], s.mem, place, links⟩) hheld rfl rfl fun hb => ⟨hb, rfl⟩

theorem Running.computes (hi : Installed b m img) (h : Running b m img top outer s place links n c)
    (hrest : top.rest = id :: rest) {u : Value} (hu : m.value? id = some u)
    (hnode : u.node ≠ .alloc) (hblock : top.block ≠ 1) {y : Val}
    (heffect : ∀ fn fr, Poised b m img top outer s place links fn fr id u c →
      ∃ code c', emitInst ⟨.rv32, m, fr⟩ id = .ok code ∧ execAll b img code c = some c' ∧
        c.Keeps scratch c' ∧ code ≠ [] ∧ Held b m ⟨top.set id y :: outer, s.mem, place, links⟩ c') :
    ∃ σ,
    GoesFar b img lib ⟨n, c, s.trace⟩ σ ∧
      Match b m img (.running ({ top with rest }.set id y) outer s) σ := by
  obtain ⟨fn, fr, u', code₁, code₂, hf, hfr, hu', -, -, hsuffix, hcode₁, hcode₂, hat⟩ :=
    h.next hi hrest
  obtain rfl := Option.some.inj (hu.symm.trans hu')
  obtain ⟨code, c', hcode, hrun, hkeeps, hne, hheld⟩ := heffect fn fr (h.poised hi hf hfr hu hnode)
  exact h.gives hf hfr hu hnode hblock hsuffix hcode₁ hcode₂ hat hcode hne hrun hkeeps hheld

theorem Running.typed (hi : Installed b m img) (h : Running b m img top outer s place links n c)
    (hrest : top.rest = id :: rest) {u : Value} (hu : m.value? id = some u) {ty : Ty}
    (ht : Typed m top.func u.node ty) (hstore : ∀ v d, u.node ≠ .store v d)
    (hcall : ∀ g as, u.node ≠ .call g as) (hblock : top.block ≠ 1) {cfg : Config}
    (hexec : Ir.exec m lib id { top with rest } outer s u.node = some cfg) :
    ∃ σ, GoesFar b img lib ⟨n, c, s.trace⟩ σ ∧ Match b m img cfg σ := by
  generalize hn : u.node = node at ht
  rw [hn] at hexec
  cases ht with
  | load hsrc _ =>
    obtain ⟨r, o, y, hx, hy, rfl⟩ := exec_load hexec
    refine h.computes hi hrest hu (by simp [hn]) hblock fun fn fr hp => ?_
    simp only [emitInst, Module.node?_eq hu, hn]
    exact hp.loadWord hn hsrc hx hy
  | store => exact absurd hn (hstore _ _)
  | getPtr _ hsrc hindex =>
    obtain ⟨r, o, i, hx, hidx, rfl⟩ := exec_stride .whole hexec
    have hty := hsrc
    obtain ⟨w, hw, hty, -⟩ := hty
    refine h.computes hi hrest hu (by simp [hn]) hblock fun fn fr hp => ?_
    simp only [emitInst, Module.node?_eq hu, hn, emitGetPtr, Stride.size, Module.tyOf_eq hw,
      hty, Ty.elem]
    exact hp.offset _ (by rw [hn]; rfl) hsrc hindex hx hidx
  | getElemPtr _ hsrc hindex =>
    obtain ⟨r, o, i, hx, hidx, rfl⟩ := exec_stride .element hexec
    have hty := hsrc
    obtain ⟨w, hw, hty, -⟩ := hty
    refine h.computes hi hrest hu (by simp [hn]) hblock fun fn fr hp => ?_
    simp only [emitInst, Module.node?_eq hu, hn, emitGetElemPtr, Stride.size, Module.tyOf_eq hw,
      hty, Ty.elem, Ty.ofDims]
    exact hp.offset _ (by rw [hn]; rfl) hsrc hindex hx hidx
  | binary _ hlhs hrhs =>
    obtain ⟨x, y, z, hx, hy, hz, rfl⟩ := exec_binary hexec
    refine h.computes hi hrest hu (by simp [hn]) hblock fun fn fr hp => ?_
    simp only [emitInst, Module.node?_eq hu, hn]
    exact hp.binary hn hlhs hrhs hx hy hz
  | call => exact absurd hn (hcall _ _)

theorem Running.loadArg (h : Running b m img top outer s place links n c) {fr : Frame}
    (hfr : frameOf m top.func = some fr) (hblock : top.block = 1) {arg i : Nat} {w : Value}
    {y : Val} (hw : m.value? arg = some w) (hnode : w.node = .arg i) (hy : top.args[i]? = some y) :
    ∃ code c',
    loadValue ⟨.rv32, m, fr⟩ .t0 arg = .ok code ∧ execAll b img code c = some c' ∧ c'.mem = c.mem ∧
      c.Keeps [.t0] c' ∧ Rep place y (c'.regs .t0) := by
  have hload : loadValue ⟨.rv32, m, fr⟩ .t0 arg = if (i : Int) < 8 then .ok [.mv .t0 (.a i)]
      else .ok (loadSp .t0 .t0 (Frame.incomingOffset .rv32 fr i)) := by
    simp only [loadValue, hw, hnode]
    rfl
  rw [hload]
  by_cases hlt : i < 8
  · rw [if_pos (by omega)]
    refine ⟨_, c.set .t0 (c.regs (.a i)), rfl, rfl, rfl, .set (by simp) _, ?_⟩
    rw [Core.regs_set_self]
    exact h.args hblock i y hlt hy
  · rw [if_neg (by omega)]
    obtain ⟨j, rfl⟩ : ∃ j, i = 8 + j := ⟨i - 8, by omega⟩
    obtain ⟨a, rest, fr', rfl, hfr', hj⟩ := h.stackArgs hblock j (List.getElem?_eq_some_iff.mp hy).1
    have hat : frameAt? b m (top :: a :: rest) rest.length =
      some (a, stackPointer b m (a :: rest)) :=
      frameAt?_cons.mpr (.inr ⟨by simp, frameAt?_self⟩)
    have hloc : Located b m ⟨top :: a :: rest, s.mem, place, links⟩ (.out rest.length j)
        (stackPointer b m (a :: rest) + 4 * j) := .out hat hfr' hj
    have haddr : stackPointer b m (top :: a :: rest) + Frame.incomingOffset .rv32 fr (8 + j) =
        stackPointer b m (a :: rest) + 4 * j := by
      have hsp : stackPointer b m (top :: a :: rest) = stackPointer b m (a :: rest) - frameSize m
        top.func := rfl
      rw [hsp, frameSize_eq hfr, Frame.incomingOffset]
      simp only [Machine.rv32]
      push_cast
      ring
    obtain ⟨c', hrun, hmem, hkeeps, hval⟩ := loadSp_spec img (h.staged.pointsTo h.held)
      (haddr ▸ h.staged.laid.has hloc) .t0 (show Reg.t0 ≠ .sp by simp)
    refine ⟨_, c', rfl, hrun, hmem, hkeeps.mono (by simp), ?_⟩
    dsimp only at hval
    rw [hval, haddr]
    exact h.held.agree _ _ _ hloc (.out rfl rfl hblock hy)

theorem Staged.store {acts : List Activation} {s' : Store} {r : Region} {o : Int} {y : Val}
    (h : Staged b m img ⟨acts, s.mem, place, links⟩ s.next) (hs : s.store r o y = some s') :
    Staged b m img ⟨acts, s'.mem, place, links⟩ s'.next := by
  obtain ⟨cells, i, hmem, -, -, rfl⟩ := Store.store_cases hs
  refine ⟨h.laid.resized (size_update hmem List.length_set), fun k hk => ?_, h.active⟩
  obtain ⟨hnone, hplace⟩ := h.fresh k hk
  have hne : Region.local k ≠ r := by
    rintro rfl
    cases hmem.symm.trans hnone
  exact ⟨(Function.update_of_ne hne ..).trans hnone, hplace⟩

theorem Running.stores (hi : Installed b m img) (h : Running b m img top outer s place links n c)
    (hrest : top.rest = id :: rest) {u : Value} (hu : m.value? id = some u) {val dest : ValueId}
    (hnode : u.node = .store val dest) {ty : Ty} (hdest : m.Readable top.func dest ty) {r : Region}
    {o : Int} {y : Val} {s' : Store} (hx : top.read m dest = some (.addr r o))
    (hs : s.store r o y = some s')
    (hload : ∀ fn fr, Poised b m img top outer s place links fn fr id u c →
      ∃ code c', loadValue ⟨.rv32, m, fr⟩ .t0 val = .ok code ∧ execAll b img code c = some c' ∧
        c'.mem = c.mem ∧ c.Keeps [.t0] c' ∧ Rep place y (c'.regs .t0)) :
    ∃ σ, GoesFar b img lib ⟨n, c, s.trace⟩ σ ∧
      Match b m img (.running { top with rest } outer s') σ := by
  obtain ⟨fn, fr, u', code₁, code₂, hf, hfr, hu', -, -, hsuffix, hcode₁, hcode₂, hat⟩ :=
    h.next hi hrest
  obtain rfl := Option.some.inj (hu.symm.trans hu')
  have hp := h.poised hi hf hfr hu (by simp [hnode])
  obtain ⟨read, c₁, hread, hrun₁, hmem₁, hkeeps₁, hrep⟩ := hload fn fr hp
  obtain ⟨write, c₂, hwrite, hrun₂, hkeeps₂, hheld⟩ :=
    (hp.keeps hmem₁ hkeeps₁ (by simp)).put hdest
      (by simp +contextual [hnode, Node.operands]) hx hrep hs
  have hcode : emitInst ⟨.rv32, m, fr⟩ id = .ok (read ++ write) := by
    simp only [emitInst, Module.node?_eq hu, hnode, emitStore_eq, bind, Except.bind, hread, hwrite]
    rfl
  obtain rfl : code₁ = read ++ write := Except.ok.inj (hcode₁.symm.trans hcode)
  have hactive := h.staged.active _ _ _ frameAt?_self
  refine h.goes hfr hcode₂ hat (by simp [loadValue_ne_nil hread]) (execAll_trans hrun₁ hrun₂)
    ((hkeeps₁.mono (by simp [scratch])).trans (hkeeps₂.mono (by simp [scratch]))) rfl rfl rfl
      rfl ?_ ?_ ?_
  · obtain ⟨cells, i, -, -, -, rfl⟩ := Store.store_cases hs
    rfl
  · refine (h.staged.store hs).advance rfl rfl (fun _ _ => rfl) ⟨fn, hf.finished,
      hsuffix⟩ fun hb x hx => ?_
    exact hactive.untouched hb x (by rw [hrest]; exact List.mem_cons_of_mem _ hx)
  · exact Held.advance (v := ⟨[], s'.mem, place, links⟩) hheld rfl rfl fun hb => ⟨hb, rfl⟩

theorem Running.lands (hi : Installed b m img) (h : Running b m img top outer s place links n c)
    {fn : Func} {fr : Frame} {c' : Core} (hf : Framed m top.func fn fr)
    (hfr : frameOf m top.func = some fr) {bb : BlockId} (hbb : bb ∈ fn.layout.toList) (hne : bb ≠ 1)
    (hmem : c'.mem = c.mem) (hkeeps : c.Keeps scratch c') :
    ∃ k : Nat, img.labels.lookup (fr.label bb) = some k ∧
      Match b m img (.running { top with block := bb, rest := fn.code bb } outer s) ⟨k, c',
        s.trace⟩ := by
  obtain ⟨k, code, hlookup, hcode, hat⟩ := hi.block _ fn fr hf.finished hfr bb hbb
  have hrun : Running b m img { top with block := bb, rest := fn.code bb } outer s place
    links k c' := by
    refine ⟨?_, ?_, h.chain.top rfl, h.suspended, fun fr' hfr' hcall => ?_, fun hb => absurd hb hne,
      fun hb => absurd hb hne, fr, code, hfr, hcode, hat⟩
    · exact h.staged.advance rfl rfl (fun _ _ => rfl) ⟨fn, hf.finished, List.suffix_rfl⟩ fun hb =>
        absurd hb hne
    · exact Held.advance (v :=
        ⟨[], s.mem, place, links⟩) (h.held.keeps hmem hkeeps (by simp [scratch])) rfl rfl
        fun hb => absurd hb hne
    · rw [hkeeps .ra (by simp [scratch])]
      exact h.link fr' hfr' hcall
  exact ⟨k, hlookup, .running hrun⟩

theorem goes_jump {l : String} {k : Nat} {t : List Event} {code : List Instr}
    (hat : CodeAt img n (.j l :: code)) (hl : img.labels.lookup l = some k) :
    Goes b img lib ⟨n, c, t⟩ ⟨k, c, t⟩ := by
  rw [Goes, step_eq rfl hat.get, perform, hl]
  rfl

theorem Running.jumps (hi : Installed b m img) (h : Running b m img top outer s place links n c)
    (hrest : top.rest = id :: rest) {u : Value} (hu : m.value? id = some u) {target : BlockId}
    (hnode : u.node = .jump target) {cfg : Config}
    (hexec : Ir.exec m lib id { top with rest } outer s (.jump target) = some cfg) :
    ∃ σ, GoesFar b img lib ⟨n, c, s.trace⟩ σ ∧ Match b m img cfg σ := by
  obtain ⟨fn, fr, u', code₁, code₂, hf, hfr, hu', hok, hid, -, hcode₁, -, hat⟩ := h.next hi hrest
  obtain rfl := Option.some.inj (hu.symm.trans hu')
  obtain ⟨fn', hfn', rfl⟩ := exec_jump hexec
  obtain rfl := Option.some.inj (hf.finished.found.symm.trans hfn')
  have hsucc : target ∈ u.node.successors := by simp [hnode, Node.successors]
  have hne : target ≠ 1 := by
    have := (hok.successors target hsucc).1
    rw [hf.finished.entry] at this
    lia
  obtain ⟨k, hlookup, hmatch⟩ :=
    h.lands hi hf hfr (hf.finished.successors_mem hid hu target hsucc) hne rfl
    (.refl _ c)
  have hcode : emitInst ⟨.rv32, m, fr⟩ id = .ok [.j (fr.label target)] := by
    simp only [emitInst, Module.node?_eq hu, hnode]
  obtain rfl := Except.ok.inj (hcode₁.symm.trans hcode)
  exact ⟨_, .single (goes_jump hat hlookup), hmatch⟩

theorem Running.branches (hi : Installed b m img) (h : Running b m img top outer s place links n c)
    (hrest : top.rest = id :: rest) {u : Value} (hu : m.value? id = some u) {cond : ValueId}
    {yes no : BlockId} (hnode : u.node = .branch cond yes no)
    (hcond : m.Readable top.func cond .i32) {cfg : Config}
    (hexec : Ir.exec m lib id { top with rest } outer s (.branch cond yes no) = some cfg) :
    ∃ σ, GoesFar b img lib ⟨n, c, s.trace⟩ σ ∧ Match b m img cfg σ := by
  obtain ⟨fn, fr, u', code₁, code₂, hf, hfr, hu', hok, hid, -, hcode₁, -, hat⟩ := h.next hi hrest
  obtain rfl := Option.some.inj (hu.symm.trans hu')
  obtain ⟨w, fn', hw, hfn', rfl⟩ := exec_branch hexec
  obtain rfl := Option.some.inj (hf.finished.found.symm.trans hfn')
  have hsucc : (if w = 0 then no else yes) ∈ u.node.successors := by
    rw [hnode, Node.successors]
    split <;> simp
  have hne : (if w = 0 then no else yes) ≠ 1 := by
    have := (hok.successors _ hsucc).1
    rw [hf.finished.entry] at this
    lia
  obtain ⟨read, c', hread, hrun, hmem, hkeeps, hval⟩ :=
    (h.poised hi hf hfr hu (by simp [hnode])).load hcond
    (by simp [hnode, Node.operands]) hw (show Reg.t0 ≠ .sp by simp)
  obtain ⟨k, hlookup, hmatch⟩ :=
    h.lands hi hf hfr (hf.finished.successors_mem hid hu _ hsucc) hne hmem
    (hkeeps.mono (by simp [scratch]))
  have hcode : emitInst ⟨.rv32, m, fr⟩ id =
    .ok (read ++ [.bnez .t0 (fr.label yes), .j (fr.label no)]) := by
    simp only [emitInst, Module.node?_eq hu, hnode, hread]
    rfl
  obtain rfl := Except.ok.inj (hcode₁.symm.trans hcode)
  rw [List.append_assoc] at hat
  obtain ⟨hgo, hat⟩ := goesOn_of_execAll lib (t := s.trace) hat hrun
  have hval' : c'.regs .t0 = w := hval
  refine ⟨_, Relation.TransGen.trans_right hgo ?_, hmatch⟩
  -- with a condition of zero the branch is passed, and the jump behind it is taken
  by_cases hw : w = 0
  · rw [if_pos hw] at hlookup
    have hstep : Goes b img lib ⟨(n + read.length : Nat), c', s.trace⟩ ⟨(n + read.length + 1 : Nat),
      c', s.trace⟩ := by
      rw [Goes, step_eq rfl hat.get, perform, hval', if_pos hw]
      rfl
    have hat' : CodeAt img (n + read.length + 1) (.j (fr.label no) :: code₂) :=
      (show CodeAt img _ ([_] ++ _) from hat).right
    exact .tail (.single hstep) (goes_jump hat' hlookup)
  · rw [if_neg hw] at hlookup
    refine .single ?_
    rw [Goes, step_eq rfl hat.get, perform, hval', if_neg hw, hlookup]
    rfl

end

end Sysy.Assembly
