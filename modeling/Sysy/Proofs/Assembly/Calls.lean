import Sysy.Proofs.Assembly.Simulation

/-!
Calls. A call passes its arguments and goes to the prologue of a function or to the run-time
library; a return closes the frame and goes on behind the call.
-/

namespace Sysy.Assembly
open Ir Lowering

variable {b : Board} {m : Module} {img : Image} {lib : Library}

section
variable {top : Activation} {outer : List Activation} {s : Store} {place : Region → Option Int}
  {links : List Word} {n : Nat} {c : Core} {id : ValueId} {rest : List ValueId}

theorem prologue_spec (img : Image) {fn : Func} {fr : Frame} {x : Int} (hfits : Frame.Fits m fn fr)
    (hx : x ≤ b.top) (hlow : b.base ≤ x - fr.size) (h16 : 16 ∣ x)
    (hsp : c.regs .sp = BitVec.ofInt 32 x) : ∃ c',
    execAll b img (prologue fr) c = some c' ∧ c'.regs .sp = BitVec.ofInt 32 (x - fr.size) ∧
    c.Keeps [.sp, .t0] c' ∧
      c'.mem = if fr.hasCall then Function.update c.mem (x - fr.size + fr.raOffset) (c.regs .ra)
        else c.mem := by
  have htop := hfits.top
  have hout := hfits.outArgs
  have hlocals := hfits.locals
  have hbase := b.base_nonneg
  rw [prologue]
  split
  · rename_i hsize
    have hcall : fr.hasCall = false := by
      by_contra hcall
      rw [if_pos (by simpa using hcall)] at htop
      omega
    exact ⟨c, rfl, by rw [hsp, hsize, Int.sub_zero], .refl _ _, by simp [hcall]⟩
  · obtain ⟨c₁, hrun₁, hmem₁, hkeeps₁, hsp₁⟩ := addSp_spec (b := b) img hsp (-fr.size)
    rw [← Int.sub_eq_add_neg] at hsp₁
    cases hcall : fr.hasCall with
    | false =>
      refine ⟨c₁, ?_, hsp₁, hkeeps₁, by simpa using hmem₁⟩
      simpa using hrun₁
    | true =>
      have hspan := (Frame.Spans.link hcall).bounds hfits
      have h16' := hfits.aligned
      have hhas : b.Has (x - fr.size + fr.raOffset) := ⟨by omega, by omega, by omega⟩
      have hpoints : PointsTo b (c₁.regs .sp) (x - fr.size) := ⟨hsp₁, by omega, by omega⟩
      obtain ⟨c₂, hrun₂, hmem₂, hkeeps₂⟩ :=
        storeSp_spec img hpoints hhas (show Reg.t0 ≠ .sp by simp)
        (show Reg.ra ≠ .t0 by simp)
      refine ⟨c₂, execAll_trans hrun₁ hrun₂, by rw [hkeeps₂ .sp (by simp)]; exact hsp₁,
        hkeeps₁.trans (hkeeps₂.mono (by simp)), ?_⟩
      rw [if_pos rfl, hmem₂, hmem₁, hkeeps₁ .ra (by simp)]

theorem Staffed.cons {a : Activation} {fn : Func} {fr : Frame} (h : Staffed m outer)
    (hf : Framed m a.func fn fr) (hfr : frameOf m a.func = some fr) : Staffed m (a :: outer) := by
  intro x hx
  rcases List.mem_cons.mp hx with rfl | hx
  · exact ⟨fn, fr, hf, hfr⟩
  · exact h x hx

/-- A function is entered. The machine is at its label, with the arguments in their places and the
return address in its register. -/
theorem enters (lib : Library) (hi : Installed b m img) {f : FuncId} {fn : Func}
    {acts : List Activation} {vs : List Val} {w : Word} (hfin : Finished m f fn)
    (hstaged : Staged b m img ⟨acts, s.mem, place, links⟩ s.next)
    (hheld : Held b m ⟨acts, s.mem, place, links⟩ c)
    (hchain : Chain m img (.enter fn vs :: acts) (w :: links)) (hlen : links.length = acts.length)
    (hsuspended : ∀ a ∈ acts, a.block ≠ 1) (hra : c.regs .ra = w)
    (hroom : img.dataEnd b ≤ stackPointer b m (.enter fn vs :: acts))
    (hregs : ∀ i y, i < 8 → vs[i]? = some y → Rep place y (c.regs (.a i)))
    (hstack : ∀ (i : Nat) y, vs[8 + i]? = some y →
      Rep place y (c.mem (stackPointer b m acts + 4 * i)))
    (houts : ∀ i, 8 + i < vs.length → ∃ a rest fr, acts = a :: rest ∧ frameOf m a.func = some fr ∧
      4 * (i : Int) < fr.outArgs) :
    ∃ k : Nat, img.labels.lookup fn.name = some k ∧ Service.ofName? fn.name = none ∧
      ∃ σ, GoesOn b img lib ⟨k, c, s.trace⟩ σ ∧
      Match b m img (.running (.enter fn vs) acts s) σ := by
  obtain ⟨fr, k, code, hfr, hfits, hname, hlookup, hcode, hat⟩ := hi.func f fn hfin
  refine ⟨k, hlookup, hname, ?_⟩
  have hfunc : (Activation.enter fn vs).func = f := hfin.ident
  have hfr' : frameOf m (Activation.enter fn vs).func = some fr := by rw [hfunc]; exact hfr
  have hsp : stackPointer b m (.enter fn vs :: acts) = stackPointer b m acts - fr.size := by
    rw [stackPointer, frameSize_eq hfr']
  have hend : b.base ≤ img.dataEnd b := by rw [Image.dataEnd]; omega
  have hstaffed₀ : Staffed m acts := hstaged.laid.staffed
  obtain ⟨htop, h16⟩ := hstaffed₀.stackPointer (b := b)
  obtain ⟨c', hrun, hsp', hkeeps, hmem⟩ := prologue_spec img hfits htop (by omega) h16 hheld.sp
  obtain ⟨hgo, hat'⟩ := goesOn_of_execAll lib (t := s.trace) hat hrun
  have hstaffed : Staffed m (.enter fn vs :: acts) :=
    hstaffed₀.cons (by rw [hfunc]; exact ⟨hfin, hi.sound.linked, hfits⟩) hfr'
  have hentry : fn.code fn.entry = fn.code 1 := by rw [hfin.entry]
  have hspan (hcall : fr.hasCall = true) := (Frame.Spans.link hcall).bounds hfits
  -- the one word that the prologue writes is below the frames that are there
  have hagree : Agree b m ⟨acts, s.mem, place, links⟩ c'.mem := by
    rw [hmem]
    split
    · rename_i hcall
      have := hspan hcall
      exact hheld.agree.below hstaged.laid (by omega) (by dsimp only; omega)
    · exact hheld.agree
  have habove {x : Int} (hx : stackPointer b m acts ≤ x) : c'.mem x = c.mem x := by
    rw [hmem]
    split
    · rename_i hcall
      have := hspan hcall
      rw [Function.update_of_ne (by omega)]
    · rfl
  have hrunning : Running b m img (.enter fn vs) acts s place (w :: links)
    (k + (prologue fr).length) c' := by
    refine ⟨?_, ?_, hchain, hsuspended, fun fr₁ hfr₁ hcall => ?_, fun _ i y hi hy => ?_,
      fun _ i hi => houts i hi,
      fr, code, hfr', by rw [← hcode, ← hentry]; rfl, hat'⟩
    · refine ⟨hstaged.laid.push hstaffed hroom, hstaged.fresh, fun d a x ha => ?_⟩
      rcases frameAt?_cons.mp ha with ⟨-, rfl, -⟩ | ⟨-, ha⟩
      · exact ⟨⟨fn, by rw [hfunc]; exact hfin, List.suffix_rfl⟩, fun id y _ hy => (by cases hy),
          fun _ _ _ => rfl⟩
      · exact hstaged.active d a x ha
    · refine ⟨hagree.push hfr' (fun _ => rfl) hlen (fun i y hy => ?_) fun hcall => ?_, by
        rw [hsp', hsp]⟩
      · rw [habove (by omega)]
        exact hstack i y hy
      · rw [hmem, if_pos hcall, hsp, Function.update_self, hra]
    · rw [hkeeps .ra (by simp), hra]
      rfl
    · rw [hkeeps (.a i) (by simp)]
      exact hregs i y hi hy
  exact ⟨_, hgo, .running hrunning⟩

theorem goes_call (lib : Library) {name : String} {k : Nat} {t : List Event} {x : Int}
    {code : List Instr} (hat : CodeAt img n (.call name :: code)) (hsp : PointsTo b (c.regs .sp) x)
    (h16 : 16 ∣ x) (hname : Service.ofName? name = none) (hl : img.labels.lookup name = some k) :
    Goes b img lib ⟨n, c, t⟩ ⟨k, c.set .ra (BitVec.ofInt 32 (n + 1 : Nat)), t⟩ := by
  rw [Goes, step_eq rfl hat.get, perform, invoke, if_pos (by rw [hsp.toInt]; exact h16), hname]
  dsimp only
  rw [hl]
  rfl

theorem Held.set {v : View} {r : Reg} {w : Word} (h : Held b m v c) (hr : r ≠ .sp) :
    Held b m v (c.set r w) :=
  h.keeps rfl (show Core.Keeps [r] c _ from .set (by simp) w) (by simpa using hr.symm)

theorem length_of_mapM {α β : Type} {g : α → Option β} {xs : List α} {ys : List β}
    (h : xs.mapM g = some ys) :
    ys.length = xs.length := by
  induction xs generalizing ys with
  | nil =>
    cases h
    rfl
  | cons x xs ih =>
    rw [List.mapM_cons] at h
    obtain ⟨y, -, h⟩ := Option.bind_eq_some_iff.mp h
    obtain ⟨ys', hys, h⟩ := Option.bind_eq_some_iff.mp h
    obtain rfl : ys = y :: ys' := by simpa using h.symm
    rw [List.length_cons, List.length_cons, ih hys]

theorem Running.passes (lib : Library) (hi : Installed b m img)
    (h : Running b m img top outer s place links n c) (hrest : top.rest = id :: rest) {u : Value}
    (hu : m.value? id = some u) {g : FuncId} {args : List ValueId} (hnode : u.node = .call g args)
    {fn : Func} (hfn : m.func? g = some fn)
    (hargs : List.Forall₂ (m.Readable top.func) args fn.params) {vs : List Val}
    (hvs : args.mapM (top.read m) = some vs) :
    ∃ fn₀ fr, ∃ pass code₂ : List Instr, ∃ c', Framed m top.func fn₀ fr ∧
      frameOf m top.func = some fr ∧ rest <:+ fn₀.code top.block ∧
      emitInsts ⟨.rv32, m, fr⟩ rest = .ok code₂ ∧
      CodeAt img (n + pass.length)
        (.call fn.name :: (saveResult ⟨.rv32, m, fr⟩ id (.a 0) .t0 ++ code₂)) ∧
      GoesOn b img lib ⟨n, c, s.trace⟩ ⟨(n + pass.length : Nat), c', s.trace⟩ ∧
      Held b m ⟨top :: outer, s.mem, place, links⟩ c' ∧ c'.regs .ra = c.regs .ra ∧
      (∀ i y, i < 8 → vs[i]? = some y → Rep place y (c'.regs (.a i))) ∧
      (∀ (i : Nat) y, vs[8 + i]? = some y →
        Rep place y (c'.mem (stackPointer b m (top :: outer) + 4 * i))) ∧
      (∀ i, 8 + i < vs.length → 4 * (i : Int) < fr.outArgs) ∧ fr.hasCall = true := by
  obtain ⟨fn₀, fr, u', code₁, code₂, hf, hfr, hu', -, hid, hsuffix, hcode₁, hcode₂, hat⟩ :=
    h.next hi hrest
  obtain rfl := Option.some.inj (hu.symm.trans hu')
  obtain ⟨hcall, hout⟩ :=
    hf.fits.calls id ((Frame.mem_insts hf.finished).mpr ⟨_, hid⟩) u g args hu hnode
  have hreadable : ∀ x ∈ args, ∃ ty, m.Readable top.func x ty := by
    intro x hx
    obtain ⟨i, hi, rfl⟩ := List.getElem_of_mem hx
    have hlen := hargs.length_eq
    exact ⟨_, hargs.get hi (by lia)⟩
  obtain ⟨pass, c', hpass, hrun, hheld, hra, -, -, hregs, hstack⟩ :=
    h.staged.pass hi.symbols hi.sound hf hfr hu hreadable
    (fun x hx hne =>
      by rw [hnode, Node.operands, List.mem_filter]; exact ⟨hx, by simpa using hne⟩) 0 hvs
    (by push_cast; omega) h.held
  have hcode : emitInst ⟨.rv32, m, fr⟩ id =
      .ok (pass ++ [.call fn.name] ++ saveResult ⟨.rv32, m, fr⟩ id (.a 0) .t0) := by
    simp only [emitInst, Module.node?_eq hu, hnode, emitCall, bind, Except.bind, hpass, hfn]
    rfl
  obtain rfl := Except.ok.inj (hcode₁.symm.trans hcode)
  rw [List.append_assoc, List.append_assoc] at hat
  obtain ⟨hgo, hat⟩ := goesOn_of_execAll lib (t := s.trace) hat hrun
  have hlen := length_of_mapM hvs
  refine ⟨fn₀, fr, pass, code₂, c', hf, hfr, hsuffix, hcode₂, hat, hgo, hheld, hra,
    fun i y hi hy => ?_,
    fun i y hy => ?_, fun i hi => by omega, hcall⟩
  · simpa using hregs i y hy (by omega)
  · exact hstack (8 + i) i y hy (by omega)

theorem Running.calls (hi : Installed b m img) (h : Running b m img top outer s place links n c)
    (hrest : top.rest = id :: rest) {u : Value} (hu : m.value? id = some u) {g : FuncId}
    {args : List ValueId} (hnode : u.node = .call g args) (hblock : top.block ≠ 1) {fn : Func}
    (hfin : Finished m g fn) (hargs : List.Forall₂ (m.Readable top.func) args fn.params)
    {vs : List Val} (hvs : args.mapM (top.read m) = some vs)
    (hroom : Roomy b m img (.running (.enter fn vs) (top :: outer) s)) :
    ∃ σ, GoesFar b img lib ⟨n, c, s.trace⟩ σ ∧
    Match b m img (.running (.enter fn vs) (top :: outer) s) σ := by
  obtain ⟨fn₀, fr, pass, code₂, c', hf, hfr, -, hcode₂, hat, hgo, hheld, -, hregs,
    hstack, hout, -⟩ :=
    h.passes lib hi hrest hu hnode hfin.found hargs hvs
  have hat' : CodeAt img (n + pass.length + 1) (saveResult ⟨.rv32, m, fr⟩ id (.a 0) .t0 ++ code₂) :=
    (show CodeAt img _ ([_] ++ _) from hat).right
  have hlt := hat.lt
  have hchain : Chain m img (.enter fn vs :: top :: outer)
      (BitVec.ofInt 32 (n + pass.length + 1 : Nat) :: links) := by
    have hcallee : m.node? id = some (.call (Activation.enter fn vs).func args) := by
      rw [Module.node?_eq hu, hnode, ← hfin.ident]
      rfl
    exact .call hrest hcallee hfr hcode₂ hat' (by omega) rfl h.chain
  have hsuspended : ∀ a ∈ top :: outer, a.block ≠ 1 := by
    intro a ha
    rcases List.mem_cons.mp ha with rfl | ha
    · exact hblock
    · exact h.suspended a ha
  obtain ⟨k, hlookup, hname, σ, hgo', hmatch⟩ := enters lib hi hfin h.staged
    (hheld.set (w := BitVec.ofInt 32 (n + pass.length + 1 : Nat)) (show Reg.ra ≠ .sp by simp))
      hchain h.chain.length
    hsuspended (Core.regs_set_self ..) hroom
    (fun i y hi hy => by rw [Core.regs_set_of_ne _ _ (by simp)]; exact hregs i y hi hy) hstack
    fun i hi => ⟨top, outer, fr, rfl, hfr, hout i hi⟩
  have hcall := goes_call lib (t := s.trace) hat (h.staged.pointsTo hheld)
    (h.staged.laid.staffed.stackPointer).2 hname hlookup
  exact ⟨σ, .trans_left (.trans_right hgo (.single hcall)) hgo', hmatch⟩

theorem Framed.slot?_of_isUnit {f : FuncId} {fn : Func} {fr : Frame} (hf : Framed m f fn fr)
    {u : Value} (hu : m.value? id = some u) (hunit : u.ty.isUnit = true) : fr.slot? id = none := by
  cases hslot : fr.slot? id with
  | none => rfl
  | some slot =>
    obtain ⟨y, hy⟩ := hf.fits.used id slot hslot
    obtain ⟨w, hw, hmem⟩ := (hf.linked.uses id y).mp hy
    obtain ⟨-, u', hu', hnot⟩ := hf.linked.operand y w hw id hmem
    obtain rfl := Option.some.inj (hu.symm.trans hu')
    rw [hunit] at hnot
    cases hnot

theorem resumes (lib : Library) {fn : Func} {fr : Frame} {code₂ : List Instr} {u : Value}
    {g : FuncId} {args : List ValueId} {result : Option Val}
    (hstaged : Staged b m img ⟨top :: outer, s.mem, place, links⟩ s.next)
    (hheld : Held b m ⟨top :: outer, s.mem, place, links⟩ c)
    (hchain : Chain m img (top :: outer) links) (hblock : top.block ≠ 1)
    (hsuspended : ∀ a ∈ outer, a.block ≠ 1) (hf : Framed m top.func fn fr)
    (hfr : frameOf m top.func = some fr) (hsuffix : id :: rest <:+ fn.code top.block)
    (hu : m.value? id = some u) (hnode : u.node = .call g args)
    (hcode₂ : emitInsts ⟨.rv32, m, fr⟩ rest = .ok code₂)
    (hat : CodeAt img n (saveResult ⟨.rv32, m, fr⟩ id (.a 0) .t0 ++ code₂))
    (hresult : ∀ y, result = some y → Rep place y (c.regs (.a 0)))
    (hnone : result = none → u.ty.isUnit = true) : ∃ σ, GoesOn b img lib ⟨n, c, s.trace⟩ σ ∧
      Match b m img (.running { top.give id result with rest } outer s) σ := by
  have hcall :=
    (hf.fits.calls id ((Frame.mem_insts hf.finished).mpr ⟨_, hsuffix.mem (List.mem_cons_self ..)⟩)
    u g args hu hnode).1
  have hnot : m.node? id ≠ some .alloc := by simp [Module.node?_eq hu, hnode]
  obtain ⟨c', hrun, hheld'⟩ : ∃ c', execAll b img (saveResult ⟨.rv32, m, fr⟩ id (.a 0) .t0)
    c = some c' ∧
      Held b m ⟨top.give id result :: outer, s.mem, place, links⟩ c' := by
    cases result with
    | some y =>
      obtain ⟨c', hrun, -, hheld'⟩ :=
        hstaged.save hheld hfr hnot (hresult y rfl) (show Reg.t0 ≠ .sp by simp)
        (by simp)
      exact ⟨c', hrun, hheld'⟩
    | none =>
      rw [saveResult, hf.slot?_of_isUnit hu (hnone rfl)]
      exact ⟨c, rfl, hheld⟩
  obtain ⟨hgo, hat'⟩ := goesOn_of_execAll lib (t := s.trace) hat hrun
  have hfunc := top.func_give id result
  have hb := top.block_give id result
  have henv : ∀ x, m.node? x = some .alloc → (top.give id result).env x = top.env x := by
    intro x hx
    refine top.env_give_of_ne result ?_
    rintro rfl
    exact hnot hx
  have hrunning : Running b m img { top.give id result with rest } outer s place links
      (n + (saveResult ⟨.rv32, m, fr⟩ id (.a 0) .t0).length) c' := by
    refine ⟨?_, ?_, hchain.top hfunc, hsuspended, fun fr' hfr' hno => ?_,
      fun h1 => absurd (hb.symm.trans h1) hblock,
      fun h1 => absurd (hb.symm.trans h1) hblock, fr, code₂, by rw [← hfr, ← hfunc], hcode₂, hat'⟩
    -- calls are not in the entry, so nothing is asked of the arguments and of what is not reserved
    -- yet
    · refine hstaged.advance hfunc (top.locals_give id result) henv ⟨fn, hf.finished, ?_⟩ fun h1 =>
        absurd (hb.symm.trans h1) hblock
      dsimp only
      rw [hb]
      exact (List.suffix_cons _ _).trans hsuffix
    · exact Held.advance (v := ⟨[], s.mem, place, links⟩) hheld' rfl rfl fun h1 =>
        absurd (hb.symm.trans h1) hblock
    · have hfr'' : frameOf m (top.give id result).func = some fr' := hfr'
      rw [hfunc, hfr] at hfr''
      cases hfr''
      rw [hcall] at hno
      cases hno
  exact ⟨_, hgo, .running hrunning⟩

/-! The run-time library. -/

theorem storeWords_spec {acts : List Activation} {r : Region} {x : Int} (hplace : place r = some x)
    (ws : List Word) : ∀ {o : Int} {s s' : Store} {c : Core}, s.storeWords r o ws = some s' →
    Staged b m img ⟨acts, s.mem, place, links⟩ s.next →
    Held b m ⟨acts, s.mem, place, links⟩ c → ∃ c',
      storeWords b (x + o) ws c = some c' ∧ c'.regs = c.regs ∧ s'.trace = s.trace ∧
        Staged b m img ⟨acts, s'.mem, place, links⟩ s'.next ∧ Held b m ⟨acts, s'.mem, place,
          links⟩ c' := by
  induction ws with
  | nil =>
    intro o s s' c hs hstaged hheld
    cases hs
    exact ⟨c, rfl, rfl, rfl, hstaged, hheld⟩
  | cons w ws ih =>
    intro o s s' c hs hstaged hheld
    obtain ⟨s₁, hs₁, hs⟩ := Option.bind_eq_some_iff.mp hs
    have hstaged₁ := hstaged.store hs₁
    obtain ⟨cells, i, hmem, rfl, hi, rfl⟩ := Store.store_cases hs₁
    have hloc : Located b m ⟨acts, s.mem, place, links⟩ (.cell r i) (x + 4 * i) :=
      .cell hmem hplace hi
    have hheld₁ :=
      hheld.agree.store hstaged.laid hmem hplace hi (show Rep place (.word w) w from rfl)
    obtain ⟨c', hrun, hregs, htrace, hstaged', hheld'⟩ :=
      ih (c := c.write (x + 4 * i) w) hs hstaged₁ ⟨hheld₁, hheld.sp⟩
    refine ⟨c', ?_, hregs, htrace, hstaged', hheld'⟩
    rw [storeWords, if_pos (hstaged.laid.has hloc), Int.add_assoc]
    exact hrun

theorem loadWords_spec {acts : List Activation} {r : Region} {x : Int} (hplace : place r = some x)
    (hstaged : Staged b m img ⟨acts, s.mem, place, links⟩ s.next)
    (hheld : Held b m ⟨acts, s.mem, place, links⟩ c) (count : Nat) :
    ∀ {o : Int} {ws : List Word}, s.loadWords r o count = some ws →
    loadWords b c.mem (x + o) count = some ws := by
  induction count with
  | zero =>
    intro o ws hs
    cases hs
    rfl
  | succ count ih =>
    intro o ws hs
    rw [Store.loadWords] at hs
    split at hs
    · rename_i w hw
      obtain ⟨ws', hws, rfl⟩ := Option.map_eq_some_iff.mp hs
      obtain ⟨cells, i, hmem, rfl, hi⟩ := Store.load_cases hw
      have hloc : Located b m ⟨acts, s.mem, place, links⟩ (.cell r i) (x + 4 * i) :=
        .cell hmem hplace (List.getElem?_eq_some_iff.mp hi).1
      have hval : c.mem (x + 4 * i) = w := hheld.agree _ _ _ hloc (.cell hmem hi)
      have hrest := ih hws
      rw [← Int.add_assoc] at hrest
      rw [loadWords, if_pos (hstaged.laid.has hloc), hrest, hval]
      rfl
    · cases hs

/-- Only when there is a word to write, the address is one of the memory. -/
theorem storeWords_toInt {w : Word} {a : Int} {ws : List Word} {c' : Core}
    (hw : w = BitVec.ofInt 32 a) (h : storeWords b a ws c = some c') :
    storeWords b w.toInt ws c = some c' := by
  cases ws with
  | nil => exact h
  | cons x ws =>
    have hhas : b.Has a := by
      rw [storeWords] at h
      split at h
      · assumption
      · cases h
    rw [hw, hhas.pointsTo.toInt]
    exact h

theorem loadWords_toInt {mem : Int → Word} {w : Word} {a : Int} {count : Nat} {ws : List Word}
    (hw : w = BitVec.ofInt 32 a) (h : loadWords b mem a count = some ws) :
    loadWords b mem w.toInt count = some ws := by
  cases count with
  | zero => exact h
  | succ count =>
    have hhas : b.Has a := by
      rw [loadWords] at h
      split at h
      · assumption
      · cases h
    rw [hw, hhas.pointsTo.toInt]
    exact h

theorem serve_spec {acts : List Activation} {k : Service} {vs : List Val} {result : Option Val}
    {s' : Store} (h : lib.serve s k vs = some (result, s'))
    (hstaged : Staged b m img ⟨acts, s.mem, place, links⟩ s.next)
    (hheld : Held b m ⟨acts, s.mem, place, links⟩ c)
    (hregs : ∀ i y, i < 8 → vs[i]? = some y → Rep place y (c.regs (.a i))) : ∃ c' e,
    serve b lib s.trace c k = some (c', e) ∧ s'.trace = e :: s.trace ∧
      Staged b m img ⟨acts, s'.mem, place, links⟩ s'.next ∧
      Held b m ⟨acts, s'.mem, place, links⟩ c' ∧
      ∀ y, result = some y → Rep place y (c'.regs (.a 0)) := by
  have hresult {c : Core} {w : Word} : ∀ y, some (Val.word w) = some y →
    Rep place y ((c.set (.a 0) w).regs (.a 0)) := by
    rintro y ⟨⟩
    exact Core.regs_set_self ..
  cases served_of_serve h with
  | @number k w hread =>
    refine ⟨c.set (.a 0) w, ⟨k.name, []⟩, ?_, rfl, hstaged, hheld.set (by simp), hresult⟩
    rcases hread with ⟨rfl, hw⟩ | ⟨rfl, hw⟩ <;> simp [serve, hw, Service.name]
  | @array r o ws s₁ hread hstore =>
    obtain ⟨x, hplace, hreg⟩ := hregs 0 (.addr r o) (by omega) rfl
    obtain ⟨c', hrun, hregs', htrace, hstaged', hheld'⟩ :=
      storeWords_spec hplace ws hstore hstaged hheld
    exact ⟨c'.set (.a 0) (BitVec.ofNat 32 ws.length), ⟨"getarray", []⟩,
      by simp [serve, hread, storeWords_toInt hreg hrun], congrArg _ htrace, hstaged',
      hheld'.set (by simp), hresult⟩
  | @put k w hk =>
    have hreg : c.regs (.a 0) = w := hregs 0 (.word w) (by omega) rfl
    refine ⟨c, ⟨k.name, [w]⟩, ?_, rfl, hstaged, hheld, by simp⟩
    rcases hk with rfl | rfl <;> simp [serve, hreg, Service.name]
  | @putArray count r o ws hload =>
    have hcount : c.regs (.a 0) = count := hregs 0 (.word count) (by omega) rfl
    obtain ⟨x, hplace, hreg⟩ := hregs 1 (.addr r o) (by omega) rfl
    have hrun := loadWords_toInt hreg (loadWords_spec hplace hstaged hheld _ hload)
    exact ⟨c, ⟨"putarray", count :: ws⟩, by
      simp [serve, hcount, hrun], rfl, hstaged, hheld, by simp⟩
  | @clock k hk =>
    refine ⟨c, ⟨k.name, []⟩, ?_, rfl, hstaged, hheld, by simp⟩
    rcases hk with rfl | rfl <;> rfl

theorem isUnit_of_serve {name : String} {params : List Ty} {ret : Ty} {k : Service} {vs : List Val}
    {s' : Store} (hlib : (name, params, ret) ∈ Build.libraryFuncs)
    (hk : Service.ofName? name = some k) (h : lib.serve s k vs = some (none, s')) :
    ret.isUnit = true := by
  have hread : k ≠ .getint ∧ k ≠ .getch ∧ k ≠ .getarray := by
    cases served_of_serve h with
    | put hk => rcases hk with rfl | rfl <;> simp
    | putArray => simp
    | clock hk => rcases hk with rfl | rfl <;> simp
  simp only [Build.libraryFuncs, List.mem_cons, Prod.mk.injEq, List.not_mem_nil, or_false] at hlib
  rcases hlib with ⟨rfl, -, rfl⟩ | ⟨rfl, -, rfl⟩ | ⟨rfl, -, rfl⟩ | ⟨-, -, rfl⟩ | ⟨-, -,
    rfl⟩ | ⟨-, -, rfl⟩ |
    ⟨-, -, rfl⟩ | ⟨-, -, rfl⟩
  · exact absurd (Option.some.inj (hk.symm.trans (by decide))) hread.1
  · exact absurd (Option.some.inj (hk.symm.trans (by decide))) hread.2.1
  · exact absurd (Option.some.inj (hk.symm.trans (by decide))) hread.2.2
  all_goals rfl

theorem goes_serve {name : String} {k : Service} {t : List Event} {x : Int} {code : List Instr}
    {c' : Core} {e : Event} (hat : CodeAt img n (.call name :: code))
    (hsp : PointsTo b (c.regs .sp) x) (h16 : 16 ∣ x) (hname : Service.ofName? name = some k)
    (hserve : serve b lib t c k = some (c', e)) :
    Goes b img lib ⟨n, c, t⟩ ⟨(n + 1 : Nat), c', e :: t⟩ := by
  rw [Goes, step_eq rfl hat.get, perform, invoke, if_pos (by rw [hsp.toInt]; exact h16), hname]
  dsimp only
  rw [hserve]
  rfl

theorem Running.serves (hi : Installed b m img) (h : Running b m img top outer s place links n c)
    (hrest : top.rest = id :: rest) {u : Value} (hu : m.value? id = some u) {g : FuncId}
    {args : List ValueId} (hnode : u.node = .call g args) (hblock : top.block ≠ 1) {fn : Func}
    (hfn : m.func? g = some fn) (hlib : (fn.name, fn.params, fn.ret) ∈ Build.libraryFuncs)
    (hret : u.ty = fn.ret) (hargs : List.Forall₂ (m.Readable top.func) args fn.params)
    {vs : List Val} (hvs : args.mapM (top.read m) = some vs) {k : Service} {result : Option Val}
    {s' : Store} (hk : Service.ofName? fn.name = some k)
    (hserve : lib.serve s k vs = some (result, s')) :
    ∃ σ, GoesFar b img lib ⟨n, c, s.trace⟩ σ ∧
      Match b m img (.running { top.give id result with rest } outer s') σ := by
  obtain ⟨fn₀, fr, pass, code₂, c₁, hf, hfr, hsuffix, hcode₂, hat, hgo, hheld, -, hregs, -, -, -⟩ :=
    h.passes lib hi hrest hu hnode hfn hargs hvs
  obtain ⟨c₂, e, hserve', htrace, hstaged₂, hheld₂, hresult⟩ :=
    serve_spec hserve h.staged hheld hregs
  have hat' : CodeAt img (n + pass.length + 1) (saveResult ⟨.rv32, m, fr⟩ id (.a 0) .t0 ++ code₂) :=
    (show CodeAt img _ ([_] ++ _) from hat).right
  have hcall :=
    goes_serve hat (h.staged.pointsTo hheld) (h.staged.laid.staffed.stackPointer).2 hk hserve'
  obtain ⟨fn₁, hfin, hcode⟩ := (h.staged.active _ _ _ frameAt?_self).code
  obtain rfl := Option.some.inj (hf.finished.found.symm.trans hfin.found)
  rw [hrest] at hcode
  obtain ⟨σ, hgo', hmatch⟩ :=
    resumes lib hstaged₂ hheld₂ h.chain hblock h.suspended hf hfr hcode hu hnode hcode₂ hat'
    hresult fun hnone => by
      subst hnone
      rw [hret]
      exact isUnit_of_serve hlib hk hserve
  rw [htrace] at hgo'
  exact ⟨σ, .trans_left (.trans_right hgo (.single hcall)) hgo', hmatch⟩

/-! Returns. -/

def closing (fr : Frame) : List Instr :=
  if fr.size = 0 then [] else (if fr.hasCall then loadSp .ra .t0 fr.raOffset else []) ++
    addSp fr.size

theorem epilogue_eq (fr : Frame) : epilogue fr = closing fr ++ [.ret] := rfl

theorem Running.closes (h : Running b m img top outer s place links n c) {fn : Func} {fr : Frame}
    (hf : Framed m top.func fn fr) (hfr : frameOf m top.func = some fr) {c₁ : Core}
    (hheld : Held b m ⟨top :: outer, s.mem, place, links⟩ c₁) (hra : c₁.regs .ra = c.regs .ra) :
    ∃ c₂ w ws, links = w :: ws ∧ execAll b img (closing fr) c₁ = some c₂ ∧ c₂.mem = c₁.mem ∧
      c₂.regs .sp = BitVec.ofInt 32 (stackPointer b m outer) ∧ c₂.regs .ra = w ∧
      c₂.regs (.a 0) = c₁.regs (.a 0) := by
  have hlen := h.chain.length
  obtain ⟨w, ws, rfl⟩ : ∃ w ws, links = w :: ws := List.exists_cons_of_length_eq_add_one hlen
  have hsp : stackPointer b m (top :: outer) = stackPointer b m outer - fr.size := by
    rw [stackPointer, frameSize_eq hfr]
  have hsp₁ := hheld.sp
  dsimp only at hsp₁
  rw [closing]
  have hno (hcall : fr.hasCall = false) : c₁.regs .ra = w := by
    rw [hra]
    exact (Option.some.inj (h.link fr hfr hcall)).symm
  split
  · rename_i hsize
    -- a frame with a return address in it is not empty
    have hcall : fr.hasCall = false := by
      have htop := hf.fits.top
      have hout := hf.fits.outArgs
      have hlocals := hf.fits.locals
      by_contra hcall
      rw [if_pos (by simpa using hcall)] at htop
      omega
    refine ⟨c₁, w, ws, rfl, rfl, rfl, ?_, hno hcall, rfl⟩
    rw [hsp₁, hsp, hsize, Int.sub_zero]
  · cases hcall : fr.hasCall with
    | false =>
      obtain ⟨c₂, hrun, hmem, hkeeps, hsp₂⟩ := addSp_spec (b := b) img hsp₁ fr.size
      refine ⟨c₂, w, ws, rfl, by
        simpa using hrun, hmem, ?_, by rw [hkeeps .ra (by simp)]; exact hno hcall,
        hkeeps _ (by simp)⟩
      rw [hsp₂, hsp, Int.sub_add_cancel]
    | true =>
      have hloc : Located b m ⟨top :: outer, s.mem, place, w :: ws⟩ (.link outer.length) _ :=
        .link frameAt?_self hfr hcall
      have hcont : Content b m ⟨top :: outer, s.mem, place, w :: ws⟩ (.link outer.length)
        (.word w) :=
        .link List.suffix_rfl List.suffix_rfl rfl (Nat.succ.inj hlen)
      obtain ⟨c₂, hrun₂, hmem₂, hkeeps₂, hval⟩ :=
        loadSp_spec img (h.staged.pointsTo hheld) (h.staged.laid.has hloc)
        .ra (show Reg.t0 ≠ .sp by simp)
      have hlink : c₁.mem (stackPointer b m (top :: outer) + fr.raOffset) = w :=
        hheld.agree _ _ _ hloc hcont
      obtain ⟨c₃, hrun₃, hmem₃, hkeeps₃, hsp₃⟩ :=
        addSp_spec (b := b) img ((hkeeps₂ .sp (by simp)).trans hsp₁) fr.size
      refine ⟨c₃, w, ws, rfl, execAll_trans hrun₂ hrun₃, hmem₃.trans hmem₂, ?_, ?_, ?_⟩
      · rw [hsp₃, hsp, Int.sub_add_cancel]
      · rw [hkeeps₃ .ra (by simp), hval]
        exact hlink
      · rw [hkeeps₃ _ (by simp), hkeeps₂ _ (by simp)]

theorem Staged.pop {w : Word} {ws : List Word}
    (h : Staged b m img ⟨top :: outer, s.mem, place, w :: ws⟩ s.next) :
    Staged b m img ⟨outer, (s.free top.locals).mem, place, ws⟩ s.next := by
  refine ⟨h.laid.pop (fun r cells => Store.mem_free) fun id k hnode henv => ?_, fun k hk => ?_,
    fun d a x ha => ?_⟩
  · obtain ⟨k', hk', heq, -⟩ := (h.active _ _ _ frameAt?_self).alloc id _ hnode henv
    cases heq
    exact if_pos hk'
  · obtain ⟨hnone, hplace⟩ := h.fresh k hk
    refine ⟨?_, hplace⟩
    dsimp only [Store.free] at hnone ⊢
    rw [hnone, ite_self]
  · exact h.active d a x (frameAt?_cons.mpr (.inr ⟨lt_of_frameAt? ha, ha⟩))

theorem goes_ret {t : List Event} {code : List Instr} (hat : CodeAt img n (.ret :: code)) :
    Goes b img lib ⟨n, c, t⟩ ⟨(c.regs .ra).toInt, c, t⟩ := by
  rw [Goes, step_eq rfl hat.get, perform]

theorem Running.gives_back (hi : Installed b m img)
    (h : Running b m img top outer s place links n c) {u : Value} (hu : m.value? id = some u)
    {val : Option ValueId} (hnode : u.node = .ret val)
    (hval : ∀ x, val = some x → m.Readable top.func x .i32) {result : Option Val}
    (hresult : val.mapM (top.read m) = some result) {fn : Func} {fr : Frame}
    (hf : Framed m top.func fn fr) (hfr : frameOf m top.func = some fr) :
    ∃ code c', emitInst ⟨.rv32, m, fr⟩ id = .ok (code ++ epilogue fr) ∧
      execAll b img code c = some c' ∧ c'.mem = c.mem ∧ c.Keeps [.a 0] c' ∧
      ∀ y, result = some y → Rep place y (c'.regs (.a 0)) := by
  cases val with
  | none =>
    obtain rfl : result = none := by simpa using hresult.symm
    refine ⟨[], c, ?_, rfl, rfl, .refl _ _, by simp⟩
    simp only [emitInst, Module.node?_eq hu, hnode, List.nil_append]
  | some x =>
    obtain ⟨y, hy, rfl⟩ : ∃ y, top.read m x = some y ∧ result = some y := by
      simpa [Option.map_eq_some_iff, eq_comm] using hresult
    obtain ⟨read, c', hread, hrun, hmem, hkeeps, hrep⟩ :=
      (h.poised hi hf hfr hu (by simp [hnode])).load
      (hval x rfl) (by simp [hnode, Node.operands]) hy (show Reg.a 0 ≠ .sp by simp)
    refine ⟨read, c', ?_, hrun, hmem, hkeeps, ?_⟩
    · simp only [emitInst, Module.node?_eq hu, hnode, hread]
      rfl
    · rintro _ ⟨⟩
      exact hrep

theorem returns_to_caller (lib : Library) (hi : Installed b m img) {caller : Activation} {fn : Func}
    {fr : Frame} {w : Word} {ws : List Word} {result : Option Val} (hf : Framed m top.func fn fr)
    (hchain : Chain m img (top :: caller :: outer) (w :: ws))
    (hstaged : Staged b m img ⟨caller :: outer, s.mem, place, ws⟩ s.next)
    (hheld : Held b m ⟨caller :: outer, s.mem, place, ws⟩ c)
    (hsuspended : ∀ a ∈ caller :: outer, a.block ≠ 1)
    (hresult : ∀ y, result = some y → Rep place y (c.regs (.a 0)))
    (hnone : result = none → fn.ret.isUnit = true) :
    ∃ σ, GoesOn b img lib ⟨w.toInt, c, s.trace⟩ σ ∧
    Match b m img (.running (caller.resume result) outer s) σ := by
  cases hchain with
  | @call _ _ _ _ _ id rest args fr' n code hrest hnode hfr' hcode hat hn hw hchain =>
    have hpc : w.toInt = n := by
      have hshort := hi.short
      rw [hw]
      exact toInt_ofInt (by omega) (by omega)
    -- the caller stands at the call, whose type is what the function gives back
    obtain ⟨fn', hfin, hsuffix⟩ := (hstaged.active _ _ _ frameAt?_self).code
    rw [hrest] at hsuffix
    obtain ⟨fr'', hfr'', hf'⟩ := hi.framed hfin
    obtain rfl := Option.some.inj (hfr'.symm.trans hfr'')
    obtain ⟨u, hu, -, -, hok⟩ := hfin.inst _ _ (hsuffix.mem (List.mem_cons_self ..))
    have hcall : u.node = .call top.func args := by
      rw [Module.node?_eq hu] at hnode
      exact Option.some.inj hnode
    rw [hcall] at hok
    obtain ⟨-, callee, hcallee, hty, -⟩ := hok.call_cases
    obtain rfl := Option.some.inj (hf.finished.found.symm.trans hcallee)
    obtain ⟨σ, hgo, hmatch⟩ :=
      resumes lib hstaged hheld hchain (hsuspended _ (List.mem_cons_self ..))
      (fun a ha => hsuspended a (List.mem_cons_of_mem _ ha)) hf' hfr' hsuffix hu hcall hcode hat
        hresult fun h => hty ▸ hnone h
    have hresume : caller.resume result = { caller.give id result with rest } := by
      rw [Activation.resume, hrest]
    rw [hpc, hresume]
    exact ⟨σ, hgo, hmatch⟩

theorem Running.returns (hi : Installed b m img) (h : Running b m img top outer s place links n c)
    (hrest : top.rest = id :: rest) {u : Value} (hu : m.value? id = some u) {val : Option ValueId}
    (hnode : u.node = .ret val) {cfg : Config}
    (hexec : Ir.exec m lib id { top with rest } outer s (.ret val) = some cfg) :
    ∃ σ, GoesFar b img lib ⟨n, c, s.trace⟩ σ ∧ Match b m img cfg σ := by
  obtain ⟨fn, fr, u', code₁, code₂, hf, hfr, hu', hok, -, -, hcode₁, -, hat⟩ := h.next hi hrest
  obtain rfl := Option.some.inj (hu.symm.trans hu')
  obtain ⟨result, hresult, hcfg⟩ := exec_ret hexec
  rw [hnode] at hok
  obtain ⟨hval, hvoid⟩ := hok.ret_cases
  obtain ⟨code, c₁, hcode, hrun₁, hmem₁, hkeeps₁, hrep⟩ :=
    h.gives_back hi hu hnode hval hresult hf hfr
  obtain rfl := Except.ok.inj (hcode₁.symm.trans hcode)
  have hheld₁ := h.held.keeps hmem₁ hkeeps₁ (by simp)
  obtain ⟨c₂, w, ws, rfl, hrun₂, hmem₂, hsp, hra, ha0⟩ :=
    h.closes hf hfr hheld₁ (hkeeps₁ .ra (by simp))
  rw [epilogue_eq, ← List.append_assoc, List.append_assoc] at hat
  obtain ⟨hgo, hat⟩ := goesOn_of_execAll lib (t := s.trace) hat (execAll_trans hrun₁ hrun₂)
  have hret : Goes b img lib ⟨_, c₂, s.trace⟩ ⟨(c₂.regs .ra).toInt, c₂, s.trace⟩ := goes_ret hat
  rw [hra] at hret
  have hgo' := Relation.TransGen.trans_right hgo (.single hret)
  have hstaged : Staged b m img ⟨outer, (s.free top.locals).mem, place, ws⟩
    (s.free top.locals).next := h.staged.pop
  have hheld : Held b m ⟨outer, (s.free top.locals).mem, place, ws⟩ c₂ := by
    refine ⟨?_, hsp⟩
    rw [hmem₂]
    exact hheld₁.agree.pop h.suspended fun r cells => Store.mem_free
  rcases hcfg with ⟨rfl, rfl⟩ | ⟨caller, outer', rfl, rfl⟩
  · cases h.chain
    exact ⟨_, hgo', .done hstaged.laid hheld fun y hy => by rw [ha0]; exact hrep y hy⟩
  · have hnone (heq : result = none) : fn.ret.isUnit = true := by
      have hval : val = none := by cases val <;> simp_all
      rw [hvoid hval]
      rfl
    obtain ⟨σ, hback, hmatch⟩ :=
      returns_to_caller (s := s.free top.locals) lib hi hf h.chain hstaged hheld h.suspended
      (fun y hy => ha0 ▸ hrep y hy) hnone
    exact ⟨σ, .trans_left hgo' hback, hmatch⟩

theorem Running.copies (hi : Installed b m img) (h : Running b m img top outer s place links n c)
    (hrest : top.rest = id :: rest) {u : Value} (hu : m.value? id = some u) {arg dest : ValueId}
    {i : Nat} {w : Value} (hnode : u.node = .store arg dest) (hblock : top.block = 1)
    (hw : m.value? arg = some w) (harg : w.node = .arg i) {ty : Ty}
    (hdest : m.Readable top.func dest ty) {cfg : Config}
    (hexec : Ir.exec m lib id { top with rest } outer s (.store arg dest) = some cfg) :
    ∃ σ, GoesFar b img lib ⟨n, c, s.trace⟩ σ ∧ Match b m img cfg σ := by
  obtain ⟨r, o, y, s', hy, hx, hs, rfl⟩ := exec_store hexec
  have hy' : top.args[i]? = some y := by
    simpa only [Activation.read, Module.node?_eq hw, harg, bind, Option.bind] using hy
  exact h.stores hi hrest hu hnode hdest hx hs fun fn fr hp => h.loadArg hp.frame hblock hw harg hy'

theorem Running.calls_or_serves (hi : Installed b m img)
    (h : Running b m img top outer s place links n c) (hrest : top.rest = id :: rest) {u : Value}
    (hu : m.value? id = some u) {g : FuncId} {args : List ValueId} (hnode : u.node = .call g args)
    (hblock : top.block ≠ 1) {fn : Func} (hfn : m.func? g = some fn) (hret : u.ty = fn.ret)
    (hargs : List.Forall₂ (m.Readable top.func) args fn.params) {cfg : Config}
    (hexec : Ir.exec m lib id { top with rest } outer s (.call g args) = some cfg)
    (hroom : Roomy b m img cfg) :
    ∃ σ, GoesFar b img lib ⟨n, c, s.trace⟩ σ ∧ Match b m img cfg σ := by
  obtain ⟨vs, fn', hvs, hfn', hcase⟩ := exec_call hexec
  obtain rfl := Option.some.inj (hfn.symm.trans hfn')
  rcases hcase with ⟨hdecl, k, result, s', hk, hserve, rfl⟩ | ⟨hdecl, rfl⟩
  · obtain ⟨-, -, ⟨-, hlib⟩ | hfin⟩ := hi.sound.funcs g fn hfn
    · rw [Activation.give_withRest]
      exact h.serves hi hrest hu hnode hblock hfn hlib hret hargs hvs hk hserve
    · rw [hfin.isDeclared] at hdecl
      cases hdecl
  · obtain ⟨-, -, ⟨hlayout, -⟩ | hfin⟩ := hi.sound.funcs g fn hfn
    · rw [Func.isDeclared, hlayout] at hdecl
      cases hdecl
    · have hself : ({ ({ top with rest } : Activation) with rest := id :: rest } : Activation) =
        top :=
        top.rest_self hrest
      rw [hself] at hroom ⊢
      exact h.calls hi hrest hu hnode hblock hfin hargs hvs hroom

/-- Every instruction that a run executes is one or more steps of the machine. -/
theorem Running.executes (hi : Installed b m img) (h : Running b m img top outer s place links n c)
    (hrest : top.rest = id :: rest) {node : Node} (hnode : m.node? id = some node) {cfg : Config}
    (hexec : Ir.exec m lib id { top with rest } outer s node = some cfg)
    (hroom : Roomy b m img cfg) :
    ∃ σ, GoesFar b img lib ⟨n, c, s.trace⟩ σ ∧ Match b m img cfg σ := by
  obtain ⟨fn, fr, u, -, -, hf, -, hu, hok, -⟩ := h.next hi hrest
  obtain rfl : u.node = node := by
    rw [Module.node?_eq hu] at hnode
    exact Option.some.inj hnode
  have hentry : fn.entry = 1 := hf.finished.entry
  generalize hn : u.node = node at hok
  generalize ht : u.ty = ty at hok
  rw [hn] at hexec
  cases hok with
  | alloc => cases hexec
  | param hbb harg harg' hfunc hi' hty hdest =>
    exact h.copies hi hrest hu hn (hbb.trans hentry) harg harg' hdest hexec
  | enter => exact h.jumps hi hrest hu hn hexec
  | plain hbb ht' =>
    have hblock : top.block ≠ 1 := fun h1 => hbb (h1.trans hentry.symm)
    have hty := ht'
    cases ht' with
    | store hval hdest =>
      obtain ⟨r, o, y, s', hy, hx, hs, rfl⟩ := exec_store hexec
      refine h.stores hi hrest hu hn hdest hx hs fun fn fr hp => ?_
      exact hp.load hval (by simp +contextual [hn, Node.operands]) hy (by simp)
    | call hg hargs => exact h.calls_or_serves hi hrest hu hn hblock hg ht hargs hexec hroom
    | _ =>
      exact h.typed hi hrest hu (hn ▸ hty) (by simp [hn]) (by simp [hn]) hblock (hn ▸ hexec)
  | leave hbb hl =>
    cases hl with
    | jump => exact h.jumps hi hrest hu hn hexec
    | branch hcond => exact h.branches hi hrest hu hn hcond hexec
  | ret => exact h.returns hi hrest hu hn hexec
  | retVal => exact h.returns hi hrest hu hn hexec

end

end Sysy.Assembly
