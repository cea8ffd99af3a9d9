import Sysy.Proofs.Lowering.Flows
import Sysy.Proofs.Lowering.History

/-!
Definitions come before uses: on every way from the entry of a function to an instruction, each
instruction that it uses has been passed. A way is a `Func.Path` along the jumps and branches at the
ends of blocks, and `Func.Passes` lists the instructions that are run on it.
-/

namespace Sysy.Ir

/-- A way from the entry to a block, along the last instruction of each block; `before` are the
blocks that it passes first. -/
inductive Func.Path (m : Module) (fn : Func) : (before : List BlockId) → BlockId → Prop
  | entry : Path m fn [] fn.entry
  | step {before : List BlockId} {bb next : BlockId} {id : ValueId} {v : Value}
      (h : Path m fn before bb)
      (hlast : (fn.code bb).getLast? = some id) (hv : m.value? id = some v)
        (hnext : next ∈ v.node.successors) :
      Path m fn (before ++ [bb]) next

/-- Running the instructions one after the other: those of the list are `done`, and `rest` is what
is left of the block. -/
inductive Func.Passes (m : Module) (fn : Func) : (done rest : List ValueId) → Prop
  | entry : Passes m fn [] (fn.code fn.entry)
  | inst {done rest : List ValueId} {id : ValueId} (h : Passes m fn done (id :: rest)) :
      Passes m fn (done ++ [id]) rest
  | leave {done : List ValueId} {id : ValueId} {v : Value} {next : BlockId}
      (h : Passes m fn done [id])
      (hv : m.value? id = some v) (hnext : next ∈ v.node.successors) : Passes m fn (done ++ [id])
        (fn.code next)

theorem Func.Passes.path {m : Module} {fn : Func} {done rest : List ValueId}
    (h : fn.Passes m done rest) :
    ∃ before bb i, fn.Path m before bb ∧ done = before.flatMap fn.code ++ (fn.code bb).take i ∧
      rest = (fn.code bb).drop i := by
  induction h with
  | entry => exact ⟨[], fn.entry, 0, .entry, by simp, by simp⟩
  | @inst done rest id _ ih =>
    obtain ⟨before, bb, i, hpath, rfl, hrest⟩ := ih
    have hi : i < (fn.code bb).length := by
      by_contra hle
      rw [List.drop_eq_nil_of_le (not_lt.mp hle)] at hrest
      cases hrest
    rw [List.drop_eq_getElem_cons hi, List.cons.injEq] at hrest
    obtain ⟨rfl, rfl⟩ := hrest
    refine ⟨before, bb, i + 1, hpath, ?_, rfl⟩
    rw [List.append_assoc, List.take_concat_get' _ _ hi]
  | @leave done id v next _ hv hnext ih =>
    obtain ⟨before, bb, i, hpath, rfl, hrest⟩ := ih
    have hcode : fn.code bb = (fn.code bb).take i ++ [id] := by rw [hrest, List.take_append_drop]
    refine ⟨before ++ [bb], next, 0, .step hpath ?_ hv hnext, ?_, by simp⟩
    · rw [hcode, List.getLast?_concat]
    · rw [List.append_assoc, ← hcode]
      simp

end Sysy.Ir

namespace Sysy.Lowering
open Ir

variable {α β : Type} {t : Target} {s s' s'' : State} {e : Bool} {P : Set Nat} {m m' : Module}
  {f : Nat} {fn : Func}
  {D D' D'' : BlockId → Set ValueId}

theorem Entering.fixed {m₀ : Module} {fn₀ : Func} {c x : Nat} {ty : Ty} (h : Entering m₀ f fn₀ c m)
    (hr : m.Readable f x ty) : Fixed m x := by
  obtain ⟨v, hv, -, hread⟩ := hr
  refine ⟨v, hv, ?_⟩
  rcases hread.cases with ⟨w, hnode⟩ | ⟨init, hnode⟩ | ⟨hfunc, harg⟩
  · exact .inr (by rw [hnode]; rfl)
  · exact .inr (by rw [hnode]; rfl)
  · obtain ⟨fn, hc, -, -, -, -, hempty, -⟩ := h.code
    have hmem := hc.own x v hv hfunc harg
    obtain ⟨v', hv', -, -, hok⟩ := hc.inst _ x hmem
    obtain rfl := Option.some.inj (hv.symm.trans hv')
    have hblock : v.block = fn.entry := by
      rw [hc.entry]
      by_contra hne
      rw [hempty _ hne] at hmem
      cases hmem
    have hentry := hc.entry
    have hexit := hc.exit
    unfold Value.IsReadable at hread
    generalize v.node = node at *
    generalize v.ty = ty' at *
    cases hok with
    | alloc => exact .inl rfl
    | param | enter => exact hread.elim
    | plain hne | leave hne => exact absurd hblock hne
    | ret hbb | retVal hbb => lia

theorem Begins.flow {d : FuncDef} (h : Begins s d t s') : Flow t (fun _ => ∅) s' := by
  obtain ⟨params, args, ret, hE, -⟩ := h.entering
  obtain ⟨fn, hc, -, -, -, -, hempty, -⟩ := hE.code
  have hentry : ∀ bb, ∀ id ∈ fn.code bb, bb = 1 := by
    intro bb id hid
    by_contra hne
    rw [hempty bb hne] at hid
    cases hid
  have hbinding {b : Binding} (hb : BindingOk s'.module t.func b) : IsRooted s'.module b := by
    cases b with
    | const _ | func _ => trivial
    | var ptr _ =>
      obtain ⟨ty, hread, -⟩ := hb
      exact hE.fixed hread
  refine ⟨fun fn' hf' => ?_, ⟨fun p hp => hbinding (h.here.scope.outer p hp _),
    fun fr hfr p hp => hbinding (h.here.scope.inner fr hfr p hp)⟩,
      fun r hr => hE.fixed (h.here.result r hr)⟩
  obtain rfl := Option.some.inj (hc.found.symm.trans hf')
  refine ⟨rfl, rfl, fun bb id hid v hv x hx => ?_, fun bb id hid v hv next hnext x hx => hx.elim⟩
  obtain rfl := hentry bb id hid
  obtain ⟨v', hv', -, -, hok⟩ := hc.inst _ id hid
  obtain rfl := Option.some.inj (hv.symm.trans hv')
  rcases hok.operand x hx with ⟨ty, hread⟩ | ⟨w, i, hw, hnode, -⟩
  · obtain ⟨w, hw, -, hread'⟩ := hread
    refine ⟨w, hw, fun hi => ?_⟩
    rcases hread'.cases with ⟨_, hnode⟩ | ⟨_, hnode⟩ | ⟨hfunc, harg⟩
    · rw [hnode] at hi
      cases hi
    · rw [hnode] at hi
      cases hi
    · have hmem := hc.own x w hw hfunc harg
      rw [hentry _ x hmem] at hmem
      exact .inl hmem
  · exact ⟨w, hw, fun hi => by rw [hnode] at hi; cases hi⟩

theorem Dominated.completes {m' : Module} {fn' : Func} (h : Dominated m fn D)
    (hc : Coded m t.func fn) (he : Extends m m') (hc' : Completes t 3 fn fn' m') (hbody : D 3 = ∅)
    (hexit : t.exit = 2)
    (hresult : ∀ r, t.result = some r → ∃ w, m.value? r = some w ∧
      (w.node.isInst = true → r ∈ fn.code 1))
    (hcode : ∀ bb, fn.code bb ⊆ fn'.code bb) : Dominated m' fn' D := by
  -- what is new: the jump out of the entry, the code of the exit, and the jump out of the last
  -- block
  refine (h.extends hc he).grow hcode fun bb id hid hnew v hv => ?_
  have hlast {j : Nat} (hj : fn'.code bb = fn.code bb ++ [j]) : id = j := by
    rw [hj, List.mem_append, List.mem_singleton] at hid
    exact hid.resolve_left hnew
  by_cases h₁ : bb = 1
  · subst h₁
    obtain ⟨j, w, hj, hw, hnode⟩ := hc'.entry
    obtain rfl := hlast hj
    obtain rfl := Option.some.inj (hv.symm.trans hw)
    simp [hnode, Node.operands, Node.successors, hbody]
  by_cases h₂ : bb = 2
  · subst h₂
    obtain ⟨before, r, w, val, hcode₂, hw, hnode, hrest⟩ := hc'.exit
    rw [hcode₂, List.mem_append, List.mem_singleton] at hid
    rcases hrest with ⟨-, rfl, rfl⟩ | ⟨slot, l, u, hslot, rfl, rfl, hu, hload⟩
    · obtain rfl := hid.resolve_left (by simp)
      obtain rfl := Option.some.inj (hv.symm.trans hw)
      simp [hnode, Node.operands, Node.successors]
    · rcases hid with hid | rfl
      · obtain rfl := List.mem_singleton.mp hid
        obtain rfl := Option.some.inj (hv.symm.trans hu)
        rw [hload]
        refine ⟨fun x hx => ?_, by simp [Node.successors]⟩
        simp only [Node.operands, List.mem_filter, List.mem_singleton] at hx
        obtain ⟨w', hw', hmem⟩ := hresult slot hslot
        exact ⟨w', by
          rw [hx.1]; exact he.value hw', fun hi => .inl (hcode 1 (by rw [hx.1]; exact hmem hi))⟩
      · obtain rfl := Option.some.inj (hv.symm.trans hw)
        rw [hnode]
        refine ⟨fun x hx => ?_, by simp [Node.successors]⟩
        simp only [Node.operands, Option.toList_some, List.mem_filter, List.mem_singleton] at hx
        exact ⟨u, by rw [hx.1]; exact hu, fun _ => .inr (.inl (by rw [hcode₂, hx.1]; simp))⟩
  by_cases h₃ : bb = fn.current
  · subst h₃
    rcases hc'.tail with ⟨-, hnil, -⟩ | ⟨j, w, hj, hw, hnode⟩
    · rw [hnil] at hid
      cases hid
    · obtain rfl := hlast hj
      obtain rfl := Option.some.inj (hv.symm.trans hw)
      simp [hnode, Node.operands, Node.successors, hexit, h.exit]
  · rw [hc'.other bb h₁ h₃ h₂] at hid
    exact absurd hid hnew

theorem Lowered.dominated {d : FuncDef} {s₀ s₁ s₂ s₃ : State} (h : Lowered m fn d t s₀ s₁ s₂ s₃) :
    ∃ D, Dominated m fn D := by
  have hnil : LoopsOk s₁.module t.func [] := by simp [LoopsOk]
  obtain ⟨D, hflow, hpast, -⟩ :=
    (runs_lowerStmts h.begins.here h.begins.flow hnil (by simp [LoopsLive]) d.body).ok h.body
  obtain ⟨-, h₂⟩ := (lasts_lowerStmts h.begins.here hnil d.body).ok h.body
  obtain ⟨params, args, ret, hE, hret, -⟩ := h.begins.entering
  obtain ⟨fn₁, hc₁, hb₁, -⟩ := hE.code
  obtain ⟨fn₂, hbody, -⟩ := h₂.body
  obtain ⟨fn₂', hf₂', hb₂⟩ := hpast.grown.func hc₁.found
  obtain rfl := Option.some.inj (hbody.found.symm.trans hf₂')
  have hret₂ : fn₂.ret = if t.result.isSome then .i32 else .unit :=
    by rw [hb₂.ret, hb₁.ret]; exact hret
  obtain ⟨-, fn₃, hfin, hw, hcomp⟩ :=
    (gives_finish h₂ hbody.found (h.begins.isTarget hpast.grown) hret₂).ok h.finish
  obtain rfl := Option.some.inj (hfin.found.symm.trans h.found)
  have hD₃ : D 3 = ∅ := hpast.keep 3 (h.begins.isTarget (.refl _))
  refine ⟨D, ((hflow.dominated fn₂ hbody.found).completes hbody.toCoded hw.touches.grown hcomp hD₃
    h.begins.exit
    (fun r hr => ?_) fun bb => (hw.before.code bb).subset).extends hfin.toCoded h.grown⟩
  obtain ⟨w, hw, hnode⟩ := hflow.result r hr
  refine ⟨w, hw, fun hi => ?_⟩
  obtain ⟨w', hw', -, hread⟩ := h₂.result r hr
  obtain rfl := Option.some.inj (hw.symm.trans hw')
  rcases hnode with halloc | hnot
  · exact hbody.entry_of_alloc hw hread halloc
  · rw [hnot] at hi
    cases hi

/-! Ways through a function. -/

theorem Dominated.path {before : List BlockId} {bb x : Nat} (h : Dominated m fn D)
    (hentry : fn.entry = 1) (hp : fn.Path m before bb) (hx : x ∈ D bb) :
    ∃ b ∈ before, x ∈ fn.code b := by
  induction hp with
  | entry =>
    rw [hentry, h.entry] at hx
    exact hx.elim
  | @step before bb next id v _ hlast hv hnext ih =>
    rcases h.edge bb id (List.mem_of_getLast? hlast) v hv next hnext x hx with hcode | hD
    · exact ⟨bb, by simp, hcode⟩
    · obtain ⟨b, hb, hcode⟩ := ih hD
      exact ⟨b, List.mem_append_left _ hb, hcode⟩

theorem entry_mem_of_path {before : List BlockId} {bb : Nat} (hp : fn.Path m before bb) :
    before = [] ∧ bb = fn.entry ∨ fn.entry ∈ before := by
  induction hp with
  | entry => exact .inl ⟨rfl, rfl⟩
  | step _ _ _ _ ih =>
    rcases ih with ⟨rfl, rfl⟩ | hmem
    · exact .inr (by simp)
    · exact .inr (List.mem_append_left _ hmem)

theorem mem_take_of_lt {l : List Nat} {i x y : Nat} (h : l.Pairwise (· < ·)) (hi : l[i]? = some y)
    (hx : x ∈ l) (hlt : x < y) : x ∈ l.take i := by
  obtain ⟨hi', rfl⟩ := List.getElem?_eq_some_iff.mp hi
  obtain ⟨j, hj, rfl⟩ := List.getElem_of_mem hx
  rw [List.mem_take_iff_getElem]
  refine ⟨j, ?_, rfl⟩
  by_contra hle
  rcases Nat.lt_or_eq_of_le (show i ≤ j by omega) with hij | rfl
  · have := List.pairwise_iff_getElem.mp h i j hi' hj hij
    omega
  · omega

/-- On every way through a function that was lowered, what an instruction uses comes before it. -/
theorem Finished.dominated {before : List BlockId} {bb i id : Nat} {v : Value} (h : Finished m f fn)
    (hl : Linked m) (hd : Dominated m fn D) (hp : fn.Path m before bb)
    (hid : (fn.code bb)[i]? = some id) (hv : m.value? id = some v) :
    ∀ x ∈ v.node.operands, ∃ w, m.value? x = some w ∧
      (w.node.isInst = true → (∃ b ∈ before, x ∈ fn.code b) ∨ x ∈ (fn.code bb).take i) ∧
      ∀ k, w.node = .arg k → w.func = fn.id := by
  intro x hx
  have hmem := List.mem_of_getElem? hid
  obtain ⟨hlt, -⟩ := hl.operand id v hv x hx
  obtain ⟨w, hw, hinst⟩ := hd.use bb id hmem v hv x hx
  have hhere (hcode : x ∈ fn.code bb) : x ∈ (fn.code bb).take i :=
    mem_take_of_lt (h.sorted bb) hid hcode hlt
  refine ⟨w, hw, fun hi => ?_, fun k hk => ?_⟩
  · rcases hinst hi with hentry | hcode | hD
    · rcases entry_mem_of_path hp with ⟨rfl, rfl⟩ | hbefore
      · exact .inr (hhere (by rw [h.entry]; exact hentry))
      · exact .inl ⟨_, hbefore, by rw [h.entry]; exact hentry⟩
    · exact .inr (hhere hcode)
    · exact .inl (hd.path h.entry hp hD)
  · obtain ⟨v', hv', -, -, hok⟩ := h.inst bb id hmem
    obtain rfl := Option.some.inj (hv.symm.trans hv')
    rcases hok.operand x hx with ⟨ty, w', hw', -, hread⟩ | ⟨w', i, hw', -, hfunc, -⟩
    · obtain rfl := Option.some.inj (hw.symm.trans hw')
      simp only [Value.IsReadable, hk] at hread
    · obtain rfl := Option.some.inj (hw.symm.trans hw')
      rw [hfunc, h.ident]

/-- Definitions dominate uses: on every way from the entry of a function, what an instruction uses
stands in a block of the way or earlier in its own block. -/
theorem lower_dominates {p : Program} (h : p.lower = .ok m) (hfn : fn ∈ m.funcs.toList)
    (hcode : fn.isDeclared = false) :
    (∀ before bb, fn.Path m before bb → ∀ i id v, (fn.code bb)[i]? = some id →
      m.value? id = some v → ∀ x ∈ v.node.operands, ∃ w, m.value? x = some w ∧
        (w.node.isInst = true → (∃ b ∈ before, x ∈ fn.code b) ∨ x ∈ (fn.code bb).take i) ∧
        ∀ k, w.node = .arg k → w.func = fn.id) ∧
    ∀ done id rest, fn.Passes m done (id :: rest) → ∃ v, m.value? id = some v ∧
      ∀ x ∈ v.node.operands, ∃ w, m.value? x = some w ∧ (w.node.isInst = true → x ∈ done) := by
  obtain ⟨scope, hready⟩ := ready_of_lower h
  obtain ⟨f, hfin⟩ := hready.sound.finished hfn hcode
  have hlayout : fn.layout ≠ #[] := by simpa [Func.isDeclared] using hcode
  obtain ⟨_, _, _, _, _, _, _, -, -, hlow⟩ := recorded_of_lower h f fn hfin.found hlayout
  obtain ⟨D, hd⟩ := hlow.dominated
  refine ⟨fun before bb hp i id v hid hv => hfin.dominated hready.sound.linked hd hp hid hv, ?_⟩
  intro done id rest hpasses
  obtain ⟨before, bb, i, hp, rfl, hrest⟩ := hpasses.path
  have hid : (fn.code bb)[i]? = some id := by
    rw [← List.head?_drop, ← hrest]
    rfl
  obtain ⟨v, hv⟩ := hfin.defined (List.mem_of_getElem? hid)
  refine ⟨v, hv, fun x hx => ?_⟩
  obtain ⟨w, hw, hinst, -⟩ := hfin.dominated hready.sound.linked hd hp hid hv x hx
  refine ⟨w, hw, fun hi => ?_⟩
  rcases hinst hi with ⟨b, hb, hmem⟩ | hmem
  · exact List.mem_append_left _ (List.mem_flatMap.mpr ⟨b, hb, hmem⟩)
  · exact List.mem_append_right _ hmem

theorem lower_dominates_gridSample :
    ∃ m fn, gridSample.lower = .ok m ∧ fn ∈ m.funcs.toList ∧ fn.isDeclared = false ∧
      ∀ done id rest, fn.Passes m done (id :: rest) → ∃ v, m.value? id = some v ∧
        ∀ x ∈ v.node.operands, ∃ w, m.value? x = some w ∧ (w.node.isInst = true → x ∈ done) := by
  obtain ⟨m, hm⟩ := exists_lower_gridSample
  have hsize : (gridSample.lower.toOption.any fun m => m.funcs.toList.any (!·.isDeclared)) = true :=
    by decide +kernel
  rw [hm] at hsize
  obtain ⟨fn, hfn, hcode⟩ := List.any_eq_true.mp hsize
  exact ⟨m, fn, hm, hfn, by simpa using hcode, (lower_dominates hm hfn (by simpa using hcode)).2⟩

end Sysy.Lowering
