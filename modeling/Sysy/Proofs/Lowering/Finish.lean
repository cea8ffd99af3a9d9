import Sysy.Proofs.Lowering.Soundness

/-!
The end of a function: the entry goes to the body, the last block of the body goes to the exit or is
dropped, and the exit returns.
-/

namespace Sysy.Lowering
open Ir

variable {t : Target} {s s' : State} {m m' : Module} {f bb : Nat} {fn : Func}

structure Sealed (m : Module) (f : FuncId) (fn : Func) : Prop extends Coded m f fn where
  open_exit : 2 ∉ fn.layout.toList
  ended : ∀ bb ∈ fn.layout.toList, m.Ended (fn.code bb) = true
  targets : ∀ bb id, (bb, id) ∈ fn.jumps → bb ∈ fn.layout.toList ∨ bb = 2

theorem Coded.inst_more (h : Coded m f fn) {node : Node} {ty : Ty} (hplaced : bb ∈ fn.layout.toList)
    (hopen : m.Ended (fn.code bb) = false) (hok : InstOk m f fn bb node ty) (name : String) :
    let v : Value := { node, ty, name, func := f, block := bb }
    let fn' := (fn.push bb (m.values.size + 1)).record node.successors (m.values.size + 1)
    Build.Takes m f bb ∧ Coded (m.close f v) f fn' ∧ Touches f m (m.close f v) ∧
      (Linked m → Linked (m.close f v)) ∧ fn.Before fn' ∧
      (∀ x, fn'.code x = if x = bb then fn.code x ++ [m.values.size + 1] else fn.code x) ∧
      (m.close f v).value? (m.values.size + 1) = some v := by
  intro v fn'
  obtain ⟨h₁, h₂⟩ := h.bounds bb hplaced
  have htakes := (h.takes_iff h₁ h₂).mpr hopen
  refine ⟨htakes, h.close (v := v) rfl htakes hplaced hok, ?_⟩
  have hcode := Coded.code_close (v := v) (m.values.size + 1) htakes h.found
  obtain ⟨fn₁, b, hf, hb, -⟩ := htakes
  obtain rfl := Option.some.inj (h.found.symm.trans hf)
  exact ⟨.close hf hb rfl hok, fun hl => hl.close hf hb (.of_instOk hl.callable hok),
    (Func.before_push hb).trans (Func.before_record _), hcode, by
      rw [Module.value?_close, if_pos rfl]⟩

theorem Coded.unplace (h : Coded m f fn) (hne : bb ≠ 1) (hempty : fn.code bb = []) :
    Coded (m.modifyFunc f (·.unplace bb)) f (fn.unplace bb) := by
  have hlayout : (fn.unplace bb).layout.toList = fn.layout.toList.filter (· ≠ bb) := by
    simp [Func.unplace]
  have hb : fn.Before (fn.unplace bb) :=
    ⟨rfl, rfl, rfl, rfl, rfl, rfl, rfl, le_rfl, fun _ => List.prefix_rfl⟩
  have he : Extends m _ := Extends.modifyFunc h.found (·.unplace bb) hb
  refine { h with
    found := by
      rw [Module.func?_modifyFunc _ _ (Module.bounds_of_func? h.found).1, if_pos rfl, h.found]
      rfl
    nodup := by rw [hlayout]; exact h.nodup.filter _
    first := ?_
    bounds := fun x hx => ?_
    empty := fun x hx => ?_
    inst := fun x id hid => h.inst_extends he hb hid }
  · obtain ⟨rest, hrest⟩ := List.head?_eq_some_iff.mp h.first
    rw [hlayout, hrest, List.filter_cons_of_pos (by simpa using hne.symm)]
    rfl
  · rw [hlayout] at hx
    exact h.bounds x (List.mem_filter.mp hx).1
  · rw [hlayout, List.mem_filter, not_and] at hx
    by_cases hmem : x ∈ fn.layout.toList
    · obtain rfl : x = bb := by simpa using hx hmem
      exact hempty
    · exact h.empty x hmem

structure Worked (f : FuncId) (fn : Func) (m : Module) (fn' : Func) (m' : Module) : Prop where
  touches : Touches f m m'
  linked : Linked m → Linked m'
  before : fn.Before fn'

theorem Worked.trans {fn fn' fn'' : Func} {m m' m'' : Module} (h : Worked f fn m fn' m')
    (h' : Worked f fn' m' fn'' m'') : Worked f fn m fn'' m'' :=
  ⟨h.touches.trans h'.touches, fun hl => h'.linked (h.linked hl), h.before.trans h'.before⟩

def Returns (t : Target) (m : Module) (fn : Func) : Prop :=
  ∃ before r v val, fn.code 2 = before ++ [r] ∧ m.value? r = some v ∧ v.node = .ret val ∧
    (t.result = none ∧ before = [] ∧ val = none ∨ ∃ slot l u, t.result = some slot ∧ before = [l] ∧
      val = some l ∧
      m.value? l = some u ∧ u.node = .load slot)

structure Completes (t : Target) (body : BlockId) (fn fn' : Func) (m' : Module) : Prop where
  entry : ∃ j v, fn'.code 1 = fn.code 1 ++ [j] ∧ m'.value? j = some v ∧ v.node = .jump body
  /-- The last block is dropped, or goes to the exit. -/
  tail : fn.code fn.current = [] ∧ fn'.code fn.current = [] ∧ (∀ id, (fn.current, id) ∉ fn'.jumps) ∨
    ∃ j v, fn'.code fn.current = fn.code fn.current ++ [j] ∧ m'.value? j = some v ∧
      v.node = .jump t.exit
  other : ∀ bb, bb ≠ 1 → bb ≠ fn.current → bb ≠ 2 → fn'.code bb = fn.code bb
  exit : Returns t m' fn'

/-! What `finish` does behind the jump from the entry: the end of the body, and the exit. -/

def layTail (t : Target) (tail : BlockId) (m : Module) (fn : Func) (b : Block) : Lower Unit :=
  if b.insts.isEmpty && (fn.blockUsers tail).isEmpty then build (Build.unplace t.func tail)
  else if !m.isTerminated b then do
    let _ ← build (Build.jump t.func t.exit)
  else pure ()

def layExit (t : Target) : Lower Unit := do
  startBlock t t.exit
  match t.result with
  | some slot =>
    let v ← build (Build.load t.func slot)
    let _ ← build (Build.ret t.func (some v))
  | none =>
    let _ ← build (Build.ret t.func none)

theorem finish_eq (t : Target) (entry body : BlockId) : finish t entry body = (do
    let _ ← build (Build.jumpAt t.func entry body)
    let tail ← build (Build.current t.func)
    let m := (← get).module
    match (m.func? t.func).bind fun fn => (fn.block? tail).map fun b => (fn, b) with
    | none => return
    | some (fn, b) =>
      layTail t tail m fn b
      layExit t) := by
  unfold finish
  congr 1
  funext _
  congr 1
  funext tail
  congr 1
  funext s
  dsimp only
  cases (s.module.func? t.func).bind fun fn => (fn.block? tail).map fun b => (fn, b) with
  | none => rfl
  | some p =>
    dsimp only
    unfold layTail
    split
    · rfl
    · split
      · rw [bind_assoc]
        rfl
      · rfl

structure Headed (t : Target) (body : BlockId) (fn : Func) (m : Module) (fn₁ : Func)
    (m₁ : Module) : Prop extends Coded m₁ t.func fn₁ where
  worked : Worked t.func fn m fn₁ m₁
  layout : fn₁.layout = fn.layout
  current_eq : fn₁.current = fn.current
  jump : ∃ j v, fn₁.code 1 = fn.code 1 ++ [j] ∧ m₁.value? j = some v ∧ v.node = .jump body
  code_eq : ∀ bb, bb ≠ 1 → fn₁.code bb = fn.code bb
  open_exit : 2 ∉ fn₁.layout.toList
  placed : fn₁.current ∈ fn₁.layout.toList
  current_ne : fn₁.current ≠ 1
  open_tail : m₁.Ended (fn₁.code fn₁.current) = false
  ended : ∀ bb ∈ fn₁.layout.toList, bb ≠ fn₁.current → m₁.Ended (fn₁.code bb) = true
  targets : ∀ bb id, (bb, id) ∈ fn₁.jumps → bb ∈ fn₁.layout.toList ∨ bb = 2

theorem gives_headed {body : Nat} (h : At t false {2} s) (hf : s.module.func? t.func = some fn)
    (hbody : IsTarget s.module t.func body) :
    Gives (build (Build.jumpAt t.func 1 body)) s fun _ s' =>
      s'.scope = s.scope ∧ ∃ fn₁, Headed t body fn s.module fn₁ s'.module := by
  obtain ⟨fn₀, hB, hopen, hP⟩ := h.body
  obtain rfl := Option.some.inj (hf.symm.trans hB.found)
  obtain ⟨fn₀, hf₀, hlow, hhigh⟩ := hbody
  obtain rfl := Option.some.inj (hf.symm.trans hf₀)
  obtain ⟨htakes, hc, ht, hl, hb, hcode, hnew⟩ :=
    hB.toCoded.inst_more (List.mem_of_mem_head? hB.first) hB.entry_open
    (.enter hB.entry.symm hlow hhigh) ""
  refine Gives.build (Build.jumpAt_eq hf htakes body) ⟨rfl, _, { hc with
    worked := ⟨ht, hl, hb⟩
    layout := rfl
    current_eq := rfl
    jump := ⟨_, _, by rw [hcode, if_pos rfl], hnew, rfl⟩
    code_eq := fun bb hne => by rw [hcode, if_neg hne]
    open_exit := hB.open_exit
    placed := hB.current
    current_ne := hB.current_ne
    open_tail := ?_
    ended := fun bb hbb hne => ?_
    targets := fun bb id hmem => ?_ }⟩
  · change (s.module.close t.func _).Ended (Func.code _ fn.current) = false
    rw [hcode, if_neg hB.current_ne, hB.ended_eq ht.grown]
    exact hopen
  · rw [hcode]
    split
    · exact Module.ended_append hnew
    · rename_i hne1
      rw [hB.ended_eq ht.grown]
      exact hB.closed bb hbb hne1 hne
  · -- a target that is not laid out is a block that waits, and only the exit does
    obtain ⟨v, b, hv, hid, hsucc⟩ := (hc.jumps bb id).mp hmem
    obtain ⟨v', hv', -, -, hok⟩ := hc.inst b id hid
    obtain rfl := Option.some.inj (hv.symm.trans hv')
    obtain ⟨hlow', hhigh'⟩ := hok.successors bb hsucc
    have hentry := hc.entry
    have hsize : fn.blocks.size = ((fn.push 1 (s.module.values.size + 1)).record
      (Node.jump body).successors
      (s.module.values.size + 1)).blocks.size := by simp [Func.record]
    by_contra hnot
    rw [not_or] at hnot
    exact hnot.2 ((hP bb).mpr ⟨by lia, by lia, hnot.1⟩)

structure Tailed (t : Target) (fn₁ : Func) (m₁ : Module) (fn₂ : Func) (m₂ : Module) : Prop
    extends Sealed m₂ t.func fn₂ where
  worked : Worked t.func fn₁ m₁ fn₂ m₂
  rest : ∀ bb, bb ≠ fn₁.current → fn₂.code bb = fn₁.code bb
  tail : fn₁.code fn₁.current = [] ∧ fn₂.code fn₁.current = [] ∧
    (∀ id, (fn₁.current, id) ∉ fn₂.jumps) ∨
    ∃ j v, fn₂.code fn₁.current = fn₁.code fn₁.current ++ [j] ∧ m₂.value? j = some v ∧
      v.node = .jump t.exit

/-- A last block that nothing leads to is dropped. -/
theorem Headed.unplace {body : Nat} {fn₁ : Func} {m₁ : Module} (h : Headed t body fn m fn₁ m₁)
    (hempty : fn₁.code fn₁.current = []) (hunused : ∀ id, (fn₁.current, id) ∉ fn₁.jumps) :
    Tailed t fn₁ m₁ (fn₁.unplace fn₁.current) (m₁.modifyFunc t.func (·.unplace fn₁.current)) := by
  have hbefore : fn₁.Before (fn₁.unplace fn₁.current) :=
    ⟨rfl, rfl, rfl, rfl, rfl, rfl, rfl, le_rfl, fun _ => List.prefix_rfl⟩
  have hlayout : (fn₁.unplace fn₁.current).layout.toList = fn₁.layout.toList.filter
    (· ≠ fn₁.current) := by
    simp [Func.unplace]
  refine { h.toCoded.unplace h.current_ne hempty with
    open_exit := fun hmem => ?_
    ended := fun bb hbb => ?_
    targets := fun bb id hmem => ?_
    worked := ⟨.modifyFunc h.found hbefore, fun hl => hl.modifyFunc h.found hbefore, hbefore⟩
    rest := fun _ _ => rfl
    tail := .inl ⟨hempty, hempty, hunused⟩ }
  · rw [hlayout, List.mem_filter] at hmem
    exact h.open_exit hmem.1
  · rw [hlayout, List.mem_filter] at hbb
    exact h.ended bb hbb.1 (by simpa using hbb.2)
  · have hne : bb ≠ fn₁.current := by
      rintro rfl
      exact hunused id hmem
    rw [hlayout, List.mem_filter]
    exact (h.targets bb id hmem).imp_left fun hmem => ⟨hmem, by simpa using hne⟩

theorem Headed.gives_leave {body : Nat} {fn₁ : Func} (h : Headed t body fn m fn₁ s.module)
    (hexit : t.exit = 2) :
    Gives (build (Build.jump t.func t.exit)) s fun _ s' =>
      s'.scope = s.scope ∧ ∃ fn₂, Tailed t fn₁ s.module fn₂ s'.module := by
  have hleave : InstOk s.module t.func fn₁ fn₁.current (.jump t.exit) .unit := by
    have hentry := h.entry
    have hblocks := h.blocks
    exact .leave (by rw [hentry]; exact h.current_ne) (.jump (by lia) (by lia))
  obtain ⟨htakes, hc, ht, hl, hb, hcode, hnew⟩ := h.toCoded.inst_more h.placed h.open_tail hleave ""
  refine Gives.build (Build.jump_eq h.found htakes t.exit) ⟨rfl, _, { hc with
    open_exit := h.open_exit
    ended := fun bb hbb => ?_
    targets := fun bb id hmem => ?_
    worked := ⟨ht, hl, hb⟩
    rest := fun bb hne => by rw [hcode, if_neg hne]
    tail := .inr ⟨_, _, by rw [hcode, if_pos rfl], hnew, rfl⟩ }⟩
  · rw [hcode]
    split
    · exact Module.ended_append hnew
    · rename_i hne
      rw [h.ended_eq ht.grown]
      exact h.ended bb hbb hne
  · have hmem' : (bb, id) ∈ fn₁.jumps ∨ bb = t.exit ∧ id = s.module.values.size + 1 := by
      simpa [Func.record, Func.push, Node.successors] using hmem
    rcases hmem' with hmem' | ⟨rfl, -⟩
    · exact h.targets bb id hmem'
    · exact .inr hexit

theorem Headed.gives_layTail {body : Nat} {fn₁ : Func} {b : Block}
    (h : Headed t body fn m fn₁ s.module) (hblock : fn₁.block? fn₁.current = some b)
    (hexit : t.exit = 2) :
    Gives (layTail t fn₁.current s.module fn₁ b) s fun _ s' =>
      s'.scope = s.scope ∧ ∃ fn₂, Tailed t fn₁ s.module fn₂ s'.module := by
  unfold layTail
  split
  · rename_i hdrop
    rw [Bool.and_eq_true, Array.isEmpty_iff, List.isEmpty_iff] at hdrop
    have hempty : fn₁.code fn₁.current = [] := by rw [Func.code_eq hblock, hdrop.1]
    have hunused : ∀ id, (fn₁.current, id) ∉ fn₁.jumps := by
      intro id hmem
      have hmem' : id ∈ fn₁.blockUsers fn₁.current := by
        simp only [Func.blockUsers, List.mem_map, List.mem_filter]
        exact ⟨_, ⟨Array.mem_toList_iff.mpr hmem, by simp⟩, rfl⟩
      rw [hdrop.2] at hmem'
      cases hmem'
    exact ⟨rfl, _, h.unplace hempty hunused⟩
  · rw [if_pos (by rw [Module.isTerminated_eq, ← Func.code_eq hblock, h.open_tail]; rfl)]
    exact Gives.bind (h.gives_leave hexit) fun _ s' hs' => Gives.pure hs'

structure AtExit (f : FuncId) (fn : Func) (m : Module) (fn₁ : Func) (m₁ : Module) :
    Prop extends Coded m₁ f fn₁ where
  before : Sealed m f fn
  worked : Worked f fn m fn₁ m₁
  code_eq : ∀ bb, bb ≠ 2 → fn₁.code bb = fn.code bb
  layout : fn₁.layout.toList = fn.layout.toList ++ [2]
  jumps_eq : fn₁.jumps = fn.jumps
  current : fn₁.current = 2
  open_code : m₁.Ended (fn₁.code 2) = false

theorem Sealed.start (h : Sealed m f fn) :
    AtExit f fn m (fn.start 2) (m.modifyFunc f (·.start 2)) where
  toCoded := h.toCoded.start (by decide) h.blocks h.open_exit
  before := h
  worked := ⟨.modifyFunc h.found Func.before_start, fun hl =>
    hl.modifyFunc h.found Func.before_start, Func.before_start⟩
  code_eq _ _ := rfl
  layout := Coded.layout_start
  jumps_eq := rfl
  current := rfl
  open_code := by
    change Module.Ended _ (fn.code 2) = false
    rw [h.empty 2 h.open_exit]
    rfl

namespace AtExit
variable {fn₁ : Func} {m₁ : Module} {node : Node} {ty : Ty}

theorem placed (h : AtExit f fn m fn₁ m₁) : 2 ∈ fn₁.layout.toList := by
  rw [h.layout]
  exact List.mem_append_right _ (List.mem_singleton.mpr rfl)

theorem more (h : AtExit f fn m fn₁ m₁) (hok : InstOk m₁ f fn₁ 2 node ty)
    (hnext : node.successors = []) :
    let v : Value := { node, ty, func := f, block := 2 }
    let fn₂ := (fn₁.push 2 (m₁.values.size + 1)).record node.successors (m₁.values.size + 1)
    let m₂ := m₁.close f v
    Build.Takes m₁ f 2 ∧ Coded m₂ f fn₂ ∧ Extends m₁ m₂ ∧ Worked f fn m fn₂ m₂ ∧
      (∀ bb, bb ≠ 2 → fn₂.code bb = fn.code bb) ∧
      fn₂.layout.toList = fn.layout.toList ++ [2] ∧ fn₂.jumps = fn.jumps ∧
      fn₂.code 2 = fn₁.code 2 ++ [m₁.values.size + 1] ∧ m₂.value? (m₁.values.size + 1) =
        some v := by
  intro v fn₂ m₂
  obtain ⟨htakes, hc, ht, hl, hb, hcode, hnew⟩ := h.toCoded.inst_more h.placed h.open_code hok ""
  refine ⟨htakes, hc, ht.grown, h.worked.trans ⟨ht, hl, hb⟩, fun bb hne => ?_, h.layout,
    ?_, ?_, hnew⟩
  · rw [hcode, if_neg hne]
    exact h.code_eq bb hne
  · simpa [fn₂, Func.record, Func.push, hnext] using h.jumps_eq
  · rw [hcode, if_pos rfl]

end AtExit

theorem AtExit.gives_ret {fn₁ : Func} {val : Option ValueId} (h : AtExit t.func fn m fn₁ s.module)
    (hok : InstOk s.module t.func fn₁ 2 (.ret val) .unit)
    (hval : t.result = none ∧ fn₁.code 2 = [] ∧ val = none ∨ ∃ slot l u, t.result = some slot ∧
      fn₁.code 2 = [l] ∧ val = some l ∧ s.module.value? l = some u ∧ u.node = .load slot) :
    Gives (build (Build.ret t.func val)) s fun _ s' =>
      s'.scope = s.scope ∧ ∃ fn₂, Finished s'.module t.func fn₂ ∧
      Worked t.func fn m fn₂ s'.module ∧ (∀ bb, bb ≠ 2 → fn₂.code bb = fn.code bb) ∧
      fn₂.jumps = fn.jumps ∧ Returns t s'.module fn₂ := by
  obtain ⟨htakes, hc, hgrown, hwork, hcode, hlayout, hjumps, hexit, hnew⟩ := h.more hok rfl
  have hrun := Build.emit_eq h.found (h.current ▸ htakes) (.ret val) .unit
  rw [h.current, ← Module.close_eq_append _ rfl] at hrun
  refine Gives.build hrun ⟨rfl, _, { hc with
    last := by rw [hlayout, List.getLast?_concat]
    ended := fun bb hbb => ?_
    targets := fun bb id hmem => ?_
    returns := ⟨_, _, val, by rw [hexit, List.getLast?_concat], hnew, rfl⟩ }, hwork, hcode, hjumps,
    _, _, _, val, hexit, hnew, rfl, hval.imp_right ?_⟩
  · by_cases heq : bb = 2
    · rw [heq, hexit]
      exact Module.ended_append hnew
    · rw [hlayout, List.mem_append, List.mem_singleton] at hbb
      rw [hcode bb heq, h.before.ended_eq hwork.touches.grown]
      exact h.before.ended bb (hbb.resolve_right heq)
  · rw [hjumps] at hmem
    rw [hlayout, List.mem_append, List.mem_singleton]
    exact h.before.targets bb id hmem
  · rintro ⟨slot, l, u, hslot, hl, hval', hu, hload⟩
    exact ⟨slot, l, u, hslot, hl, hval', hgrown.value hu, hload⟩

theorem gives_layExit (h : Sealed s.module t.func fn) (hexit : t.exit = 2)
    (hresult : ∀ r, t.result = some r → s.module.Readable t.func r (.ptr .i32))
    (hret : fn.ret = if t.result.isSome then .i32 else .unit) :
    Gives (layExit t) s fun _ s' =>
      s'.scope = s.scope ∧ ∃ fn', Finished s'.module t.func fn' ∧
      Worked t.func fn s.module fn' s'.module ∧
        (∀ bb, bb ≠ 2 → fn'.code bb = fn.code bb) ∧ fn'.jumps = fn.jumps ∧
        Returns t s'.module fn' := by
  have hstart := h.start
  have hempty : (fn.start 2).code 2 = [] := h.empty 2 h.open_exit
  unfold layExit
  refine Gives.bind (Q :=
    fun _ s' => s' = { s with module := s.module.modifyFunc t.func (·.start 2) })
    (by rw [Gives, startBlock_eq, hexit]) ?_
  rintro _ _ rfl
  cases hres : t.result with
  | none =>
    rw [hres] at hret
    exact Gives.bind (hstart.gives_ret (.ret hstart.exit.symm hret) (.inl ⟨hres, hempty, rfl⟩))
      fun _ _ hdone => Gives.pure hdone
  | some slot =>
    rw [hres] at hret
    have hslot := hstart.worked.touches.grown.readable (hresult slot hres)
    -- the result is read in the exit, and this is not the entry, where only locals may stand
    have hentry : (2 : Nat) ≠ (fn.start 2).entry := by
      have := hstart.entry
      lia
    obtain ⟨htakes, hc, -, hwork, hcode, hlayout, hjumps, hload, hnew⟩ :=
      hstart.more (.plain hentry (.load hslot (.inl rfl))) rfl
    have helem : ((s.module.modifyFunc t.func (·.start 2)).tyOf slot).elem = .i32 :=
      congrArg Ty.elem hslot.tyOf_eq
    have hrun := Build.load_eq hstart.found htakes slot
    rw [helem, ← Module.close_eq_append _ rfl] at hrun
    refine Gives.bind (Q := fun id s' => id = _ ∧ s' = _)
      (Gives.build (s := { s with module := s.module.modifyFunc t.func (·.start 2) }) hrun
        ⟨rfl, rfl⟩) ?_
    rintro _ _ ⟨rfl, rfl⟩
    rw [hempty] at hload
    have hloaded : AtExit t.func fn s.module _ _ := { hc with
      before := h
      worked := hwork
      code_eq := hcode
      layout := hlayout
      jumps_eq := hjumps
      current := rfl
      open_code := by
        rw [hload]
        exact Module.ended_append hnew }
    exact Gives.bind (hloaded.gives_ret (.retVal hc.exit.symm hret ⟨_, hnew, rfl, rfl⟩)
      (.inr ⟨slot, _, _, hres, hload, rfl, hnew, rfl⟩)) fun _ _ hdone => Gives.pure hdone

theorem gives_finish {body : Nat} (h : At t false {2} s) (hf : s.module.func? t.func = some fn)
    (hbody : IsTarget s.module t.func body)
    (hret : fn.ret = if t.result.isSome then .i32 else .unit) :
    Gives (finish t 1 body) s fun _ s' =>
      s'.scope = s.scope ∧ ∃ fn', Finished s'.module t.func fn' ∧
      Worked t.func fn s.module fn' s'.module ∧ Completes t body fn fn' s'.module := by
  rw [finish_eq]
  refine Gives.bind (gives_headed h hf hbody) ?_
  rintro _ s₁ ⟨hscope₁, fn₁, h₁⟩
  refine Gives.bind (Q :=
    fun bb s' => bb = fn₁.current ∧ s' = s₁) (Gives.build (Build.current_eq h₁.found) ⟨rfl, rfl⟩) ?_
  rintro _ _ ⟨rfl, rfl⟩
  obtain ⟨b, hblock⟩ := Func.exists_block? (h₁.bounds _ h₁.placed).1 (h₁.bounds _ h₁.placed).2
  refine Gives.get_bind ?_
  simp only [h₁.found, Option.bind_some, hblock, Option.map_some]
  refine Gives.bind (h₁.gives_layTail hblock h.exit) ?_
  rintro _ s₂ ⟨hscope₂, fn₂, h₂⟩
  have hwork := h₁.worked.trans h₂.worked
  refine (gives_layExit h₂.toSealed h.exit (fun r hr => hwork.touches.grown.readable
    (h.result r hr))
    (by rw [hwork.before.ret]; exact hret)).mono ?_
  rintro _ s₃ ⟨hscope₃, fn', hfin, hw, hcode, hjumps, hreturns⟩
  refine ⟨hscope₃.trans (hscope₂.trans hscope₁), fn', hfin, hwork.trans hw, ?_, ?_,
    fun bb h1 hcur h2 => ?_, hreturns⟩
  · obtain ⟨j, v, hj, hv, hnode⟩ := h₁.jump
    refine ⟨j, v, ?_, hw.touches.grown.value (h₂.worked.touches.grown.value hv), hnode⟩
    rw [hcode 1 (by decide), h₂.rest 1 h₁.current_ne.symm, hj]
  · have hcur : fn₁.current ≠ 2 := fun heq => h₁.open_exit (heq ▸ h₁.placed)
    rw [← h₁.current_eq, ← h₁.code_eq _ h₁.current_ne, hcode _ hcur, hjumps]
    refine h₂.tail.imp_right ?_
    rintro ⟨j, v, hj, hv, hnode⟩
    exact ⟨j, v, hj, hw.touches.grown.value hv, hnode⟩
  · rw [← h₁.current_eq] at hcur
    rw [hcode bb h2, h₂.rest bb hcur, h₁.code_eq bb h1]

end Sysy.Lowering
