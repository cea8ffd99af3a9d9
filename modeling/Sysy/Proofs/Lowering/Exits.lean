import Sysy.Proofs.Lowering.Control
import Sysy.Proofs.Lowering.Dominance
import Sysy.Proofs.Lowering.Labels

/-!
Ways out of a function. Every block that is laid out, also one that no way leads to, has a way to
the exit. The proof goes backwards through the steps of lowering: if the block in which some code
ends has a way to the exit, and the targets of the loops around the code have one, then every block
of the code has one.
-/

namespace Sysy.Ir

def Func.Edge (m : Module) (fn : Func) (bb next : BlockId) : Prop :=
  ∃ id v, (fn.code bb).getLast? = some id ∧ m.value? id = some v ∧ next ∈ v.node.successors

abbrev Func.Reaches (m : Module) (fn : Func) : BlockId → BlockId → Prop :=
  Relation.ReflTransGen (fn.Edge m)

end Sysy.Ir

namespace Sysy.Lowering
open Ir

variable {t : Target} {loops : List Loop} {s s' s'' s₁ s₂ : State} {P : Set Nat} {S : Set ValueId}
  {m : Module} {fn : Func}
  {bb target onward : BlockId} {node : Node} {G : Set BlockId} {id : ValueId} {x : Stmt}
    {xs : List Stmt}

def here (t : Target) (s : State) : BlockId := ((s.module.func? t.func).map (·.current)).getD 0

def laid (t : Target) (s : State) : Set BlockId :=
  {bb | ∃ fn, s.module.func? t.func = some fn ∧ bb ∈ fn.layout.toList}

structure Stays (t : Target) (s s' : State) : Prop where
  here : here t s' = here t s
  laid : laid t s' = laid t s

theorem here_eq (hf : s.module.func? t.func = some fn) : here t s = fn.current := by simp [here, hf]

theorem laid_eq (hf : s.module.func? t.func = some fn) :
    laid t s = {bb | bb ∈ fn.layout.toList} := by
  ext bb
  simp [laid, hf]

theorem stays_of_funcs {fn' : Func} (hf : s.module.func? t.func = some fn)
    (hf' : s'.module.func? t.func = some fn') (hcur : fn'.current = fn.current)
    (hlayout : fn'.layout = fn.layout) : Stays t s s' :=
  ⟨by rw [here_eq hf, here_eq hf', hcur], by rw [laid_eq hf, laid_eq hf', hlayout]⟩

theorem stays_close {v : Value} (hf : s.module.func? t.func = some fn) :
    Stays t s { s with module := s.module.close t.func v } := by
  have hf' := Module.func?_close s.module v (g := t.func) hf
  rw [if_pos rfl] at hf'
  exact stays_of_funcs hf hf' rfl rfl

theorem Adds.stays (h : Adds t node s s') : Stays t s s' := by
  obtain ⟨fn, ty, hf, -, rfl⟩ := h
  exact stays_close hf

theorem Reserves.stays (h : Reserves t s s') : Stays t s s' := by
  obtain ⟨fn, ty, name, hf, -, -, rfl⟩ := h
  exact stays_close hf

theorem Makes.stays (h : Makes t bb s s') : Stays t s s' := by
  obtain ⟨fn, name, hf, -, rfl⟩ := h
  have hf' := Module.func?_modifyFunc s.module (g := t.func) (fun fn => (fn.addBlock name).2)
    (Module.bounds_of_func? hf).1
  rw [if_pos rfl, hf] at hf'
  exact stays_of_funcs hf hf' rfl rfl

theorem startBlock_here (hf : ∃ fn, s.module.func? t.func = some fn)
    (hrun : startBlock t bb s = .ok ((), s')) :
    here t s' = bb ∧ laid t s' = insert bb (laid t s) := by
  obtain ⟨fn, hf⟩ := hf
  rw [startBlock_eq] at hrun
  obtain ⟨-, hs'⟩ := Prod.mk.inj (Except.ok.inj hrun)
  have hf' : s'.module.func? t.func = some (fn.start bb) := by
    rw [← hs', Module.func?_modifyFunc _ _ (Module.bounds_of_func? hf).1, if_pos rfl, hf]
    rfl
  refine ⟨here_eq hf', ?_⟩
  rw [laid_eq hf', laid_eq hf, Coded.layout_start]
  ext y
  simp [or_comm]

theorem Coded.last_of_successor {f : FuncId} {v : Value} (h : Coded m f fn) (hid : id ∈ fn.code bb)
    (hv : m.value? id = some v) (onward : BlockId) (hnext : onward ∈ v.node.successors) :
    (fn.code bb).getLast? = some id := by
  rcases List.eq_nil_or_concat (fn.code bb) with hnil | ⟨init, last, hcode⟩
  · rw [hnil] at hid
    cases hid
  · rw [List.concat_eq_append] at hcode
    rw [hcode, List.mem_append, List.mem_singleton] at hid
    rcases hid with hinit | rfl
    · have hstraight := h.straight bb id (by rw [hcode, List.dropLast_concat]; exact hinit) v hv
      cases hnode : v.node with
      | jump _ | branch _ _ _ =>
        rw [hnode] at hstraight
        cases hstraight
      | _ =>
        rw [hnode] at hnext
        cases hnext
    · rw [hcode, List.getLast?_concat]

structure Upstream (m : Module) (t : Target) (fn : Func) (G : Set BlockId) : Prop where
  finished : Finished m t.func fn
  edge : ∀ bb next, fn.Edge m bb next → next ∈ G → bb ∈ G

theorem Finished.edge {f : FuncId} {v : Value} (h : Finished m f fn) (hid : id ∈ fn.code bb)
    (hv : m.value? id = some v) (hnext : onward ∈ v.node.successors) : fn.Edge m bb onward :=
  ⟨id, v, h.last_of_successor hid hv _ hnext, hv, hnext⟩

theorem Adds.mem_code (h : Adds t node s s') (he : Extends s'.module m)
    (hfound : m.func? t.func = some fn) :
    s.module.values.size + 1 ∈ fn.code (here t s) ∧ ∃ v, m.value? (s.module.values.size + 1) =
      some v ∧ v.node = node := by
  obtain ⟨fn₀, ty, hf, htakes, rfl⟩ := h
  let v : Value := { node, ty, func := t.func, block := fn₀.current }
  have hcode := Coded.code_close (v := v) (s.module.values.size + 1) htakes hf fn₀.current
  rw [if_pos rfl] at hcode
  have hf' := Module.func?_close s.module v (g := t.func) hf
  rw [if_pos rfl] at hf'
  obtain ⟨fn', hfn', hb⟩ := he.func hf'
  obtain rfl := Option.some.inj (hfound.symm.trans hfn')
  refine ⟨?_, v, he.value (by rw [Module.value?_close, if_pos rfl]), rfl⟩
  rw [here_eq hf]
  refine (hb.code fn₀.current).subset ?_
  rw [hcode]
  simp

theorem Adds.edge (h : Adds t node s s') (he : Extends s'.module m) (hfin : Finished m t.func fn)
    (hnext : onward ∈ node.successors) : fn.Edge m (here t s) onward := by
  obtain ⟨hid, v, hv, rfl⟩ := h.mem_code he hfin.found
  exact hfin.edge hid hv hnext

def Back (t : Target) (G : Set BlockId) (s s' : State) : Prop :=
  here t s' ∈ G → here t s ∈ G ∧ laid t s' ⊆ laid t s ∪ G

namespace Back

theorem of_stays (h : Stays t s s') : Back t G s s' := fun hG =>
  ⟨h.here ▸ hG, h.laid.symm ▸ Set.subset_union_left⟩

theorem trans (h : Back t G s s') (h' : Back t G s' s'') : Back t G s s'' := by
  intro hG
  obtain ⟨hG', hlaid'⟩ := h' hG
  obtain ⟨hG, hlaid⟩ := h hG'
  exact ⟨hG, hlaid'.trans (Set.union_subset hlaid Set.subset_union_right)⟩

theorem leave (hU : Upstream m t fn G) (hadds : Adds t node s s₁) (he : Extends s₁.module m)
    (onward : BlockId) (hnext : onward ∈ node.successors) (hG : onward ∈ G) : here t s ∈ G :=
  hU.edge _ _ (hadds.edge he hU.finished hnext) hG

theorem turn (hU : Upstream m t fn G) (hadds : Adds t node s s₁)
    (hrun : startBlock t bb s₁ = .ok ((), s')) (he : Extends s'.module m) (onward : BlockId)
    (hnext : onward ∈ node.successors) (hG : here t s' ∈ G → onward ∈ G) : Back t G s s' := by
  intro hhere
  obtain ⟨heq, hlaid⟩ := startBlock_here hadds.found hrun
  have he₁ := (extends_startBlock hadds.found hrun).trans he
  refine ⟨leave hU hadds he₁ onward hnext (hG hhere), ?_⟩
  rw [hlaid, hadds.stays.laid, Set.insert_subset_iff]
  exact ⟨.inr (heq ▸ hhere), Set.subset_union_left⟩

end Back

theorem Course.back (hU : Upstream m t fn G) (h : Course t S s s') (he : Extends s'.module m) :
    Back t G s s' := by
  induction h with
  | refl S s => exact .of_stays ⟨rfl, rfl⟩
  | trans _ h' ih ih' => exact (ih (h'.extends.trans he)).trans (ih' he)
  | constant S s w => exact .of_stays ⟨rfl, rfl⟩
  | inst _ h | store _ h => exact .of_stays h.stays
  | reserve h => exact .of_stays h.stays
  | label h => exact .of_stays h.stays
  | names S s scope => exact .of_stays ⟨rfl, rfl⟩
  | @logic S s₀ s₁ s₂ s₃ s₄ s₅ s₆ s₇ _ _ more done _ _ hslot _ _ hbranch hends hopen second hjump
      hjoin ih₁ ih₂ =>
    intro hdone
    have he₆ := (extends_startBlock hjump.found hjoin).trans he
    have he₄ := second.extends.trans (hjump.extends.trans he₆)
    have he₂ := hbranch.extends.trans ((extends_startBlock hbranch.found hopen).trans he₄)
    have hto : here t s₇ = done := (startBlock_here hjump.found hjoin).1
    -- the second operand ends with a jump to the end, and the first one may go there at once
    obtain ⟨h₅, hlaid₇⟩ :=
      Back.turn hU hjump hjoin he done (by simp [Node.successors]) (fun h => hto ▸ h) hdone
    obtain ⟨h₄, hlaid₅⟩ := ih₂ (hjump.extends.trans he₆) h₅
    obtain ⟨h₂, hlaid₄⟩ := Back.turn hU hbranch hopen he₄ done
      (by rcases hends with ⟨rfl, rfl⟩ | ⟨rfl, rfl⟩ <;> simp [Node.successors])
        (fun _ => hto ▸ hdone) h₄
    obtain ⟨h₁, hlaid₂⟩ := ih₁ he₂ h₂
    rw [hslot.stays.here] at h₁
    rw [hslot.stays.laid] at hlaid₂
    refine ⟨h₁, hlaid₇.trans
      (Set.union_subset (hlaid₅.trans (Set.union_subset (hlaid₄.trans (Set.union_subset hlaid₂ ?_))
      ?_)) ?_)⟩ <;> exact Set.subset_union_right

theorem back_leaveFor (hU : Upstream m t fn G) (h : At t false P s)
    (hrun : leaveFor t target onward s = .ok ((), s')) (he : Extends s'.module m)
    (hG : target ∈ G) : Back t G s s' := by
  obtain ⟨id, s₁, hjump, hstart⟩ := bind_ok.mp hrun
  exact .turn hU (adds_jump h hjump).1 hstart he target (by simp [Node.successors]) fun _ => hG

theorem here_leaveFor (h : At t false P s) (hrun : leaveFor t target onward s = .ok ((), s')) :
    here t s' = onward := by
  obtain ⟨id, s₁, hjump, hstart⟩ := bind_ok.mp hrun
  exact (startBlock_here (adds_jump h hjump).1.found hstart).1

theorem back_openFresh (hU : Upstream m t fn G) (h : At t false P s)
    (hbb : IsTarget s.module t.func bb) (hjump : build (Build.jump t.func bb) s = .ok (id, s₁))
    (hfresh : openFresh t s₁ = .ok ((), s')) (he : Extends s'.module m) (hG : bb ∈ G) :
    Back t G s s' := by
  obtain ⟨fresh, s₂, hnew, hstart⟩ := bind_ok.mp hfresh
  obtain ⟨hadds, -⟩ := adds_jump h hjump
  have hmakes := makes_newBlock ((gives_jump h hbb).ok hjump).2 hnew
  obtain ⟨fn₁, hf₁⟩ := hadds.found
  obtain ⟨fn₂, hf₂, -⟩ := hmakes.extends.func hf₁
  have he₂ := (extends_startBlock ⟨fn₂, hf₂⟩ hstart).trans he
  obtain ⟨heq, hlaid⟩ := startBlock_here ⟨fn₂, hf₂⟩ hstart
  intro hhere
  refine ⟨Back.leave hU hadds (hmakes.extends.trans he₂) _ (by simp [Node.successors]) hG, ?_⟩
  rw [hlaid, hmakes.stays.laid, hadds.stays.laid, Set.insert_subset_iff]
  exact ⟨.inr (heq ▸ hhere), Set.subset_union_left⟩

theorem back_openCond (hU : Upstream m t fn G) {test : Expr} {hasElse : Bool}
    {p : BlockId × BlockId} (h : At t false P s) (hrun : openCond t test hasElse s = .ok (p, s'))
    (he : Extends s'.module m) : Back t G s s' := by
  obtain ⟨noBlock, after⟩ := p
  obtain ⟨c, yesBlock, s₁, s₂, hcourse, hadds, hstart⟩ := openCond_course h hrun
  have he₁ := hadds.extends.trans ((extends_startBlock hadds.found hstart).trans he)
  exact (hcourse.back hU he₁).trans (.turn hU hadds hstart he yesBlock
    (by simp [Node.successors]) fun hG =>
    (startBlock_here hadds.found hstart).1 ▸ hG)

theorem back_openLoop (hU : Upstream m t fn G) {test : Expr} {l : Loop} (h : At t false P s)
    (hrun : openLoop t test s = .ok (l, s')) (he : Extends s'.module m) (hexit : l.exit ∈ G) :
    l.test ∈ G ∧ Back t G s s' := by
  obtain ⟨c, bb, s₁, s₂, s₃, s₄, hlabels, ⟨Q, h₁⟩, hleave, hcourse, hadds, hstart⟩ :=
    openLoop_course h hrun
  have he₄ := (extends_startBlock hadds.found hstart).trans he
  have he₃ := hadds.extends.trans he₄
  have he₂ := hcourse.extends.trans he₃
  have htestG : l.test ∈ G := by
    rw [← here_leaveFor h₁ hleave]
    exact (hcourse.back hU he₃ (Back.leave hU hadds he₄ l.exit (by simp [Node.successors]) hexit)).1
  have he₁ := (extends_leaveFor h₁ hleave).trans he₂
  have henter : Back t G s s₂ := (hlabels.back hU he₁).trans (back_leaveFor hU h₁ hleave he₂ htestG)
  exact ⟨htestG, henter.trans ((hcourse.back hU he₃).trans
    (.turn hU hadds hstart he l.exit (by simp [Node.successors]) fun _ => hexit))⟩

mutual

/-- If the loops around a statement and the exit have ways to the blocks `G`, its blocks have one
too, once the code behind it does. -/
theorem back_lowerStmt (hU : Upstream m t fn G) (hexit : t.exit ∈ G) {s s' : State} {P : Set Nat}
    {loops : List Loop} (h : At t false P s) (hloops : LoopsOk s.module t.func loops)
    (hG : ∀ l ∈ loops, l.test ∈ G ∧ l.exit ∈ G) :
    ∀ x : Stmt, lowerStmt t loops x s = .ok ((), s') → Extends s'.module m → Back t G s s'
  | .block span xs, hrun, he => by
    rw [lowerStmt, run_bind (enter_run .block)] at hrun
    obtain ⟨⟨⟩, s₁, hxs, hclose⟩ := bind_ok.mp hrun
    obtain rfl : { s₁ with scope := s₁.scope.exit } = s' := (Prod.mk.inj (Except.ok.inj hclose)).2
    have hback := back_lowerStmts hU hexit h.enter hloops hG xs hxs he
    exact hback
  | .decl span d, hrun, he => by
    rw [lowerStmt] at hrun
    exact (course_lowerLocals d.defs h (spreads_univ m _) hrun he).back hU he
  | .assign span target name indices value, hrun, he =>
    (course_assign (S := Set.univ) h hrun fun _ _ _ _ _ _ => Set.mem_univ _).back hU he
  | .expr span none, hrun, he => by
    rw [lowerStmt] at hrun
    obtain ⟨-, rfl⟩ := pure_ok.mp hrun
    exact .of_stays ⟨rfl, rfl⟩
  | .expr span (some e), hrun, he => by
    rw [lowerStmt] at hrun
    obtain ⟨v, s₁, hexpr, hpure⟩ := bind_ok.mp hrun
    obtain ⟨-, rfl⟩ := pure_ok.mp hpure
    exact (course_lowerExpr (S := ∅) h e hexpr).back hU he
  | .cond span test yes none, hrun, he => by
    obtain ⟨p, s₁, hopen⟩ := exists_openCond hrun
    obtain ⟨s₂, Q, -, hyes, hleave, hm₃⟩ := cond_parts h hloops hrun hopen
    have he₂ := hm₃.extends.trans he
    have he₁ := hyes.passes.grows.extends.trans he₂
    intro hhere
    -- read backwards: the block behind is one of `G`, so the end of the arm is, so its beginning is
    have hafterG : p.2 ∈ G := here_leaveFor hyes.behind hleave ▸ hhere
    have harm := back_lowerStmt hU hexit hyes.here hyes.targets hG yes hyes.run he₂
    exact ((back_openCond hU h hopen he₁).trans
      (harm.trans (back_leaveFor hU hyes.behind hleave he hafterG))) hhere
  | .cond span test yes (some no), hrun, he => by
    obtain ⟨p, s₁, hopen⟩ := exists_openCond hrun
    obtain ⟨s₂, s₃, s₄, Q, R, -, hyes, hturn, hm₃, hno, hleave, hm₅⟩ :=
      cond_else_parts h hloops hrun hopen
    have he₄ := hm₅.extends.trans he
    have he₃ := hno.passes.grows.extends.trans he₄
    have he₂ := hm₃.extends.trans he₃
    have he₁ := hyes.passes.grows.extends.trans he₂
    intro hhere
    have hafterG : p.2 ∈ G := here_leaveFor hno.behind hleave ▸ hhere
    have harm := back_lowerStmt hU hexit hyes.here hyes.targets hG yes hyes.run he₂
    have harm' := back_lowerStmt hU hexit hno.here hno.targets hG no hno.run he₄
    exact ((back_openCond hU h hopen he₁).trans
      ((harm.trans (back_leaveFor hU hyes.behind hturn he₃ hafterG)).trans
      (harm'.trans (back_leaveFor hU hno.behind hleave he hafterG)))) hhere
  | .loop span test body, hrun, he => by
    obtain ⟨l, s₁, hopen⟩ := exists_openLoop hrun
    obtain ⟨s₂, Q, -, hbody, hleave, hm₃⟩ := loop_parts h hloops hrun hopen
    have he₂ := hm₃.extends.trans he
    intro hhere
    have hexitG : l.exit ∈ G := here_leaveFor hbody.behind hleave ▸ hhere
    -- the test has a way out of the loop, so it is one of `G` whether or not the body comes back to
    -- it
    obtain ⟨htestG, hback⟩ := back_openLoop hU h hopen (hbody.passes.grows.extends.trans he₂) hexitG
    have hG' : ∀ l' ∈ l :: loops, l'.test ∈ G ∧ l'.exit ∈ G := by
      intro l' hl'
      rcases List.mem_cons.mp hl' with rfl | hl'
      · exact ⟨htestG, hexitG⟩
      · exact hG l' hl'
    have hturn := back_lowerStmt hU hexit hbody.here hbody.targets hG' body hbody.run he₂
    exact (hback.trans (hturn.trans (back_leaveFor hU hbody.behind hleave he htestG))) hhere
  | .leave span, hrun, he => by
    obtain ⟨l, ls, id, s₁, rfl, hjump, hfresh⟩ := jump_ok (.inl ⟨rfl, rfl⟩) hrun
    exact back_openFresh hU h (hloops l (List.mem_cons_self ..)).2 hjump hfresh he
      (hG l (List.mem_cons_self ..)).2
  | .next span, hrun, he => by
    obtain ⟨l, ls, id, s₁, rfl, hjump, hfresh⟩ := jump_ok (.inr ⟨rfl, rfl⟩) hrun
    exact back_openFresh hU h (hloops l (List.mem_cons_self ..)).1 hjump hfresh he
      (hG l (List.mem_cons_self ..)).1
  | .ret span value, hrun, he => by
    obtain ⟨id, s₁, s₂, hjump, hfresh, hvalue⟩ := ret_ok hrun
    cases value with
    | none =>
      dsimp only at hvalue
      subst hvalue
      exact back_openFresh hU h h.exit_isTarget hjump hfresh he hexit
    | some e =>
      obtain ⟨slot, v, u, s₀, hslot, hv, hstore⟩ := hvalue
      obtain ⟨-, h₀, hvR⟩ := (yields_lowerScalar h e).ok hv
      obtain ⟨-, h₁, -⟩ := (yields_store h₀ hvR (h₀.result slot hslot)).ok hstore
      have hcourse : Course t Set.univ s s₁ :=
        (course_lowerScalar h hv).trans (.of_store h₀ hstore (Set.mem_univ _))
      have he₁ := (moves_leave h₁ h₁.exit_isTarget hjump hfresh).extends.trans he
      exact (hcourse.back hU he₁).trans (back_openFresh hU h₁ h₁.exit_isTarget hjump
        hfresh he hexit)

theorem back_lowerStmts (hU : Upstream m t fn G) (hexit : t.exit ∈ G) {s s' : State} {P : Set Nat}
    {loops : List Loop} (h : At t false P s) (hloops : LoopsOk s.module t.func loops)
    (hG : ∀ l ∈ loops, l.test ∈ G ∧ l.exit ∈ G) :
    ∀ xs : List Stmt, lowerStmts t loops xs s = .ok ((), s') → Extends s'.module m → Back t G s s'
  | [], hrun, he => by
    rw [lowerStmts] at hrun
    obtain ⟨-, rfl⟩ := pure_ok.mp hrun
    exact .of_stays ⟨rfl, rfl⟩
  | x :: xs, hrun, he => by
    rw [lowerStmts] at hrun
    obtain ⟨⟨⟩, s₁, hx, hxs⟩ := bind_ok.mp hrun
    obtain ⟨hp₁, h₁⟩ := (lasts_lowerStmt h hloops x).ok hx
    have hloops₁ := hloops.extends hp₁.grows.extends
    obtain ⟨hp₂, -⟩ := (lasts_lowerStmts h₁ hloops₁ xs).ok hxs
    exact (back_lowerStmt hU hexit h hloops hG x hx (hp₂.grows.extends.trans he)).trans
      (back_lowerStmts hU hexit h₁ hloops₁ hG xs hxs he)

end

/-! Whole functions. -/

def waysOut (m : Module) (fn₂ fn₃ : Func) : Set BlockId :=
  {bb | fn₃.Reaches m bb 2 ∨ bb = fn₂.current ∧ fn₃.code fn₂.current = []}

section
variable {m' : Module} {fn₂ fn₃ : Func} {body : BlockId}

theorem Completes.upstream (h : Completes t body fn₂ fn₃ m') (hfin : Finished m t.func fn₃) :
    Upstream m t fn₃ (waysOut m fn₂ fn₃) := by
  refine ⟨hfin, ?_⟩
  rintro bb next hedge (hreach | ⟨rfl, hdropped⟩)
  · exact .inl (.head hedge hreach)
  · -- nothing leads to a block that was dropped
    obtain ⟨id, v, hlast, hv, hnext⟩ := hedge
    rcases h.tail with ⟨-, -, hunused⟩ | ⟨j, -, hcode, -⟩
    · exact (hunused id ((hfin.jumps _ id).mpr ⟨v, bb, hv, List.mem_of_getLast? hlast, hnext⟩)).elim
    · rw [hcode] at hdropped
      simp at hdropped

theorem Completes.current_mem (h : Completes t body fn₂ fn₃ m') (hexit : t.exit = 2)
    (he : Extends m' m) :
    fn₂.current ∈ waysOut m fn₂ fn₃ := by
  rcases h.tail with ⟨-, hnil, -⟩ | ⟨j, v, hcode, hv, hnode⟩
  · exact .inr ⟨rfl, hnil⟩
  · refine .inl (.single ⟨j, v, by rw [hcode, List.getLast?_concat], he.value hv, ?_⟩)
    rw [hnode, hexit]
    simp [Node.successors]

end

/-- Every block of a function that was lowered has a way to its exit. -/
theorem Lowered.reaches {d : FuncDef} {s₀ s₃ : State} (h : Lowered m fn d t s₀ s₁ s₂ s₃)
    (hfin : Finished m t.func fn) :
    ∀ bb ∈ fn.layout.toList, fn.Reaches m bb 2 := by
  have hnil : LoopsOk s₁.module t.func [] := by simp [LoopsOk]
  obtain ⟨hp₂, h₂⟩ := (lasts_lowerStmts h.begins.here hnil d.body).ok h.body
  obtain ⟨-, fn₂, fn₃, hf₂, hfin₃, hwork, hcomp⟩ := (h.begins.gives_finish hp₂ h₂).ok h.finish
  obtain rfl := Option.some.inj (hfin₃.found.symm.trans h.found)
  obtain ⟨fn₂', hbody, -⟩ := h₂.body
  obtain rfl := Option.some.inj (hf₂.symm.trans hbody.found)
  obtain ⟨params, args, ret, hE, -⟩ := h.begins.entering
  obtain ⟨fn₁, hc₁, -, hlayout₁, -, hcur₁, -⟩ := hE.code
  have hexit : t.exit = 2 := h.begins.exit
  have hU : Upstream m t fn₃ (waysOut m fn₂ fn₃) := hcomp.upstream hfin
  have hend : here t s₂ ∈ waysOut m fn₂ fn₃ := here_eq hf₂ ▸ hcomp.current_mem hexit h.grown
  have hexitG : t.exit ∈ waysOut m fn₂ fn₃ := hexit ▸ .inl .refl
  have he₂ := hwork.touches.grown.trans h.grown
  obtain ⟨hstart, hlaid⟩ :=
    back_lowerStmts hU hexitG h.begins.here hnil (by simp) d.body h.body he₂ hend
  rw [here_eq hc₁.found, hcur₁] at hstart
  have hentry : 1 ∈ waysOut m fn₂ fn₃ := by
    obtain ⟨j, v, hcode, hv, hnode⟩ := hcomp.entry
    refine hU.edge 1 3 ⟨j, v, by rw [hcode, List.getLast?_concat], h.grown.value hv, ?_⟩ hstart
    rw [hnode]
    simp [Node.successors]
  intro bb hbb
  have hne : fn₃.code bb ≠ [] := by
    intro hnil
    have hended := hfin.ended bb hbb
    rw [hnil] at hended
    cases hended
  -- a block is the entry, the exit, one the body began with, or one that the statements have laid
  -- out
  have hG : bb ∈ waysOut m fn₂ fn₃ := by
    by_cases h₁ : bb = 1
    · exact h₁ ▸ hentry
    by_cases hto : bb = 2
    · exact .inl (hto ▸ .refl)
    have hplaced : bb ∈ laid t s₂ := by
      rw [laid_eq hf₂]
      by_contra hnot
      by_cases hcur : bb = fn₂.current
      · exact hnot (hcur ▸ hbody.current)
      · exact hne ((hcomp.other bb h₁ hcur hto).trans (hbody.empty bb hnot))
    rcases hlaid hplaced with hold | hG
    · rw [laid_eq hc₁.found, hlayout₁] at hold
      have hcases : bb = 1 ∨ bb = 3 := by simpa using hold
      rcases hcases with rfl | rfl
      · exact hentry
      · exact hstart
    · exact hG
  rcases hG with hreach | ⟨rfl, hnil⟩
  · exact hreach
  · exact (hne hnil).elim

theorem Finished.mem_layout_of_path {f : FuncId} {before : List BlockId} (h : Finished m f fn)
    (hp : fn.Path m before bb) :
    bb ∈ fn.layout.toList := by
  cases hp with
  | entry =>
    rw [h.entry]
    exact List.mem_of_mem_head? h.first
  | step _ hlast hv hnext => exact h.successors_mem (List.mem_of_getLast? hlast) hv _ hnext

/-- All code of a statement is one jump, at the end of the block that is the current one. -/
def IsJump (m : Module) (fn : Func) (t : Target) (s s' : State) (target : BlockId) : Prop :=
  s'.module.values.size = s.module.values.size + 1 ∧ (fn.code (here t s)).getLast? =
    some (s.module.values.size + 1) ∧
    m.node? (s.module.values.size + 1) = some (.jump target)

/-- A `break` goes behind the innermost loop, a `continue` to its test, and a `return` to the exit,
once the value to be returned is computed and stored. -/
def LeavesFor (m : Module) (fn : Func) (t : Target) (loops : List Loop) :
    Stmt → State → State → Prop
  | .leave _, s, s' => ∃ l ls, loops = l :: ls ∧ fn.Named l.exit "while_end" ∧
      IsJump m fn t s s' l.exit
  | .next _, s, s' => ∃ l ls, loops = l :: ls ∧ fn.Named l.test "while_cond" ∧
      IsJump m fn t s s' l.test
  | .ret _ none, s, s' => fn.Named fn.exit "end" ∧ IsJump m fn t s s' fn.exit
  | .ret _ (some e), s, s' =>
    ∃ slot v u s₁ s₂, t.result = some slot ∧ lowerScalar t e s = .ok (v, s₁) ∧
      build (Build.store t.func v slot) s₁ = .ok (u, s₂) ∧ fn.Named fn.exit "end" ∧
        IsJump m fn t s₂ s' fn.exit
  | _, _, _ => True

theorem isJump_of_runs (h : At t false P s) (hbb : IsTarget s.module t.func bb)
    (hjump : build (Build.jump t.func bb) s = .ok (id, s₁)) (hfresh : openFresh t s₁ = .ok ((), s'))
    (he : Extends s'.module m) (hfin : Finished m t.func fn) : IsJump m fn t s s' bb := by
  obtain ⟨fresh, s₂, hnew, hstart⟩ := bind_ok.mp hfresh
  obtain ⟨hadds, rfl⟩ := adds_jump h hjump
  obtain ⟨hm₁, h₁⟩ := (gives_jump h hbb).ok hjump
  have he₁ := ((gives_openFresh h₁).ok hfresh).1.extends.trans he
  obtain ⟨hid, v, hv, hnode⟩ := hadds.mem_code he₁ hfin.found
  have hsize : s'.module.values.size = s₁.module.values.size := by
    obtain ⟨fn₁, name, -, -, rfl⟩ := makes_newBlock h₁ hnew
    rw [startBlock_eq] at hstart
    obtain ⟨-, rfl⟩ := Prod.mk.inj (Except.ok.inj hstart)
    rfl
  refine ⟨?_, hfin.last_of_successor hid hv bb (by simp [hnode, Node.successors]), ?_⟩
  · obtain ⟨fn₀, ty, -, -, rfl⟩ := hadds
    rw [hsize, Module.size_values_close]
  · rw [Module.node?_eq hv, hnode]

theorem Within.leavesFor (h : Within t s₂ loops (x :: xs) s)
    (hx : lowerStmt t loops x s = .ok ((), s')) (he : Extends s₂.module m)
    (hfin : Finished m t.func fn) (hexit : t.exit = 2) (hnamed : ∀ l ∈ loops, LoopNamed fn l) :
    LeavesFor m fn t loops x s s' := by
  obtain ⟨s'', hx', -, he''⟩ := h.head
  obtain ⟨-, rfl⟩ := Prod.mk.inj (Except.ok.inj (hx.symm.trans hx'))
  have he' := he''.extends.trans he
  obtain ⟨P, hat⟩ := h.here
  have hexit' : t.exit = fn.exit := hexit.trans hfin.exit.symm
  have hend : fn.Named fn.exit "end" := by
    have hblocks := hfin.blocks
    obtain ⟨b, hb⟩ : ∃ b, fn.block? 2 = some b := Func.exists_block? (by lia) hblocks
    rw [hfin.exit]
    exact ⟨b, hb, (hfin.hints 2 b hb).2.1 rfl⟩
  cases x with
  | leave span =>
    obtain ⟨l, ls, id, s₁, rfl, hjump, hfresh⟩ := jump_ok (.inl ⟨rfl, rfl⟩) hx
    have hl := List.mem_cons_self (a := l) (l := ls)
    exact ⟨l, ls, rfl, (hnamed l hl).2, isJump_of_runs hat (h.targets l hl).2 hjump hfresh he' hfin⟩
  | next span =>
    obtain ⟨l, ls, id, s₁, rfl, hjump, hfresh⟩ := jump_ok (.inr ⟨rfl, rfl⟩) hx
    have hl := List.mem_cons_self (a := l) (l := ls)
    exact ⟨l, ls, rfl, (hnamed l hl).1, isJump_of_runs hat (h.targets l hl).1 hjump hfresh he' hfin⟩
  | ret span value =>
    obtain ⟨id, s₁, s₃, hjump, hfresh, hvalue⟩ := ret_ok hx
    cases value with
    | none =>
      dsimp only at hvalue
      subst hvalue
      rw [LeavesFor, ← hexit']
      exact ⟨hexit' ▸ hend, isJump_of_runs hat hat.exit_isTarget hjump hfresh he' hfin⟩
    | some e =>
      obtain ⟨slot, v, u, s₀, hslot, hv, hstore⟩ := hvalue
      obtain ⟨-, h₀, hvR⟩ := (yields_lowerScalar hat e).ok hv
      obtain ⟨-, h₁, -⟩ := (yields_store h₀ hvR (h₀.result slot hslot)).ok hstore
      exact ⟨slot, v, u, s₀, s₁, hslot, hv, hstore, hend,
        hexit' ▸ isJump_of_runs h₁ h₁.exit_isTarget hjump hfresh he' hfin⟩
  | block | decl | assign | expr | cond | loop => trivial

/-- Every control path can end in the single return, and a `break`, `continue` or `return` adds no
way but the one to the block that it leaves for. -/
theorem lower_exits {p : Program} (h : p.lower = .ok m) (hfn : fn ∈ m.funcs.toList)
    (hcode : fn.isDeclared = false) :
    (∀ bb ∈ fn.layout.toList, fn.Reaches m bb fn.exit) ∧
    (∀ before bb, fn.Path m before bb → (∀ next, ¬ fn.Edge m bb next) →
      bb = fn.exit ∧ ∃ id val, (fn.code bb).getLast? = some id ∧ m.node? id = some (.ret val)) ∧
    ∃ span d t s₀ s₁ s₂ s₃, .func span d ∈ p.items ∧ Lowered m fn d t s₀ s₁ s₂ s₃ ∧
      (∀ loops x xs s s', Visits t d.body s₁ loops (x :: xs) s →
        lowerStmt t loops x s = .ok ((), s') → LeavesFor m fn t loops x s s') ∧
      ∀ n x, Stmt.Nested d.body n x → ∃ loops xs s s', loops.length = n ∧
        Visits t d.body s₁ loops (x :: xs) s ∧ lowerStmt t loops x s = .ok ((), s') := by
  obtain ⟨scope, hready⟩ := ready_of_lower h
  obtain ⟨f, hfin⟩ := hready.sound.finished hfn hcode
  have hlayout : fn.layout ≠ #[] := by simpa [Func.isDeclared] using hcode
  obtain ⟨span, d, t, s₀, s₁, s₂, s₃, hitem, hfunc, hlow⟩ :=
    recorded_of_lower h f fn hfin.found hlayout
  rw [← hfunc] at hfin
  have hreach := hlow.reaches hfin
  refine ⟨fun bb hbb => by rw [hfin.exit]; exact hreach bb hbb, fun before bb hp hlast => ?_,
    span, d, t, s₀, s₁, s₂, s₃, hitem, hlow, ?_⟩
  · have hbb : bb = 2 := by
      rcases Relation.ReflTransGen.cases_head (hreach bb (hfin.mem_layout_of_path hp)) with heq
        | ⟨next, hedge, -⟩
      · exact heq
      · exact (hlast next hedge).elim
    obtain ⟨id, v, val, hid, hv, hnode⟩ := hfin.returns
    exact ⟨hbb.trans hfin.exit.symm, id, val, hbb ▸ hid, by rw [Module.node?_eq hv, hnode]⟩
  · have hnil : LoopsOk s₁.module t.func [] := by simp [LoopsOk]
    have hbody : Within t s₂ [] d.body s₁ := ⟨⟨_, hlow.begins.here⟩, hnil, s₂, hlow.body, .refl⟩
    obtain ⟨hp₂, h₂⟩ := (lasts_lowerStmts hlow.begins.here hnil d.body).ok hlow.body
    obtain ⟨-, _, _, -, -, hwork, -⟩ := (hlow.begins.gives_finish hp₂ h₂).ok hlow.finish
    have he₂ := hwork.touches.grown.trans hlow.grown
    refine ⟨fun loops x xs s s' hvisit hx => (hvisit.within hbody).leavesFor hx he₂ hfin
      hlow.begins.exit (hlow.loopNamed hvisit), ?_⟩
    intro n x hx
    obtain ⟨loops, xs, s, hlen, hvisit⟩ := Visits.of_nested hx .start hbody
    obtain ⟨s', hrun, -⟩ := (hvisit.within hbody).head
    exact ⟨loops, xs, s, s', by simpa using hlen, hvisit, hrun⟩

theorem lower_exits_gridSample :
    ∃ m fn, gridSample.lower = .ok m ∧ fn ∈ m.funcs.toList ∧ fn.isDeclared = false ∧
      4 < fn.layout.size ∧ (∀ bb ∈ fn.layout.toList, fn.Reaches m bb fn.exit) ∧
      ∀ before bb, fn.Path m before bb → (∀ next, ¬ fn.Edge m bb next) →
        bb = fn.exit ∧ ∃ id val, (fn.code bb).getLast? = some id ∧
          m.node? id = some (.ret val) := by
  obtain ⟨m, hm⟩ := exists_lower_gridSample
  have hloop : (gridSample.lower.toOption.any fun m =>
      m.funcs.toList.any fun fn => !fn.isDeclared && 4 < fn.layout.size) = true := by decide +kernel
  rw [hm] at hloop
  obtain ⟨fn, hfn, hcode⟩ := List.any_eq_true.mp hloop
  rw [Bool.and_eq_true, Bool.not_eq_true', decide_eq_true_eq] at hcode
  have hexits := lower_exits hm hfn hcode.1
  exact ⟨m, fn, hm, hfn, hcode.1, hcode.2, hexits.1, hexits.2.1⟩

end Sysy.Lowering
