import Sysy.Proofs.Lowering.History
import Sysy.Proofs.Lowering.Visits

/-!
The hints of blocks. A block keeps the hint that it was made with, so the blocks that a loop goes to
are still called after it when the function is complete.
-/

namespace Sysy.Ir

def Func.hints (fn : Func) : List String := fn.blocks.toList.map (·.name)

def Func.Named (fn : Func) (bb : BlockId) (name : String) : Prop := ∃ b, fn.block? bb = some b ∧
    b.name = name

theorem Func.named_iff {fn : Func} {bb : BlockId} {name : String} :
    fn.Named bb name ↔ 0 < bb ∧ fn.hints[bb - 1]? = some name := by
  simp only [Named, block?_eq_some, hints, List.getElem?_map, Array.getElem?_toList,
    Option.map_eq_some_iff]
  constructor
  · rintro ⟨b, ⟨hpos, hb⟩, hname⟩
    exact ⟨hpos, b, hb, hname⟩
  · rintro ⟨hpos, b, hb, hname⟩
    exact ⟨b, ⟨hpos, hb⟩, hname⟩

@[simp] theorem Func.hints_push (fn : Func) (bb : BlockId) (id : ValueId) :
    (fn.push bb id).hints = fn.hints := by
  apply List.ext_getElem?
  intro i
  simp only [hints, push, List.getElem?_map, Array.getElem?_toList, Array.getElem?_modify]
  split
  · rw [Option.map_map]
    rfl
  · rfl

@[simp] theorem Func.hints_addBlock (fn : Func) (name : String) :
    (fn.addBlock name).2.hints = fn.hints ++ [name] := by
  simp [hints, addBlock]

def KeepsHints (f : FuncId) (m m' : Module) : Prop :=
  ∀ fn, m.func? f = some fn → ∃ fn', m'.func? f = some fn' ∧ fn.hints <+: fn'.hints

namespace KeepsHints
variable {f : FuncId} {m m' m'' : Module} {fn : Func} {bb : BlockId} {name : String}

theorem refl (f : FuncId) (m : Module) : KeepsHints f m m := fun fn hf => ⟨fn, hf, List.prefix_rfl⟩

theorem trans (h : KeepsHints f m m') (h' : KeepsHints f m' m'') : KeepsHints f m m'' := by
  intro fn hf
  obtain ⟨fn', hf', hhints⟩ := h fn hf
  obtain ⟨fn'', hf'', hhints'⟩ := h' fn' hf'
  exact ⟨fn'', hf'', hhints.trans hhints'⟩

theorem modifyFunc (m : Module) (change : Func → Func) (h : ∀ fn, fn.hints <+: (change fn).hints) :
    KeepsHints f m (m.modifyFunc f change) := by
  intro fn hf
  refine ⟨change fn, ?_, h fn⟩
  rw [Module.func?_modifyFunc _ _ (Module.bounds_of_func? hf).1, if_pos rfl, hf]
  rfl

theorem append (m : Module) (v : Value) : KeepsHints f m (m.append f v) :=
  fun fn hf => modifyFunc (m.add v).2 _ (fun fn => by simp) fn hf

theorem close (m : Module) (v : Value) : KeepsHints f m (m.close f v) :=
  (append m v).trans (modifyFunc _ _ fun _ => List.prefix_rfl)

theorem named (h : KeepsHints f m m') (hf : m.func? f = some fn) (hn : fn.Named bb name) :
    ∃ fn', m'.func? f = some fn' ∧ fn'.Named bb name := by
  obtain ⟨fn', hf', rest, hhints⟩ := h fn hf
  rw [Func.named_iff] at hn
  obtain ⟨hlt, hget⟩ := List.getElem?_eq_some_iff.mp hn.2
  refine ⟨fn', hf', Func.named_iff.mpr ⟨hn.1, ?_⟩⟩
  rw [← hhints, List.getElem?_append_left hlt]
  exact hn.2

end KeepsHints

def Build.Keeps {α : Type} (f : FuncId) (x : Build α) : Prop :=
  ∀ m a m', x m = .ok (a, m') → KeepsHints f m m'

namespace Build.Keeps
variable {α β : Type} {f : FuncId}

theorem bind {x : Build α} {k : α → Build β} (hx : Keeps f x) (hk : ∀ a, Keeps f (k a)) :
    Keeps f (x >>= k) := by
  intro m b m' hrun
  simp only [Bind.bind, StateT.bind, Except.bind] at hrun
  cases hxm : x m with
  | error e =>
    rw [hxm] at hrun
    cases hrun
  | ok p =>
    obtain ⟨a, m₁⟩ := p
    rw [hxm] at hrun
    exact (hx m a m₁ hxm).trans (hk a m₁ b m' hrun)

theorem pure (a : α) : Keeps f (Pure.pure a) := by
  rintro m b m' hrun
  cases hrun
  exact .refl f m

theorem modify {change : Func → Func} (h : ∀ fn, fn.hints <+: (change fn).hints) :
    Keeps f (modify (·.modifyFunc f change)) := by
  rintro m a m' hrun
  cases hrun
  exact .modifyFunc m change h

theorem insert (bb : BlockId) (node : Node) (ty : Ty) (name : String) :
    Keeps f (insert f bb node ty name) := by
  intro m a m' hrun
  obtain ⟨-, -, rfl⟩ := Build.insert_ok.mp hrun
  exact .append m _

theorem emit (node : Node) (ty : Ty) : Keeps f (emit f node ty) := by
  refine bind (fun m a m' hrun => ?_) fun bb => insert bb node ty ""
  cases hrun
  exact .refl f m

theorem jump (target : BlockId) : Keeps f (jump f target) :=
  bind (emit _ _) fun id => bind (modify fun _ => List.prefix_rfl) fun _ => pure id

theorem unplace (bb : BlockId) : Keeps f (unplace f bb) := modify fun _ => List.prefix_rfl

theorem setCurrent (bb : BlockId) : Keeps f (setCurrent f bb) := modify fun _ => List.prefix_rfl

theorem jumpAt (bb target : BlockId) : Keeps f (jumpAt f bb target) := by
  refine bind (fun m a m' hrun => ?_) fun saved => bind (setCurrent bb) fun _ =>
    bind (jump target) fun id =>
    bind (setCurrent saved) fun _ => pure id
  cases hrun
  exact .refl f m

theorem load (src : ValueId) : Keeps f (load f src) := by
  refine bind (fun m a m' hrun => ?_) fun m => emit _ _
  cases hrun
  exact .refl f m

end Build.Keeps

end Sysy.Ir

namespace Sysy.Lowering
open Ir

variable {t : Target} {loops : List Loop} {s s' s₁ s₂ : State} {P : Set Nat} {m m' : Module}
  {f : FuncId} {fn : Func}
  {xs body : List Stmt} {l : Loop} {test : Expr}

theorem Step.keepsHints (h : Step f m m') : KeepsHints f m m' := by
  cases h with
  | constant w => exact fun fn hf => ⟨fn, hf, List.prefix_rfl⟩
  | inst _ _ _ _ _ => exact .close m _
  | label _ _ => exact .modifyFunc m _ fun fn => by simp
  | start _ _ _ _ _ _ => exact .modifyFunc m _ fun _ => List.prefix_rfl

theorem Grows.keepsHints (h : Grows f m m') : KeepsHints f m m' := by
  induction h with
  | refl => exact .refl f m
  | tail _ hs ih => exact ih.trans hs.keepsHints

theorem keepsHints_of_build {α : Type} {x : Build α} {a : α} (hx : Build.Keeps f x)
    (hrun : build x s = .ok (a, s')) :
    KeepsHints f s.module s'.module := hx _ a _ (build_ok.mp hrun).1

theorem keepsHints_layExit {u : Unit} (hrun : layExit t s = .ok (u, s')) :
    KeepsHints t.func s.module s'.module := by
  obtain ⟨⟨⟩, s₁, hstart, hrun⟩ := bind_ok.mp hrun
  rw [startBlock_eq] at hstart
  obtain ⟨-, rfl⟩ := Prod.mk.inj (Except.ok.inj hstart)
  refine (KeepsHints.modifyFunc s.module (·.start t.exit) fun _ => List.prefix_rfl).trans ?_
  cases hres : t.result with
  | none =>
    rw [hres] at hrun
    obtain ⟨_, s₂, hret, hpure⟩ := bind_ok.mp hrun
    obtain ⟨-, rfl⟩ := pure_ok.mp hpure
    exact keepsHints_of_build (Build.Keeps.emit _ _) hret
  | some slot =>
    rw [hres] at hrun
    obtain ⟨v, s₂, hload, hrun⟩ := bind_ok.mp hrun
    obtain ⟨_, s₃, hret, hpure⟩ := bind_ok.mp hrun
    obtain ⟨-, rfl⟩ := pure_ok.mp hpure
    exact (keepsHints_of_build (Build.Keeps.load _) hload).trans
      (keepsHints_of_build (Build.Keeps.emit _ _) hret)

theorem keepsHints_layTail {tail : BlockId} {fn : Func} {b : Block} {u : Unit}
    (hrun : layTail t tail m fn b s = .ok (u, s')) : KeepsHints t.func s.module s'.module := by
  unfold layTail at hrun
  split at hrun
  · exact keepsHints_of_build (Build.Keeps.unplace _) hrun
  · split at hrun
    · obtain ⟨_, s₁, hleave, hpure⟩ := bind_ok.mp hrun
      obtain ⟨-, rfl⟩ := pure_ok.mp hpure
      exact keepsHints_of_build (Build.Keeps.jump _) hleave
    · obtain ⟨-, rfl⟩ := pure_ok.mp hrun
      exact .refl _ _

theorem keepsHints_finish {entry block : BlockId} {u : Unit}
    (hrun : finish t entry block s = .ok (u, s')) :
    KeepsHints t.func s.module s'.module := by
  rw [finish_eq] at hrun
  obtain ⟨_, s₁, hjump, hrun⟩ := bind_ok.mp hrun
  obtain ⟨tail, s₂, hcurrent, hrun⟩ := bind_ok.mp hrun
  rw [run_bind get_run] at hrun
  have hsame : s₂.module = s₁.module := by
    obtain ⟨hcur, -⟩ := build_ok.mp hcurrent
    exact (Prod.mk.inj (Except.ok.inj hcur)).2.symm
  refine (keepsHints_of_build (Build.Keeps.jumpAt _ _) hjump).trans (hsame ▸ ?_)
  generalize (s₂.module.func? t.func).bind (fun fn => (fn.block? tail).map fun b => (fn, b)) =
    found at hrun
  cases found with
  | none =>
    obtain ⟨-, rfl⟩ := pure_ok.mp hrun
    exact .refl _ _
  | some p =>
    obtain ⟨_, s₃, htail, hexit⟩ := bind_ok.mp hrun
    exact (keepsHints_layTail htail).trans (keepsHints_layExit hexit)

def LoopNamed (fn : Func) (l : Loop) : Prop :=
  fn.Named l.test "while_cond" ∧ fn.Named l.exit "while_end"

theorem named_newBlock {e : Bool} {name : String} {bb : BlockId} (h : At t e P s)
    (hrun : newBlock t name s = .ok (bb, s')) :
    ∃ fn, s'.module.func? t.func = some fn ∧ fn.Named bb name := by
  obtain ⟨fn, hf, -, -⟩ := h.func
  obtain ⟨rfl, rfl⟩ := eq_of_build hrun (Build.addBlock_eq hf name)
  refine ⟨(fn.addBlock name).2, ?_, { name }, by rw [Func.block?_addBlock, if_pos rfl], rfl⟩
  rw [Module.func?_modifyFunc _ _ (Module.bounds_of_func? hf).1, if_pos rfl, hf]
  rfl

theorem loopNamed_openLoop (h : At t false P s) (hrun : openLoop t test s = .ok (l, s')) :
    ∃ fn, s'.module.func? t.func = some fn ∧ LoopNamed fn l := by
  obtain ⟨⟨l', bb⟩, s₁, hlabel, hrun⟩ := bind_ok.mp hrun
  obtain ⟨⟨⟩, s₂, henter, hpure⟩ := bind_ok.mp hrun
  obtain ⟨rfl, rfl⟩ := pure_ok.mp hpure
  obtain ⟨hm₁, h₁, hl⟩ := (gives_labelLoop h).ok hlabel
  obtain ⟨hm₂, h₂⟩ := (gives_enterLoop h₁ hl test).ok henter
  obtain ⟨testBlock, s₃, htestRun, hlabel⟩ := bind_ok.mp hlabel
  obtain ⟨bodyBlock, s₄, hbodyRun, hlabel⟩ := bind_ok.mp hlabel
  obtain ⟨after, s₅, hafterRun, hpure⟩ := bind_ok.mp hlabel
  obtain ⟨heq, rfl⟩ := pure_ok.mp hpure
  obtain ⟨rfl, rfl⟩ := Prod.mk.inj heq
  obtain ⟨-, h₃, -⟩ := (gives_newBlock h (by decide)).ok htestRun
  obtain ⟨hm₄, h₄, -⟩ := (gives_newBlock h₃ (by decide)).ok hbodyRun
  obtain ⟨hm₅, -⟩ := (gives_newBlock h₄ (by decide)).ok hafterRun
  obtain ⟨fn₃, hf₃, htestN⟩ := named_newBlock h htestRun
  obtain ⟨fn₅, hf₅, hexitN⟩ := named_newBlock h₄ hafterRun
  obtain ⟨fn, hf, htestN'⟩ := (hm₄.trans (hm₅.trans hm₂)).grows.keepsHints.named hf₃ htestN
  obtain ⟨fn', hf', hexitN'⟩ := hm₂.grows.keepsHints.named hf₅ hexitN
  obtain rfl := Option.some.inj (hf.symm.trans hf')
  exact ⟨fn, hf, htestN', hexitN'⟩

def LoopsNamed (t : Target) (m : Module) (loops : List Loop) : Prop :=
  ∀ l ∈ loops, ∃ fn, m.func? t.func = some fn ∧ LoopNamed fn l

theorem LoopsNamed.keepsHints (h : LoopsNamed t m loops) (hk : KeepsHints t.func m m') :
    LoopsNamed t m' loops := by
  intro l hl
  obtain ⟨fn, hf, htest, hexit⟩ := h l hl
  obtain ⟨fn', hf', htest'⟩ := hk.named hf htest
  obtain ⟨fn'', hf'', hexit'⟩ := hk.named hf hexit
  obtain rfl := Option.some.inj (hf'.symm.trans hf'')
  exact ⟨fn', hf', htest', hexit'⟩

theorem Visits.loopsNamed (h : Visits t body s₁ loops xs s) (hbody : Within t s₂ [] body s₁) :
    LoopsNamed t s.module loops := by
  induction h with
  | start => exact fun l hl => by cases hl
  | next h hx ih =>
    have hw := h.within hbody
    obtain ⟨P, hat⟩ := hw.here
    exact ih.keepsHints ((lasts_lowerStmt hat hw.targets _).ok hx).1.grows.keepsHints
  | block h ih => exact ih
  | yes h hopen ih =>
    obtain ⟨P, hat⟩ := (h.within hbody).here
    obtain ⟨hm, -⟩ := (gives_openCond hat _ _).ok hopen
    exact ih.keepsHints hm.grows.keepsHints
  | no h hopen hx hleave ih =>
    have hw := h.within hbody
    obtain ⟨P, hat⟩ := hw.here
    obtain ⟨hm, h₁, hp⟩ := (gives_openCond hat _ _).ok hopen
    obtain ⟨hno, hno2⟩ := hp.second rfl
    obtain ⟨hp₂, h₂⟩ := (lasts_lowerStmt h₁ (hw.targets.extends hm.extends) _).ok hx
    obtain ⟨hm₃, -⟩ := (gives_leaveFor h₂ (h₂.isTarget (by simp)) hno hno2).ok hleave
    exact ih.keepsHints (Grows.keepsHints (hm.grows.trans (hp₂.grows.trans hm₃.grows)))
  | body h hopen ih =>
    obtain ⟨P, hat⟩ := (h.within hbody).here
    obtain ⟨hm, -⟩ := (gives_openLoop hat _).ok hopen
    intro l hl
    rcases List.mem_cons.mp hl with rfl | hl
    · exact loopNamed_openLoop hat hopen
    · exact (ih.keepsHints hm.grows.keepsHints) l hl

/-- In the complete function, the loops that a statement stands in are named. -/
theorem Lowered.loopNamed {d : FuncDef} {s₀ s₃ : State} (h : Lowered m fn d t s₀ s₁ s₂ s₃)
    (hvisit : Visits t d.body s₁ loops xs s) : ∀ l ∈ loops, LoopNamed fn l := by
  have hnil : LoopsOk s₁.module t.func [] := by simp [LoopsOk]
  have hbody : Within t s₂ [] d.body s₁ := ⟨⟨_, h.begins.here⟩, hnil, s₂, h.body, .refl⟩
  have hw := hvisit.within hbody
  obtain ⟨P, hat⟩ := hw.here
  obtain ⟨s', hrun, hgrows⟩ := hw.run
  obtain ⟨hp, -⟩ := (lasts_lowerStmts hat hw.targets xs).ok hrun
  have hnamed := (hvisit.loopsNamed hbody).keepsHints
    ((Grows.keepsHints (hp.grows.trans hgrows)).trans (keepsHints_finish h.finish))
  intro l hl
  obtain ⟨fn', hf', hn⟩ := hnamed l hl
  obtain rfl := Option.some.inj (h.found.symm.trans hf')
  exact hn

end Sysy.Lowering
