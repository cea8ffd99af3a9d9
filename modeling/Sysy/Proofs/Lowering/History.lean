import Sysy.Proofs.Lowering.Program

/-!
Where the code of a module comes from. Each function that has code was lowered from an item of the
program, and nothing was done to it after that.
-/

namespace Sysy.Lowering
open Ir

variable {s s' : State} {m m' : Module} {g : Nat} {fn : Func}

/-- The function `fn` of the module was lowered from `d` in the state `s`: its body began in `s₁`,
was lowered in `s₂`, and it was complete in `s₃`. -/
structure Lowered (m : Module) (fn : Func) (d : FuncDef) (t : Target)
    (s s₁ s₂ s₃ : State) : Prop where
  ready : Ready s
  begins : Begins s d t s₁
  body : lowerStmts t [] d.body s₁ = .ok ((), s₂)
  finish : finish t 1 3 s₂ = .ok ((), s₃)
  found : s₃.module.func? t.func = some fn
  grown : Extends s₃.module m

theorem Lowered.extends {d : FuncDef} {t : Target} {s₀ s₁ s₂ s₃ : State}
    (h : Lowered m fn d t s₀ s₁ s₂ s₃) (he : Extends m m') :
    Lowered m' fn d t s₀ s₁ s₂ s₃ := { h with grown := h.grown.trans he }

theorem Lowered.before {d : FuncDef} {t : Target} {s₀ s₁ s₂ s₃ : State}
    (h : Lowered m fn d t s₀ s₁ s₂ s₃) {fn₁ : Func} (hf₁ : s₁.module.func? t.func = some fn₁) :
    Extends s₁.module m ∧ fn₁.Before fn := by
  have hnil : LoopsOk s₁.module t.func [] := by simp [LoopsOk]
  obtain ⟨hp₂, h₂⟩ := (lasts_lowerStmts h.begins.here hnil d.body).ok h.body
  obtain ⟨-, fn₂, fn₃, hf₂, hfin, hw, -⟩ := (h.begins.gives_finish hp₂ h₂).ok h.finish
  obtain rfl := Option.some.inj (hfin.found.symm.trans h.found)
  obtain ⟨fn₂', hf₂', hb₂⟩ := hp₂.grows.extends.func hf₁
  obtain rfl := Option.some.inj (hf₂.symm.trans hf₂')
  exact ⟨hp₂.grows.extends.trans (hw.touches.grown.trans h.grown), hb₂.trans hw.before⟩

theorem Lowered.name {d : FuncDef} {t : Target} {s₀ s₁ s₂ s₃ : State}
    (h : Lowered m fn d t s₀ s₁ s₂ s₃) : fn.name = d.name := by
  obtain ⟨params, args, ret, hE, -⟩ := h.begins.entering
  obtain ⟨fn₁, hc₁, hb₁, -⟩ := hE.code
  exact (h.before hc₁.found).2.name.trans hb₁.name

theorem Lowered.copied {d : FuncDef} {t : Target} {s₀ s₁ s₂ s₃ : State}
    (h : Lowered m fn d t s₀ s₁ s₂ s₃) :
    ∀ arg ∈ fn.args, Copied m t.func arg := by
  obtain ⟨params, args, ret, hE, -, -, hcopied⟩ := h.begins.entering
  obtain ⟨fn₁, hc₁, hb₁, -⟩ := hE.code
  obtain ⟨he, hb⟩ := h.before hc₁.found
  rw [hb.args, hb₁.args]
  exact fun arg harg => (hcopied arg harg).extends he

def Recorded (m : Module) (is : List Item) : Prop :=
  ∀ g fn, m.func? g = some fn → fn.layout ≠ #[] → ∃ span d t s₀ s₁ s₂ s₃, .func span d ∈ is ∧
    t.func = g ∧
    Lowered m fn d t s₀ s₁ s₂ s₃

theorem Recorded.extends {is : List Item} (h : Recorded m is) (he : Extends m m')
    (hfuncs : ∀ g, m'.func? g = m.func? g) : Recorded m' is := by
  intro g fn hg hcode
  rw [hfuncs] at hg
  obtain ⟨span, d, t, s₀, s₁, s₂, s₃, hmem, hfunc, hlow⟩ := h g fn hg hcode
  exact ⟨span, d, t, s₀, s₁, s₂, s₃, hmem, hfunc, hlow.extends he⟩

theorem keeps_lowerGlobal (h : Ready s) (isConst : Bool) (d : VarDef) :
    Gives (lowerGlobal isConst d) s fun _ s' =>
    Extends s.module s'.module ∧ ∀ g, s'.module.func? g = s.module.func? g := by
  unfold lowerGlobal
  split
  · rw [defineConst]
    split
    · refine Gives.bind (Gives.foldConst (Q := fun _ s' => s' = s) fun _ _ => rfl) ?_
      rintro w s₁ hs₁
      subst s₁
      exact Gives.define fun _ _ => ⟨.refl _, fun _ => rfl⟩
    · exact Gives.reject
  · refine Gives.bind (gives_globalInit h.sound.linked d) ?_
    rintro init ⟨m₁, scope₁⟩ ⟨-, ht, -⟩
    have hfuncs (g : Nat) : m₁.func? g = s.module.func? g := by
      rcases Nat.eq_zero_or_pos g with rfl | hg
      · rfl
      · exact ht.other g (Nat.ne_of_gt hg)
    let v : Value := { node := .global init, ty := .ptr (m₁.tyOf init), name := "@" ++ d.name }
    refine Gives.bind (Q := fun _ s' => s'.module = withGlobal m₁ v)
      (Gives.build (s := ⟨m₁, scope₁⟩) (m := withGlobal m₁ v) (a := m₁.values.size + 1) rfl rfl) ?_
    rintro _ ⟨m₂, scope₂⟩ rfl
    exact Gives.define fun _ _ => ⟨ht.grown.trans (extends_withGlobal m₁ v), hfuncs⟩

/-- A function is recorded when it is lowered, and the others are left alone. Its name is the only
new one. -/
theorem keeps_lowerFunc (h : Ready s) (d : FuncDef) : Gives (lowerFunc d) s fun _ s' =>
    ∃ t s₁ s₂ s₃ fn, Lowered s'.module fn d t s s₁ s₂ s₃ ∧ s'.module.func? t.func = some fn ∧
      Touches t.func s.module s'.module ∧
      s'.scope = ⟨[], (d.name, .func t.func) :: s.scope.outermost⟩ ∧
      s'.module = s₃.module := by
  refine gives_lowerFunc_of h d fun t s₁ hbegins => ?_
  refine Gives.bind (lasts_lowerStmts hbegins.here (show LoopsOk _ _ [] by simp [LoopsOk])
    d.body).ran ?_
  rintro _ s₂ ⟨hbody, hp₂, h₂⟩
  obtain ⟨params, args, ret, hE, hret, -⟩ := hbegins.entering
  obtain ⟨fn, hc, hb, -⟩ := hE.code
  obtain ⟨fn₂, hf₂, hb₂⟩ := hp₂.grows.extends.func hc.found
  have hret₂ : fn₂.ret = if t.result.isSome then .i32 else .unit :=
    by rw [hb₂.ret, hb.ret]; exact hret
  refine Gives.bind (gives_finish h₂ hf₂ (hbegins.isTarget hp₂.grows.extends) hret₂).ran ?_
  rintro _ s₃ ⟨hfinish, hscope, fn₃, hfin, hw, -⟩
  refine ⟨t, s₁, s₂, s₃, fn₃, ⟨h, hbegins, hbody, hfinish, hfin.found, .refl _⟩, hfin.found,
    hE.touches.trans ((Touches.of_grows hp₂.grows).trans hw.touches), ?_, rfl⟩
  change (⟨s₃.scope.inner.tail, s₃.scope.outermost⟩ : Scope Binding) = _
  rw [hscope, hp₂.tail, hbegins.tail, hp₂.outermost, hbegins.outermost]

theorem recorded_lowerItem {is : List Item} (h : Ready s) (hr : Recorded s.module is) (i : Item) :
    Gives (lowerItem i) s fun _ s' => Ready s' ∧ Recorded s'.module (is ++ [i]) := by
  have hmore : Recorded s.module (is ++ [i]) := by
    intro g fn hg hcode
    obtain ⟨span, d, t, s₀, s₁, s₂, s₃, hmem, hrest⟩ := hr g fn hg hcode
    exact ⟨span, d, t, s₀, s₁, s₂, s₃, List.mem_append_left _ hmem, hrest⟩
  have hglobal : s.scope.isGlobal = true := by simp [Scope.isGlobal, h.top]
  refine (gives_lowerItem h i).and ?_
  unfold lowerItem
  refine Gives.get_bind ?_
  dsimp only
  rw [if_pos hglobal]
  cases i with
  | func span d =>
    refine (keeps_lowerFunc h d).mono ?_
    rintro _ s' ⟨t, s₁, s₂, s₃, fn, hlow, hfound, ht, -⟩ g gn hg hcode
    by_cases hne : g = t.func
    · subst hne
      obtain rfl := Option.some.inj (hfound.symm.trans hg)
      exact ⟨span, d, t, s, s₁, s₂, s₃, by simp, rfl, hlow⟩
    · obtain ⟨span', d', t', s₀, s₁', s₂', s₃', hmem, hfunc, hlow'⟩ :=
        hmore g gn ((ht.other g hne).symm.trans hg) hcode
      exact ⟨span', d', t', s₀, s₁', s₂', s₃', hmem, hfunc, hlow'.extends ht.grown⟩
  | decl span d =>
    have hdefs (ds : List VarDef) : ∀ {s}, Ready s → Recorded s.module (is ++ [.decl span d]) →
        Gives (ds.forM (lowerGlobal d.isConst)) s fun _ s' =>
          Recorded s'.module (is ++ [.decl span d]) := by
      induction ds with
      | nil => exact fun _ hr => Gives.pure hr
      | cons v ds ih =>
        intro s h hr
        rw [List.forM]
        refine Gives.bind ((gives_lowerGlobal h d.isConst v).and
          (keeps_lowerGlobal h d.isConst v)) ?_
        rintro _ s₁ ⟨h₁, he, hfuncs⟩
        exact ih h₁ (hr.extends he hfuncs)
    exact hdefs d.defs h hmore

theorem recorded_lowerItems (is : List Item) :
    ∀ {s : State} {done : List Item}, Ready s → Recorded s.module done →
    Gives (lowerItems is) s fun _ s' => Recorded s'.module (done ++ is) := by
  induction is with
  | nil =>
    intro s done _ hr
    rw [List.append_nil]
    exact Gives.pure hr
  | cons i is ih =>
    intro s done h hr
    rw [lowerItems]
    refine Gives.bind (recorded_lowerItem h hr i) ?_
    rintro _ s₁ ⟨h₁, hr₁⟩
    rw [List.append_cons]
    exact ih h₁ hr₁

/-- Each function that has code was lowered from an item of the program. -/
theorem recorded_of_lower {p : Program} (h : p.lower = .ok m) : Recorded m p.items := by
  unfold Program.lower at h
  generalize hs : ({} : State) = s at h
  have hg : Gives (do openLibrary; lowerItems p.items : Lower Unit) s fun _ s' =>
    Recorded s'.module p.items := by
    refine Gives.bind (gives_openLibrary_of_empty hs.symm) ?_
    rintro _ s₁ ⟨h₁, hbare⟩
    have hstart : Recorded s₁.module [] := fun g fn hg hcode => absurd (hbare g fn hg).1 hcode
    exact recorded_lowerItems p.items h₁ hstart
  split at h
  · rename_i s' heq
    cases h
    exact hg.ok heq
  · cases h

def hasCode (p : Program) (f : FuncId) : Bool :=
  p.lower.toOption.any fun m => (m.func? f).any fun fn => !fn.isDeclared

theorem lowered_of_hasCode {p : Program} {f : FuncId} (hm : p.lower = .ok m) (h : hasCode p f) :
    ∃ fn span d t s₀ s₁ s₂ s₃, .func span d ∈ p.items ∧ Lowered m fn d t s₀ s₁ s₂ s₃ := by
  simp only [hasCode, hm, Except.toOption, Option.any_some, Option.any_eq_true] at h
  obtain ⟨fn, hfn, hcode⟩ := h
  have hlayout : fn.layout ≠ #[] := by simpa [Func.isDeclared] using hcode
  obtain ⟨span, d, t, s₀, s₁, s₂, s₃, hmem, -, hlow⟩ := recorded_of_lower hm f fn hfn hlayout
  exact ⟨fn, span, d, t, s₀, s₁, s₂, s₃, hmem, hlow⟩

end Sysy.Lowering
