import Sysy.Proofs.Lowering.History
import Sysy.Proofs.Naming.Visibility

/-!
The marked values of a module. A function has a slot for its result, if it has one, and then a slot
for each parameter, which is named like the parameter. No two parameters of a function have the same
name.
-/

namespace Sysy

def FuncDef.slots (d : FuncDef) : List (Ir.Node × String) :=
  (if d.isVoid then [] else [(.alloc, "%ret")]) ++ d.params.map fun prm => (.alloc, "%" ++ prm.name)

theorem FuncDef.mem_slots (d : FuncDef) {node : Ir.Node} {name : String}
    (h : (node, name) ∈ d.slots) :
    d.isVoid = false ∧ name = "%ret" ∨ ∃ prm ∈ d.params, name = "%" ++ prm.name := by
  rcases List.mem_append.mp h with h | h
  · cases hvoid : d.isVoid <;> rw [hvoid] at h
    · exact .inl ⟨rfl, (Prod.mk.inj (List.mem_singleton.mp h)).2⟩
    · cases h
  · obtain ⟨prm, hprm, heq⟩ := List.mem_map.mp h
    exact .inr ⟨prm, hprm, (Prod.mk.inj heq).2.symm⟩

namespace Lowering
open Ir

variable {m m' : Module} {c : Scope Binding} {s s' : State} {t : Target}

theorem quiet_globalInit (d : VarDef) : Quiet m c (globalInit d) :=
  keeps_globalInit quiet_integer (fun _ => quiet_build (Build.unmarked_add not_marked_empty))
    (fun dims ws => quiet_build
      (keeps_aggregate Build.unmarked_integer (fun _ _ =>
        Build.unmarked_add not_marked_empty) dims ws)) d

theorem declares_lowerGlobal (isConst : Bool) (d : VarDef) :
    Declares (lowerGlobal isConst d) [d.name] := by
  unfold lowerGlobal
  split
  · exact declares_defineConst d
  · exact Declares.after (fun init => Declares.after (fun ptr => declares_define ..)
      (quiet_build (Build.unmarked_global ..)))
      (quiet_globalInit d)

theorem quiet_finish (t : Target) (entry body : BlockId) : Quiet m c (finish t entry body) :=
  keeps_finish (quiet_startBlock ..) (fun _ => quiet_build (Build.unmarked_load ..))
    (fun _ => quiet_emit ..)
    (fun _ _ => quiet_build (Build.unmarked_jumpAt ..))
      (fun _ => quiet_build (.modify fun _ h => h))
    (fun _ => quiet_jump ..) entry body

theorem slots_alloc {f : FuncId} {ty : Ty} {name : String} {x : ValueId} (hname : Marked name)
    (hrun : build (Build.alloc f ty name) s = .ok (x, s')) :
    s'.scope = s.scope ∧ ∀ g, s'.module.slots g = s.module.slots g ++ if g = f then [(.alloc, name)]
      else [] := by
  obtain ⟨hrun, hscope⟩ := build_ok.mp hrun
  obtain ⟨-, -, hm⟩ := Build.insert_ok.mp hrun
  refine ⟨hscope, fun g => ?_⟩
  rw [hm, Module.slots_append]
  exact congrArg (s.module.slots g ++ ·)
    (if_congr ⟨fun h => h.1.symm, fun h => ⟨h.symm, hname⟩⟩ rfl rfl)

theorem slots_lowerParams {f : FuncId} {ps : List (Param × Ty × ValueId)}
    (hrun : lowerParams f ps s = .ok ((), s')) :
    (∀ g, s'.module.slots g = s.module.slots g ++ if g = f then ps.map
      (fun q => (.alloc, "%" ++ q.1.name)) else []) ∧
      (ps.map (·.1.name)).Nodup ∧ ∀ q ∈ ps, q.1.name ∉ s.scope.innermost.map (·.1) := by
  induction ps generalizing s with
  | nil =>
    cases hrun
    simp
  | cons q ps ih =>
    obtain ⟨prm, ty, arg⟩ := q
    rw [lowerParams] at hrun
    obtain ⟨slot, s₁, halloc, hrun⟩ := bind_ok.mp hrun
    obtain ⟨_, s₂, hstore, hrun⟩ := bind_ok.mp hrun
    obtain ⟨⟨⟩, s₃, hdefine, hrun⟩ := bind_ok.mp hrun
    obtain ⟨hscope₁, hslots₁⟩ := slots_alloc (marked_percent prm.name) halloc
    obtain ⟨hscope₂, hgrows⟩ :=
      (quiet_emit f _ _ (m := s₁.module) (c := s₁.scope)).ok _ _ _ ⟨rfl, .refl _⟩ hstore
    obtain ⟨scope, hscope₃, rfl⟩ := define_ok.mp hdefine
    obtain ⟨hfresh, rfl⟩ := Scope.define_ok_iff.mp hscope₃
    obtain ⟨hslots, hnodup, hnew⟩ := ih hrun
    rw [hscope₂, hscope₁] at hfresh
    simp only [Scope.innermost_extend, hscope₂, hscope₁, List.map_append, List.mem_append,
      not_or] at hnew
    refine ⟨fun g => ?_, List.nodup_cons.mpr ⟨fun hmem => ?_, hnodup⟩, fun q hq => ?_⟩
    · rw [hslots]
      change s₂.module.slots g ++ _ = _
      rw [hgrows.slots, hslots₁, List.append_assoc]
      split <;> rfl
    · obtain ⟨q, hq, heq⟩ := List.mem_map.mp hmem
      exact (hnew q hq).1 (by simp [heq])
    · rcases List.mem_cons.mp hq with rfl | hq
      · exact hfresh
      · exact (hnew q hq).2

theorem Lowered.slots {fn : Func} {d : FuncDef} {s₀ s₁ s₂ s₃ : State}
    (h : Lowered m fn d t s₀ s₁ s₂ s₃) :
    (d.params.map (·.name)).Nodup ∧
      ∀ g, s₃.module.slots g = s₀.module.slots g ++ if g = t.func then d.slots else [] := by
  obtain ⟨params, args, s₄, s₅, hopens, hcopies, hcurrent⟩ := h.begins.copies
  have hlength : params.length = d.params.length := ((gives_paramTys d.params).ok hopens.types).2.1
  have hargs := hopens.args.length_eq
  rw [List.length_zipIdx] at hargs
  have hnames : (d.params.zip (params.zip args)).map (·.1) = d.params :=
    List.map_fst_zip (by rw [List.length_zip]; omega)
  obtain ⟨hslots, hnodup, -⟩ := slots_lowerParams hcopies
  obtain ⟨names, hbody⟩ := declares_lowerStmts t [] d.body
  have hrest : s₅.module.GrowsUnmarked s₃.module :=
    (((quiet_build (c := s₅.scope) (Build.unmarked_setCurrent t.func 3)).ok _ _ _ ⟨rfl,
      .refl _⟩ hcurrent).2.trans
      (hbody.grows _ _ _ h.body)).trans ((quiet_finish t 1 3 (c := s₂.scope)).ok _ _ _ ⟨rfl,
        .refl _⟩ h.finish).2
  refine ⟨?_, fun g => ?_⟩
  · rw [← hnames, List.map_map]
    exact hnodup
  · rw [hrest.slots, hslots, hopens.slots, List.append_assoc]
    refine congrArg (s₀.module.slots g ++ ·) ?_
    by_cases hg : g = t.func
    · have hps : (d.params.zip (params.zip args)).map (fun q =>
        ((.alloc, "%" ++ q.1.name) : Node × String)) =
          d.params.map fun prm => (.alloc, "%" ++ prm.name) := by
        conv_rhs => rw [← hnames, List.map_map]
        rfl
      rw [if_pos hg, hps, FuncDef.slots]
      cases d.isVoid <;> simp [hg]
    · simp [hg]

def Slotted (m : Module) (is : List Item) : Prop :=
  ∀ f, (m.slots f = [] ∧ ∀ fn, m.func? f = some fn → fn.layout = #[]) ∨
    ∃ span d fn, .func span d ∈ is ∧ m.func? f = some fn ∧ fn.name = d.name ∧ m.slots f = d.slots ∧
      (d.params.map (·.name)).Nodup

theorem Slotted.mono {is js : List Item} (h : Slotted m is) (hsub : is ⊆ js)
    (hslots : ∀ f, m'.slots f = m.slots f) (hfuncs : ∀ f, m'.func? f = m.func? f) :
    Slotted m' js := by
  intro f
  rw [hslots, hfuncs]
  refine (h f).imp_right ?_
  rintro ⟨span, d, fn, hmem, hrest⟩
  exact ⟨span, d, fn, hsub hmem, hrest⟩

theorem slotted_lowerItem {is : List Item} (h : Ready s) (hs : Slotted s.module is) (i : Item) :
    Gives (lowerItem i) s fun _ s' => Ready s' ∧ Slotted s'.module (is ++ [i]) := by
  have hglobal : s.scope.isGlobal = true := by simp [Scope.isGlobal, h.top]
  have hsub : is ⊆ is ++ [i] := List.subset_append_left ..
  refine (gives_lowerItem h i).and ?_
  unfold lowerItem
  refine Gives.get_bind ?_
  dsimp only
  rw [if_pos hglobal]
  cases i with
  | func span d =>
    refine (keeps_lowerFunc h d).mono ?_
    rintro _ s' ⟨t, s₁, s₂, s₃, fn, hlow, hfound, ht, -, hm⟩ f
    obtain ⟨hnodup, hslots⟩ := hlow.slots
    have hslots : s'.module.slots f = s.module.slots f ++ if f = t.func then d.slots else [] :=
      by rw [hm, hslots]
    by_cases hf : f = t.func
    · -- there was no such function before
      subst hf
      rw [if_pos rfl] at hslots
      have hnone : s.module.slots t.func = [] := by
        rcases hs t.func with ⟨hnil, -⟩ | ⟨_, _, gn, -, hg, -⟩
        · exact hnil
        · have := (Module.bounds_of_func? hg).2
          have := hlow.begins.func
          lia
      rw [hnone, List.nil_append] at hslots
      exact .inr ⟨span, d, fn, by simp, hfound, hlow.name, hslots, hnodup⟩
    · rw [if_neg hf, List.append_nil] at hslots
      rw [hslots, ht.other f hf]
      refine (hs f).imp_right ?_
      rintro ⟨span', d', gn, hmem, hrest⟩
      exact ⟨span', d', gn, hsub hmem, hrest⟩
  | decl span d =>
    have hdefs (ds : List VarDef) : ∀ {s}, Ready s → Slotted s.module (is ++ [.decl span d]) →
        Gives (ds.forM (lowerGlobal d.isConst)) s fun _ s' =>
          Slotted s'.module (is ++ [.decl span d]) := by
      induction ds with
      | nil => exact fun _ hs => Gives.pure hs
      | cons v ds ih =>
        intro s h hs
        rw [List.forM]
        refine Gives.bind ((gives_lowerGlobal h d.isConst v).and
          (keeps_lowerGlobal h d.isConst v)).ran ?_
        rintro _ s₁ ⟨hrun, h₁, -, hfuncs⟩
        have hgrows := (declares_lowerGlobal d.isConst v).grows _ _ _ hrun
        exact ih h₁ (hs.mono (List.Subset.refl _) hgrows.slots hfuncs)
    exact hdefs d.defs h (hs.mono hsub (fun _ => rfl) fun _ => rfl)

theorem slotted_lowerItems (is : List Item) :
    ∀ {s : State} {done : List Item}, Ready s → Slotted s.module done →
    Gives (lowerItems is) s fun _ s' => Slotted s'.module (done ++ is) := by
  induction is with
  | nil =>
    intro s done _ hs
    rw [List.append_nil]
    exact Gives.pure hs
  | cons i is ih =>
    intro s done h hs
    rw [lowerItems]
    refine Gives.bind (slotted_lowerItem h hs i) ?_
    rintro _ s₁ ⟨h₁, hs₁⟩
    rw [List.append_cons]
    exact ih h₁ hs₁

theorem unmarked_openLibrary : Keeps (fun s : State => m.GrowsUnmarked s.module) openLibrary := by
  have hdefine (name : String) (span : Span) (b : Binding) :
      Keeps (fun s : State => m.GrowsUnmarked s.module) (define name span b) :=
    ⟨fun _ _ _ hs hrun => hs.trans ((declares_define name span b).grows _ _ _ hrun)⟩
  have hlibrary : Build.Unmarked m Build.declareLibrary :=
    .forM _ fun q _ => (Build.unmarked_newFunc ..).bind fun _ => .pure ()
  exact keeps_openLibrary (keeps_build hlibrary) fun name span g => hdefine name span (.func g)

/-- The marked values of a program are those of its functions. -/
theorem slotted_of_lower {p : Program} (h : p.lower = .ok m) : Slotted m p.items := by
  unfold Program.lower at h
  generalize hs : ({} : State) = s at h
  have hg : Gives (do openLibrary; lowerItems p.items : Lower Unit) s fun _ s' =>
    Slotted s'.module p.items := by
    refine Gives.bind (gives_openLibrary_of_empty hs.symm).ran ?_
    rintro _ s₁ ⟨hrun, h₁, hbare⟩
    have hstart : Slotted s₁.module [] := by
      intro f
      have hempty : ({} : Module).slots f = [] := rfl
      refine .inl ⟨?_, fun fn hf => (hbare f fn hf).1⟩
      rw [(unmarked_openLibrary.ok _ _ _ (.refl _) hrun).slots, ← hs]
      exact hempty
    exact slotted_lowerItems p.items h₁ hstart
  split at h
  · rename_i s' heq
    cases h
    exact hg.ok heq
  · cases h

end Lowering

end Sysy
