import Sysy.Proofs.Constancy.Runs

/-!
Constants stay constant. The storage of a constant array is written by the stores of its own
declaration only, as long as the program does not pass it on: the code of a program never stores
into it by a name, and a place in it that no call hands over is out of reach for all other stores of
a run.
-/

namespace Sysy
open Ir Lowering

/-- The program defines the constant `v`, outside functions or somewhere in a body. -/
inductive Program.HasConst (p : Program) (v : VarDef) : Prop
  | outside {span : Span} {dec : Decl} (hitem : .decl span dec ∈ p.items)
      (hconst : dec.isConst = true) (hdef : v ∈ dec.defs)
  | inside {span span' : Span} {d : FuncDef} {n : Nat} {dec : Decl} (hitem : .func span d ∈ p.items)
      (hx : Stmt.Nested d.body n (.decl span' dec)) (hconst : dec.isConst = true)
        (hdef : v ∈ dec.defs)

/-- On the way from the program to its module, the constant `v` is defined from the state `s` to the
state `s'`. -/
inductive Program.LowersConst (p : Program) (m : Module) (v : VarDef) (s s' : State) : Prop
  | outside {done rest : List Item} {span : Span} {dec : Decl} {before after : List VarDef}
      {s₀ : State}
      (hitems : p.items = done ++ .decl span dec :: rest) (hconst : dec.isConst = true)
      (hdefs : dec.defs = before ++ v :: after)
        (hdone : (do openLibrary; lowerItems done : Lower Unit) {} = .ok ((), s₀))
      (hbefore : before.forM (lowerGlobal true) s₀ = .ok ((), s))
        (hrun : lowerGlobal true v s = .ok ((), s'))
  | inside {span span' : Span} {d : FuncDef} {fn : Func} {t : Target} {s₀ s₁ s₂ s₃ sᵥ : State}
      {loops : List Loop}
      {xs : List Stmt} {dec : Decl} {before after : List VarDef} (hitem : .func span d ∈ p.items)
      (hlow : Lowered m fn d t s₀ s₁ s₂ s₃) (hfound : m.func? t.func = some fn)
      (hvisit : Visits t d.body s₁ loops (.decl span' dec :: xs) sᵥ) (hconst : dec.isConst = true)
      (hdefs : dec.defs = before ++ v :: after) (hbefore : before.forM (lowerLocal t true) sᵥ =
        .ok ((), s))
      (hrun : lowerLocal t true v s = .ok ((), s'))

namespace Lowering

variable {p : Program} {m : Module} {v : VarDef} {s s' : State} {x : ValueId} {lib : Library}
  {fill : Nat → Nat → Word}
  {c : Config}

def Entered (m : Module) (is : List Item) : Prop :=
  ∀ span d, .func span d ∈ is → ∃ fn t s₀ s₁ s₂ s₃, Lowered m fn d t s₀ s₁ s₂ s₃ ∧
    m.func? t.func = some fn

theorem entered_lowerItems (is : List Item) : ∀ {s : State}, Ready s →
    Gives (lowerItems is) s fun _ s' => Entered s'.module is := by
  induction is with
  | nil => exact fun _ => Gives.pure fun _ _ hmem => by cases hmem
  | cons i is ih =>
    intro s h
    rw [lowerItems]
    refine Gives.bind (later_lowerItem h i).ran ?_
    rintro _ s₁ ⟨hrun, h₁⟩
    refine ((ih h₁.ready).and (later_lowerItems is h₁.ready)).mono ?_
    rintro _ s' ⟨hrest, hlater⟩ span d hmem
    rcases List.mem_cons.mp hmem with rfl | hmem
    · rw [lowerItem_run h] at hrun
      obtain ⟨t, s₂, s₃, s₄, fn, hlow, hfound, -⟩ := (keeps_lowerFunc h d).ok hrun
      exact ⟨fn, t, s, s₂, s₃, s₄, hlow.extends hlater.grown, hlater.funcs _ _ hfound⟩
    · exact hrest span d hmem

theorem entered_of_lower (h : p.lower = .ok m) : Entered m p.items := by
  generalize hstart : ({} : State) = s
  obtain ⟨s', hrun, rfl⟩ := lower_ok h hstart
  obtain ⟨⟨⟩, s₁, hopen, hitems⟩ := bind_ok.mp hrun
  exact (entered_lowerItems p.items ((gives_openLibrary_of_empty hstart.symm).ok hopen).1).ok hitems

theorem exists_lowersConst (h : p.lower = .ok m) (hv : p.HasConst v) :
    ∃ s s', p.LowersConst m v s s' := by
  cases hv with
  | @outside span dec hitem hconst hdef =>
    obtain ⟨done, rest, hitems⟩ := List.append_of_mem hitem
    obtain ⟨before, after, hdefs⟩ := List.append_of_mem hdef
    obtain ⟨s₀, s, s', sₙ, sₑ, hdone, hbefore, hrun, -⟩ := items_around h hitems hconst hdefs
    exact ⟨s, s', .outside hitems hconst hdefs hdone hbefore hrun⟩
  | @inside span span' d n dec hitem hx hconst hdef =>
    obtain ⟨before, after, hdefs⟩ := List.append_of_mem hdef
    obtain ⟨fn, t, s₀, s₁, s₂, s₃, hlow, hfound⟩ := entered_of_lower h span d hitem
    obtain ⟨loops, xs, sᵥ, -, hvisit⟩ := Visits.of_nested hx .start hlow.within
    obtain ⟨s₄, hdecl, -⟩ := (hvisit.within hlow.within).head
    rw [lowerStmt, hdefs, hconst] at hdecl
    obtain ⟨s, hbefore, hdecl⟩ := forM_append_ok hdecl
    rw [List.forM] at hdecl
    obtain ⟨⟨⟩, s', hrun, -⟩ := bind_ok.mp hdecl
    exact ⟨s, s', .inside hitem hlow hfound hvisit hconst hdefs hbefore hrun⟩

theorem exists_newStorage (h : p.lower = .ok m) (hdef : p.LowersConst m v s s')
    (hdims : v.dims ≠ []) :
    ∃ x, NewStorage m true v.name x s s' ∧ OwnStores m x s s' ∧
    ((∃ init, m.node? x = some (.global init)) → Unstored m x) := by
  obtain ⟨scope, hready⟩ := ready_of_lower h
  cases hdef with
  | outside hitems hconst hdefs hdone hbefore hrun =>
    obtain ⟨s₀, s₁, s₂, sₙ, sₑ, hdone', hbefore', hrun', hafter, hrest, rfl, hs, hs', hn, hₑ⟩ :=
      items_around h hitems hconst hdefs
    obtain ⟨-, rfl⟩ := Prod.mk.inj (Except.ok.inj (hdone.symm.trans hdone'))
    obtain ⟨-, rfl⟩ := Prod.mk.inj (Except.ok.inj (hbefore.symm.trans hbefore'))
    obtain ⟨-, rfl⟩ := Prod.mk.inj (Except.ok.inj (hrun.symm.trans hrun'))
    obtain ⟨x, hnew⟩ :=
      newStorage_lowerGlobal hs (by simpa using hdims) hrun (hn.grown.trans hₑ.grown)
    have hunstored := unstored_of_global hs hrun hs' hafter hn hrest hₑ hnew.storage hnew.lt hnew.le
    exact ⟨x, hnew, fun fn hfn hcode bb id hid val dest hnode hrooted =>
      (hunstored fn hfn hcode bb id hid val dest hnode hrooted).elim, fun _ => hunstored⟩
  | inside hitem hlow hfound hvisit hconst hdefs hbefore hrun =>
    have harray := hrun
    rw [lowerLocal, if_neg (by simpa using hdims)] at harray
    have hbefore' := hbefore
    have hrun' := hrun
    rw [← hconst] at hbefore' hrun'
    obtain ⟨P, s₄, hat, -, -, -, he₄, he⟩ := hlow.around hvisit hdefs hbefore' hrun'
    obtain ⟨x, hnew⟩ := newStorage_lowerLocalArray hat harray (he₄.trans he)
    refine ⟨x, hnew, ownStores_of_local hready.sound hlow hfound hvisit hconst hdefs hbefore hrun
      hnew.storage hnew.lt hnew.le, ?_⟩
    rintro ⟨init, hglobal⟩
    have hgrows := ((lasts_lowerLocal hat true v).ok hrun).1.grows
    obtain ⟨w, hw, halloc, -⟩ := alloc_of_grows hgrows (he₄.trans he) hnew.storage hnew.lt hnew.le
    cases halloc.symm.trans (Option.some.inj ((Module.node?_eq hw).symm.trans hglobal))

/-- A region that nothing stores into keeps the words that it has in the beginning. -/
theorem mem_of_unstored (hs : Sound m) (hx : m.IsStorage x) (hnot : ¬ m.Handed x) {init : ValueId}
    (hglobal : m.node? x = some (.global init)) (hunstored : Unstored m x)
    (h : m.Reached lib fill c) :
    c.store.mem (.global x) = (Store.start m).mem (.global x) := by
  obtain ⟨fn, hfn, hcode, ws, n, hrun⟩ := h
  induction n generalizing c with
  | zero =>
    cases hrun
    rfl
  | succ n ih =>
    obtain ⟨c₁, hc₁, hstep⟩ := Option.bind_eq_some_iff.mp hrun
    obtain ⟨K, hsecluded⟩ := Module.Reached.secluded hs hx hnot ⟨fn, hfn, hcode, ws, n, hc₁⟩
    obtain ⟨K', hsettled⟩ := hsecluded.settle fill
    have hno (id : ValueId) : ¬ (c₁.settle m fill).Writes m id (.global x) := by
      intro hwrites
      obtain ⟨gn, hgn, hgcode, bb, hid, val, dest, hnode, hrooted⟩ :=
        hsettled.store_of_writes hx hnot (places_global hwrites hglobal) hwrites
      exact hunstored gn hgn hgcode bb id hid val dest hnode hrooted
    rcases mem_of_step hstep hno with hmem | ⟨⟨k, hk⟩, -⟩
    · exact hmem.trans ((mem_global_settle x).trans (ih hc₁))
    · cases hk

end Lowering

/-- The code of a program stores into a constant array only where it is defined, so unless a place
in the array is passed on, nothing else changes its words. -/
theorem constants_kept {p : Program} {m : Module} (h : p.lower = .ok m) :
    (∀ v, p.HasConst v → ∃ s s', p.LowersConst m v s s') ∧
    ∀ v s s', p.LowersConst m v s s' → v.dims ≠ [] →
      ∃ x, NewStorage m true v.name x s s' ∧ OwnStores m x s s' ∧
        (¬ m.Handed x → ∀ lib fill c, m.Reached lib fill c →
          ((∃ init, m.node? x = some (.global init)) →
            c.store.mem (.global x) = (Store.start m).mem (.global x)) ∧
          ∀ r, (c.settle m fill).Places m x r →
            (∀ id, (c.settle m fill).Writes m id r →
              s.module.values.size < id ∧ id ≤ s'.module.values.size) ∧
            ∀ c' cells cells', step m lib fill c = some c' →
              (c.settle m fill).store.mem r = some cells → c'.store.mem r = some cells' →
              cells' ≠ cells → ∃ id, (c.settle m fill).Writes m id r) := by
  obtain ⟨scope, hready⟩ := ready_of_lower h
  refine ⟨fun v hv => exists_lowersConst h hv, fun v s s' hdef hdims => ?_⟩
  obtain ⟨x, hnew, hown, hunstored⟩ := exists_newStorage h hdef hdims
  refine ⟨x, hnew, hown, fun hnot lib fill c hreach =>
    ⟨?_, fun r hplace => ⟨fun id hwrites => ?_, ?_⟩⟩⟩
  · rintro ⟨init, hglobal⟩
    exact mem_of_unstored hready.sound hnew.storage hnot hglobal (hunstored ⟨init, hglobal⟩) hreach
  · obtain ⟨K, hsecluded⟩ := hreach.secluded hready.sound hnew.storage hnot
    obtain ⟨K', hsettled⟩ := hsecluded.settle fill
    obtain ⟨fn, hfn, hcode, bb, hid, val, dest, hnode, hrooted⟩ :=
      hsettled.store_of_writes hnew.storage hnot hplace hwrites
    exact hown fn hfn hcode bb id hid val dest hnode hrooted
  · intro c' cells cells' hstep hcells hcells' hne
    by_contra hno
    rcases mem_of_step hstep (not_exists.mp hno) with hmem | ⟨-, hmem⟩
    · exact hne (Option.some.inj (hcells'.symm.trans (hmem.trans hcells)))
    · cases hcells'.symm.trans hmem

def Ir.Module.keepsAll (m : Module) : Bool :=
  (List.range (m.values.size + 1)).all fun id => match m.node? id with
    | some (.call g _) => match m.func? g with
      | some callee => callee.isDeclared && callee.name ≠ "getarray"
      | none => true
    | _ => true

theorem Ir.Module.not_handed {m : Module} (h : m.keepsAll = true) (x : ValueId) : ¬ m.Handed x := by
  rintro ⟨id, g, args, callee, y, hnode, hg, hname, -, -⟩
  obtain ⟨v, hv, -⟩ := Option.map_eq_some_iff.mp hnode
  have hid : id ∈ List.range (m.values.size + 1) := List.mem_range.mpr (by
    have := Module.bounds_of_value? hv
    omega)
  have hcall := List.all_eq_true.mp h id hid
  simp only [hnode, hg, Bool.and_eq_true, decide_eq_true_eq] at hcall
  exact hcall.2 (hname hcall.1)

/-- `const int a[1] = {1};` -/
def oneDef : VarDef where
  name := "a"
  nameSpan := {}
  dims := [.lit {} 1]
  init := some (.list {} [.expr (.lit {} 1)])

/-- A constant array that is printed: `const int a[1] = {1}; void main() { putarray(1, a); }`. -/
def shownSample : Program where
  span := {}
  items := [
    .decl {} { isConst := true, defs := [oneDef] },
    .func {} {
      name := "main", nameSpan := {}, isVoid := true, bodySpan := {}, params := []
      body := [.expr {} (some (.call {} "putarray" [.lit {} 1, .lval {} "a" []]))] }]

theorem constants_kept_shownSample :
    ∃ m x init, shownSample.lower = .ok m ∧ m.node? x = some (.global init) ∧ ¬ m.Handed x ∧
      ∀ lib fill c, m.Reached lib fill c →
        c.store.mem (.global x) = (Store.start m).mem (.global x) := by
  obtain ⟨m, hm⟩ : ∃ m, shownSample.lower = .ok m := exists_of_isOk (by decide +kernel)
  have hplain : (shownSample.lower.toOption.any fun m => m.keepsAll && m.values.toList.all
    (·.node ≠ .alloc)) = true := by
    decide +kernel
  rw [hm] at hplain
  obtain ⟨hkeeps, hallocs⟩ := Bool.and_eq_true_iff.mp hplain
  obtain ⟨hdefined, hkept⟩ := constants_kept hm
  obtain ⟨s, s', hdef⟩ :=
    hdefined oneDef (.outside (List.mem_cons_self ..) rfl (List.mem_singleton_self _))
  obtain ⟨x, hnew, -, hruns⟩ := hkept oneDef s s' hdef (by simp [oneDef])
  obtain ⟨init, hglobal⟩ : ∃ init, m.node? x = some (.global init) := by
    refine hnew.storage.resolve_left fun halloc => ?_
    obtain ⟨v, hv, hnode⟩ := Option.map_eq_some_iff.mp halloc
    rw [Module.value?_of_pos m (Module.bounds_of_value? hv).1] at hv
    simpa [hnode] using List.all_eq_true.mp hallocs v
      (Array.mem_toList_iff.mpr (Array.mem_of_getElem? hv))
  exact ⟨m, x, init, hm, hglobal, m.not_handed hkeeps x, fun lib fill c hc =>
    (hruns (m.not_handed hkeeps x) lib fill c hc).1 ⟨init, hglobal⟩⟩

/-- A constant array that a function writes to:
`const int a[1] = {1}; void f(int p[]) { p[0] = 2; } void main() { f(a); }`. -/
def leakSample : Program where
  span := {}
  items := [
    .decl {} { isConst := true, defs := [oneDef] },
    .func {} {
      name := "f", nameSpan := {}, isVoid := true, bodySpan := {}, params := [⟨"p", {}, some []⟩]
      body := [.assign {} {} "p" [.lit {} 0] (.lit {} 2)] },
    .func {} {
      name := "main", nameSpan := {}, isVoid := true, bodySpan := {}, params := []
      body := [.expr {} (some (.call {} "f" [.lval {} "a" []]))] }]

def ranMain (m : Module) (count : Nat) : Option Config := do
  let fn ← m.funcNamed? "main"
  if fn.isDeclared then none
  else
    runs m ⟨fun _ => none, fun _ => none, fun _ => none⟩ (fun _ _ => 0) count
      (.running (.enter fn []) [] (.start m))

theorem reached_of_ranMain {m : Module} {count : Nat} {c : Config} (h : ranMain m count = some c) :
    ∃ lib fill, m.Reached lib fill c := by
  obtain ⟨fn, hfn, h⟩ := Option.bind_eq_some_iff.mp h
  split at h
  · cases h
  · rename_i hcode
    exact ⟨_, _, fn, Array.mem_toList_iff.mpr (Array.mem_of_find?_eq_some hfn),
      by simpa using hcode, [], count, h⟩

/-- Whether `v`, as the first definition of a program, makes storage for globals only, and all of it
has other words after some steps of a run. -/
def spoils (p : Program) (v : VarDef) (count : Nat) : Bool :=
  match p.lower, (do openLibrary; lowerItems [] : Lower Unit) {} with
  | .ok m, .ok (_, s) => match lowerGlobal true v s, ranMain m count with
    | .ok (_, s'), some c => (List.range (s'.module.values.size + 1)).all fun x =>
      match m.node? x with
      | some .alloc => false
      | some (.global _) => decide (c.store.mem (.global x) ≠ (Store.start m).mem (.global x))
      | _ => true
    | _, _ => false
  | _, _ => false

/-- The words of a constant array outside functions can change. -/
theorem not_forall_kept :
    ¬ ∀ (p : Program) m v s s' x init lib fill c, p.lower = .ok m → p.LowersConst m v s s' →
      v.dims ≠ [] → NewStorage m true v.name x s s' → m.node? x = some (.global init) →
      m.Reached lib fill c → c.store.mem (.global x) = (Store.start m).mem (.global x) := by
  intro hkept
  have hspoils : spoils leakSample oneDef 8 = true := by decide +kernel
  unfold spoils at hspoils
  split at hspoils
  · rename_i m _ s hm hs
    split at hspoils
    · rename_i _ s' c hrun hc
      have hitems : leakSample.items = [] ++ .decl {} ⟨true,
        [oneDef]⟩ :: leakSample.items.tail := rfl
      have hdefs : Decl.defs ⟨true, [oneDef]⟩ = [] ++ oneDef :: [] := rfl
      have hdef : leakSample.LowersConst m oneDef s s' := .outside hitems rfl hdefs hs rfl hrun
      obtain ⟨x, hnew, -⟩ := exists_newStorage hm hdef (by simp [oneDef])
      have hx := List.all_eq_true.mp hspoils x (List.mem_range.mpr (Nat.lt_succ_of_le hnew.le))
      obtain ⟨lib, fill, hreach⟩ := reached_of_ranMain hc
      rcases hnew.storage with halloc | ⟨init, hglobal⟩
      · simp [halloc] at hx
      · simp only [hglobal, decide_eq_true_eq] at hx
        exact hx (hkept leakSample m oneDef s s' x init lib fill c hm hdef (by simp [oneDef]) hnew
          hglobal hreach)
    · cases hspoils
  · cases hspoils

end Sysy
