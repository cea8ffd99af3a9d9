import Sysy.Proofs.Ir.Construction

/-!
Steps that only add to a module. The slots of parameters and of the result are the only values whose
names start with a percent sign, and they are made when a function is entered: all other steps add
values that are not marked like that.
-/

namespace Sysy

structure Keeps {σ ε α : Type} (I : σ → Prop) (x : StateT σ (Except ε) α) : Prop where
  ok : ∀ s a s', I s → x s = .ok (a, s') → I s'

namespace Keeps
variable {σ ε α β : Type} {I : σ → Prop} {x : StateT σ (Except ε) α} {k : α → StateT σ (Except ε) β}

theorem pure (a : α) : Keeps I (pure a : StateT σ (Except ε) α) where
  ok s _ s' hs h := by
    cases h
    exact hs

theorem throw (e : ε) : Keeps I (throw e : StateT σ (Except ε) α) where
  ok s _ s' hs h := by cases h

theorem bind (hx : Keeps I x) (hk : ∀ a, Keeps I (k a)) : Keeps I (x >>= k) where
  ok s b s' hs h := by
    simp only [Bind.bind, StateT.bind, Except.bind] at h
    split at h
    · cases h
    · rename_i p hp
      exact (hk p.1).ok p.2 b s' (hx.ok s p.1 p.2 hs hp) h

theorem get_bind {k : σ → StateT σ (Except ε) β} (hk : ∀ s, Keeps I (k s)) : Keeps I (get >>= k) :=
  ⟨fun s b s' hs h => (hk s).ok s b s' hs h⟩

theorem modify {change : σ → σ} (h : ∀ s, I s → I (change s)) :
    Keeps I (modify change : StateT σ (Except ε) PUnit) where
  ok s _ s' hs heq := by
    cases heq
    exact h s hs

theorem map (h : Keeps I x) (f : α → β) : Keeps I (f <$> x) := by
  rw [map_eq_pure_bind]
  exact h.bind fun a => pure (f a)

theorem mapM {γ : Type} {f : γ → StateT σ (Except ε) α} (l : List γ) (h : ∀ c ∈ l, Keeps I (f c)) :
    Keeps I (l.mapM f) := by
  induction l with
  | nil => exact pure []
  | cons c l ih =>
    rw [List.mapM_cons]
    exact (h c (List.mem_cons_self ..)).bind fun a =>
      (ih fun c hc => h c (List.mem_cons_of_mem _ hc)).bind fun as => pure (a :: as)

theorem forM {γ : Type} {f : γ → StateT σ (Except ε) PUnit} (l : List γ)
    (h : ∀ c ∈ l, Keeps I (f c)) :
    Keeps I (l.forM f) := by
  induction l with
  | nil => exact pure ()
  | cons c l ih =>
    rw [List.forM]
    exact (h c (List.mem_cons_self ..)).bind fun _ => ih fun c hc => h c (List.mem_cons_of_mem _ hc)

end Keeps

namespace Ir

def Marked (name : String) : Prop := name.toList.head? = some '%'

instance (name : String) : Decidable (Marked name) := inferInstanceAs (Decidable (_ = _))

theorem not_marked_at (name : String) : ¬ Marked ("@" ++ name) :=
  by simp [Marked, String.toList_append]

theorem not_marked_empty : ¬ Marked "" := by simp [Marked]

theorem marked_percent (name : String) : Marked ("%" ++ name) :=
  by simp [Marked, String.toList_append]

def Module.GrowsUnmarked (m m' : Module) : Prop :=
  ∃ vs, m'.values.toList = m.values.toList ++ vs ∧ ∀ v ∈ vs, ¬ Marked v.name

theorem Module.GrowsUnmarked.refl (m : Module) : m.GrowsUnmarked m := ⟨[], by simp, by simp⟩

theorem Module.GrowsUnmarked.trans {m m' m'' : Module} (h : m.GrowsUnmarked m')
    (h' : m'.GrowsUnmarked m'') :
    m.GrowsUnmarked m'' := by
  obtain ⟨vs, hvs, hnames⟩ := h
  obtain ⟨vs', hvs', hnames'⟩ := h'
  exact ⟨vs ++ vs', by rw [hvs', hvs, List.append_assoc],
    fun v hv => (List.mem_append.mp hv).elim (hnames v) (hnames' v)⟩

def Module.slots (m : Module) (f : FuncId) : List (Node × String) :=
  (m.values.toList.filter fun v => v.func = f ∧ Marked v.name).map fun v => (v.node, v.name)

theorem Module.GrowsUnmarked.slots {m m' : Module} (h : m.GrowsUnmarked m') (f : FuncId) :
    m'.slots f = m.slots f := by
  obtain ⟨vs, hvs, hnames⟩ := h
  have hnone : (vs.filter fun v => v.func = f ∧ Marked v.name) = [] := by
    rw [List.filter_eq_nil_iff]
    intro v hv
    simp [hnames v hv]
  rw [Module.slots, hvs, List.filter_append, hnone, List.append_nil, Module.slots]

theorem Module.slots_append (m : Module) (g : FuncId) (v : Value) (f : FuncId) :
    (m.append g v).slots f = m.slots f ++ if v.func = f ∧ Marked v.name then [(v.node, v.name)]
      else [] := by
  have hvalues : (m.append g v).values.toList = m.values.toList ++ [v] := Array.toList_push
  rw [slots, hvalues, List.filter_append, List.map_append, slots]
  split
  · rename_i h
    rw [List.filter_cons_of_pos (by simpa using h)]
    rfl
  · rename_i h
    rw [List.filter_cons_of_neg (by simpa using h)]
    rfl

theorem Module.mem_slots {m : Module} {v : Value} (hv : v ∈ m.values.toList)
    (hmarked : Marked v.name) :
    (v.node, v.name) ∈ m.slots v.func :=
  List.mem_map.mpr ⟨v, List.mem_filter.mpr ⟨hv, by simpa using hmarked⟩, rfl⟩

namespace Build
variable {α : Type} {m : Module}

abbrev Unmarked (m : Module) (x : Build α) : Prop := Sysy.Keeps m.GrowsUnmarked x

theorem unmarked_add {v : Value} (hv : ¬ Marked v.name) : Unmarked m (add v) where
  ok m₁ _ m' hm h := by
    cases h
    exact hm.trans ⟨[v], by simp, by simpa using hv⟩

theorem unmarked_insert {name : String} (f : FuncId) (bb : BlockId) (node : Node) (ty : Ty)
    (h : ¬ Marked name) :
    Unmarked m (insert f bb node ty name) := by
  refine .get_bind fun m => ?_
  dsimp only
  split
  · exact .throw _
  · split
    · exact .throw _
    · exact (unmarked_add h).bind fun id => .bind (.modify fun _ h => h) fun _ => .pure id

theorem unmarked_emit (f : FuncId) (node : Node) (ty : Ty) : Unmarked m (emit f node ty) :=
  (Sysy.Keeps.get_bind fun _ => .pure _).bind fun bb =>
    unmarked_insert f bb node ty not_marked_empty

theorem unmarked_integer (w : Word) : Unmarked m (integer w) := unmarked_add not_marked_empty

theorem unmarked_alloc {name : String} (f : FuncId) (ty : Ty) (h : ¬ Marked name) :
    Unmarked m (alloc f ty name) :=
  .get_bind fun _ => unmarked_insert f _ .alloc (.ptr ty) h

theorem unmarked_load (f : FuncId) (src : ValueId) : Unmarked m (load f src) :=
  .get_bind fun _ => unmarked_emit ..

theorem unmarked_getElemPtr (f : FuncId) (src index : ValueId) :
    Unmarked m (getElemPtr f src index) :=
  .get_bind fun _ => unmarked_emit ..

theorem unmarked_getPtr (f : FuncId) (src index : ValueId) : Unmarked m (getPtr f src index) :=
  .get_bind fun _ => unmarked_emit ..

theorem unmarked_call (f callee : FuncId) (args : List ValueId) : Unmarked m (call f callee args) :=
  .get_bind fun _ => unmarked_emit ..

theorem unmarked_setCurrent (f : FuncId) (bb : BlockId) : Unmarked m (setCurrent f bb) :=
  .modify fun _ h => h

theorem unmarked_jump (f : FuncId) (target : BlockId) : Unmarked m (jump f target) :=
  (unmarked_emit ..).bind fun id => .bind (.modify fun _ h => h) fun _ => .pure id

theorem unmarked_branch (f : FuncId) (cond : ValueId) (yes no : BlockId) :
    Unmarked m (branch f cond yes no) :=
  (unmarked_emit ..).bind fun id =>
    .bind (.modify fun _ h => h) fun _ => .bind (.modify fun _ h => h) fun _ => .pure id

theorem unmarked_jumpAt (f : FuncId) (bb target : BlockId) : Unmarked m (jumpAt f bb target) :=
  (Sysy.Keeps.get_bind fun _ => .pure _).bind fun saved => (unmarked_setCurrent f bb).bind fun _ =>
    (unmarked_jump f target).bind fun id => (unmarked_setCurrent f saved).bind fun _ => .pure id

theorem unmarked_addBlock (f : FuncId) (name : String) : Unmarked m (addBlock f name) :=
  .get_bind fun _ => .bind (.modify fun _ h => h) fun _ => .pure _

theorem unmarked_place (f : FuncId) (bb : BlockId) : Unmarked m (place f bb) := .modify fun _ h => h

theorem unmarked_func (name : String) (params : List Ty) (ret : Ty) :
    Unmarked m (func name params ret) :=
  .get_bind fun _ => (Sysy.Keeps.mapM _ fun _ _ => unmarked_add not_marked_empty).bind fun _ =>
    .bind (.modify fun _ h => h) fun _ => .pure _

theorem unmarked_newFunc (name : String) (params : List Ty) (ret : Ty) :
    Unmarked m (newFunc name params ret) := by
  refine .get_bind fun m => ?_
  split
  · exact .pure _
  · exact (unmarked_func ..).bind fun id => .pure _

theorem unmarked_global (name : String) (init : ValueId) : Unmarked m (global ("@" ++ name) init) :=
  .get_bind fun _ => (unmarked_add (not_marked_at name)).bind fun id =>
    .bind (.modify fun _ h => h) fun _ => .pure id

end Build

end Ir

end Sysy
