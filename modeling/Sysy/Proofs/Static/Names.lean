import Sysy.Proofs.Static.Rules
import Sysy.Proofs.Lowering.Program

/-!
The names and constants of the rules, and those of lowering. `Decides x s V Q` says that the steps
`x` succeed exactly if `V` holds, and then end as `Q` tells. `Scoped` relates what a name stands for
by the rules to what it stands for in the code.
-/

namespace Sysy.Lowering
open Ir

variable {α β : Type} {s s' : State} {m m' : Module} {V V₀ : Prop}

def Decides (x : Lower α) (s : State) (V : Prop) (Q : α → State → Prop) : Prop :=
  match x s with
  | .ok (a, s') => V ∧ Q a s'
  | .error (.flawed _) => ¬V
  | .error (.fault _) => False

def Steady (x : Lower α) : Prop := ∀ s e, x s ≠ .error (.flawed e)

namespace Steady
variable {x : Lower α} {k : α → Lower β}

theorem pure (a : α) : Steady (pure a : Lower α) := fun _ _ h => by cases h

theorem build (x : Build α) : Steady (build x) := by
  intro s e h
  simp only [Lowering.build] at h
  split at h <;> cases h

theorem bind (hx : Steady x) (hk : ∀ a, Steady (k a)) : Steady (x >>= k) := by
  intro s e h
  rw [bind_run] at h
  split at h
  · exact hk _ _ _ h
  · rename_i heq
    cases h
    exact hx _ _ heq

theorem get_bind {k : State → Lower β} (hk : ∀ s, Steady (k s)) : Steady (get >>= k) :=
  fun s e h => hk s s e h

theorem modify (change : State → State) : Steady (modify change : Lower Unit) :=
  fun _ _ h => by cases h

end Steady

namespace Decides
variable {x : Lower α} {k : α → Lower β} {Q R : α → State → Prop} {S : β → State → Prop}

theorem of_steady (hx : Steady x) (h : Gives x s Q) : Decides x s True Q := by
  unfold Gives at h
  unfold Decides
  have hflaw := hx s
  generalize x s = r at h hflaw ⊢
  match r with
  | .ok _ => exact ⟨trivial, h⟩
  | .error (.flawed e) => exact absurd rfl (hflaw e)
  | .error (.fault _) => exact h

theorem and (h : Decides x s V Q) (h' : Gives x s R) : Decides x s V fun a s' => Q a s' ∧
    R a s' := by
  unfold Decides at *
  unfold Gives at h'
  generalize x s = r at h h' ⊢
  match r with
  | .ok _ => exact ⟨h.1, h.2, h'⟩
  | .error (.flawed _) => exact h
  | .error (.fault _) => exact h

theorem bind (hx : Decides x s V₀ Q) (hV : V → V₀)
    (hk : ∀ a s', V₀ → Q a s' → Decides (k a) s' V S) :
    Decides (x >>= k) s V S := by
  unfold Decides at hx ⊢
  rw [bind_run]
  split at hx
  · rename_i a s' heq
    rw [heq]
    exact hk a s' hx.1 hx.2
  · rename_i heq
    rw [heq]
    exact fun hv => hx (hV hv)
  · exact hx.elim

theorem next (hx : Steady x) (hq : Gives x s Q) (hk : ∀ a s', Q a s' → Decides (k a) s' V S) :
    Decides (x >>= k) s V S := bind (of_steady hx hq) (fun _ => trivial) fun a s' _ => hk a s'

/-- Steps that only the first of them can find a flaw in. -/
theorem before (hx : Decides x s V R) (hk : ∀ a, Steady (k a)) (h : Gives (x >>= k) s S) :
    Decides (x >>= k) s V S := by
  unfold Decides at hx ⊢
  unfold Gives at h
  rw [bind_run] at h ⊢
  split at hx
  · rename_i a s' heq
    rw [heq] at h ⊢
    have hlast : Decides (k a) s' True S := of_steady (hk a) h
    rwa [propext (iff_true_intro hx.1)]
  · rename_i heq
    rw [heq]
    exact hx
  · exact hx.elim

theorem pure {a : α} (hV : V) (hQ : Q a s) : Decides (pure a : Lower α) s V Q := ⟨hV, hQ⟩

theorem reject {e : LoweringError} (hV : ¬V) : Decides (reject e : Lower α) s V Q := hV

theorem reject_bind {e : LoweringError} (hV : ¬V) : Decides (Lowering.reject e >>= k) s V S := hV

theorem get_bind {k : State → Lower β} (h : Decides (k s) s V S) : Decides (get >>= k) s V S := h

theorem iff (h : Decides x s V₀ Q) (hV : V ↔ V₀) : Decides x s V Q := by rwa [propext hV]

theorem mono (h : Decides x s V Q) (hQ : ∀ a s', Q a s' → R a s') : Decides x s V R := by
  unfold Decides at *
  split at h
  · exact ⟨h.1, hQ _ _ h.2⟩
  · exact h
  · exact h

theorem known (h : Decides x s V Q) : Decides x s V fun a s' => V ∧ Q a s' := by
  unfold Decides at *
  split at h
  · exact ⟨h.1, h⟩
  · exact h
  · exact h

theorem check {W : α → Prop} {r : Except LoweringError α} (h : ∀ a, r = .ok a ↔ W a) :
    Decides (check r) s (∃ a, W a) fun a s' => s' = s ∧ W a := by
  cases r with
  | error e => exact reject fun ⟨a, ha⟩ => by cases (h a).mpr ha
  | ok a => exact pure ⟨a, (h a).mp rfl⟩ ⟨rfl, (h a).mp rfl⟩

end Decides

theorem steady_startBlock (t : Target) (bb : BlockId) : Steady (startBlock t bb) :=
  .bind (.build _) fun _ => .build _

end Sysy.Lowering

namespace Sysy.Static
open Ir Lowering

variable {α β : Type} {s s' : State} {m m' : Module} {Γ Γ' : Env} {name : String}

/-- The type of what is passed for a parameter, or of a result. -/
def Kind.ty : Kind → Ty
  | .void => .unit
  | .number => .i32
  | .array elem => .ptr (.ofDims elem)

def EntryIs (m : Module) : Binding → Entry → Prop
  | .const w, .const w' => w = w'
  | .var ptr c, .var dims c' => c = c' ∧ ∃ v, m.value? ptr = some v ∧ v.ty = .ptr (.ofDims dims)
  | .var ptr c, .param elem =>
    c = false ∧ ∃ v, m.value? ptr = some v ∧ v.ty = .ptr (.ptr (.ofDims elem))
  | .func g, .func params ret =>
    ∃ callee, m.func? g = some callee ∧ callee.params = params.map Kind.ty ∧
      callee.ret = ret.ty ∧ (ret = .void ∨ ret = .number) ∧ .void ∉ params
  | _, _ => False

def framesOf (scope : Scope Binding) : List (List (String × Binding)) :=
  scope.inner.map (·.2) ++ [scope.outermost]

def Scoped (m : Module) (scope : Scope Binding) (Γ : Env) : Prop :=
  List.Forall₂ (List.Forall₂ fun p q => p.1 = q.1 ∧ EntryIs m p.2 q.2) (framesOf scope) Γ

theorem EntryIs.extends {b : Binding} {entry : Entry} (h : EntryIs m b entry) (he : Extends m m') :
    EntryIs m' b entry := by
  cases b with
  | const w => cases entry <;> exact h
  | var ptr c =>
    cases entry with
    | const _ | func _ _ => exact h
    | var dims c' | param elem =>
      obtain ⟨hc, v, hv, hty⟩ := h
      exact ⟨hc, v, he.value hv, hty⟩
  | func g =>
    cases entry with
    | const _ | var _ _ | param _ => exact h
    | func params ret =>
      obtain ⟨callee, hg, hparams, hret, hrest⟩ := h
      obtain ⟨callee', hg', hb⟩ := he.func hg
      exact ⟨callee', hg', hb.params.trans hparams, hb.ret.trans hret, hrest⟩

theorem Scoped.extends {scope : Scope Binding} (h : Scoped m scope Γ) (he : Extends m m') :
    Scoped m' scope Γ :=
  List.Forall₂.imp (fun _ _ hframe => hframe.imp fun _ _ hp => ⟨hp.1, hp.2.extends he⟩) h

theorem Scoped.moves {t : Target} (h : Scoped s.module s.scope Γ) (hm : Moves t s s') :
    Scoped s'.module s'.scope Γ := by
  rw [hm.scope]
  exact h.extends hm.extends

theorem lookup_of_frame {fr : List (String × Binding)} {frame : Frame}
    (h : List.Forall₂ (fun p q => p.1 = q.1 ∧ EntryIs m p.2 q.2) fr frame) (name : String) :
    fr.lookup name = none ∧ frame.lookup name = none ∨
      ∃ b entry, fr.lookup name = some b ∧ frame.lookup name = some entry ∧ EntryIs m b entry := by
  induction h with
  | nil => exact .inl ⟨rfl, rfl⟩
  | @cons p q fr frame hp _ ih =>
    obtain ⟨hname, hentry⟩ := hp
    rw [List.lookup_cons, List.lookup_cons, hname]
    cases name == q.1 with
    | true => exact .inr ⟨p.2, q.2, rfl, rfl, hentry⟩
    | false => exact ih

theorem lookup_of_frames {frs : List (List (String × Binding))}
    (h : List.Forall₂ (List.Forall₂ fun p q => p.1 = q.1 ∧ EntryIs m p.2 q.2) frs Γ)
    (name : String) :
    frs.findSome? (·.lookup name) = none ∧ Γ.find? name = none ∨
      ∃ b entry, frs.findSome? (·.lookup name) = some b ∧ Γ.find? name = some entry ∧
      EntryIs m b entry := by
  induction h with
  | nil => exact .inl ⟨rfl, rfl⟩
  | @cons fr frame frs Γ hframe _ ih =>
    simp only [Env.find?, List.findSome?_cons] at ih ⊢
    rcases lookup_of_frame hframe name with ⟨h₁, h₂⟩ | ⟨b, entry, h₁, h₂, hentry⟩
    · simp only [h₁, h₂]
      exact ih
    · simp only [h₁, h₂]
      exact .inr ⟨b, entry, rfl, rfl, hentry⟩

theorem resolve_eq (scope : Scope Binding) (name : String) :
    scope.resolve name = match (framesOf scope).findSome? (·.lookup name) with
      | some b => .ok b
      | none => .error (.notFound name) := by
  rw [Scope.resolve, framesOf, List.findSome?_append, List.findSome?_map]
  simp only [Function.comp_def, List.findSome?_singleton]
  split <;> split <;> simp_all

theorem Scoped.resolve {scope : Scope Binding} (h : Scoped m scope Γ) (name : String) :
    scope.resolve name = .error (.notFound name) ∧ Γ.find? name = none ∨
      ∃ b entry, scope.resolve name = .ok b ∧ Γ.find? name = some entry ∧ EntryIs m b entry := by
  rw [resolve_eq]
  rcases lookup_of_frames h name with ⟨h₁, h₂⟩ | ⟨b, entry, h₁, h₂, hentry⟩
  · rw [h₁]
    exact .inl ⟨rfl, h₂⟩
  · rw [h₁]
    exact .inr ⟨b, entry, rfl, h₂, hentry⟩

theorem decides_resolve (h : Scoped s.module s.scope Γ) (name : String) (span : Span) :
    Decides (resolve name span) s (∃ entry, Γ.find? name = some entry)
      fun b s' => s' = s ∧ ∃ entry, Γ.find? name = some entry ∧ EntryIs s.module b entry := by
  refine Decides.get_bind ?_
  rcases h.resolve name with ⟨h₁, h₂⟩ | ⟨b, entry, h₁, h₂, hentry⟩
  · rw [h₁]
    exact Decides.reject (by simp [h₂])
  · rw [h₁]
    exact Decides.pure ⟨entry, h₂⟩ ⟨rfl, entry, h₂, hentry⟩

theorem map_fst_of_frame {fr : List (String × Binding)} {frame : Frame}
    (h : List.Forall₂ (fun p q => p.1 = q.1 ∧ EntryIs m p.2 q.2) fr frame) :
    fr.map (·.1) = frame.map (·.1) := by
  induction h with
  | nil => rfl
  | cons hp _ ih => rw [List.map_cons, List.map_cons, hp.1, ih]

theorem isSome_lookup_of_frame {fr : List (String × Binding)} {frame : Frame}
    (h : List.Forall₂ (fun p q => p.1 = q.1 ∧ EntryIs m p.2 q.2) fr frame) (name : String) :
    (fr.lookup name).isSome = true ↔ name ∈ frame.map (·.1) := by
  rw [← map_fst_of_frame h]
  simp [List.lookup_isSome_iff]

/-- A name can be defined in the code exactly if the rules allow it. -/
theorem Scoped.define {scope : Scope Binding} {b : Binding} {entry : Entry} (h : Scoped m scope Γ)
    (hb : EntryIs m b entry) (name : String) :
    (∃ e, scope.define name b = .error e) ∧ (∀ Γ', ¬Defines Γ name entry Γ') ∨
      ∃ scope' Γ', scope.define name b = .ok scope' ∧ Defines Γ name entry Γ' ∧
      Scoped m scope' Γ' := by
  obtain ⟨inner, outermost⟩ := scope
  cases inner with
  | nil =>
    cases h with
    | @cons _ frame _ Γ₀ hframe htail =>
      cases htail
      have hmem := isSome_lookup_of_frame hframe name
      simp only [Scope.define]
      by_cases hnew : name ∈ frame.map (·.1)
      · rw [if_pos (hmem.mpr hnew)]
        exact .inl ⟨⟨_, rfl⟩, fun Γ' hdef => by cases hdef; exact absurd hnew ‹_›⟩
      · rw [if_neg fun hs => hnew (hmem.mp hs)]
        exact .inr ⟨_, _, rfl, .intro hnew, .cons (.cons ⟨rfl, hb⟩ hframe) .nil⟩
  | cons fr rest =>
    obtain ⟨kind, names⟩ := fr
    cases h with
    | @cons _ frame _ Γ₀ hframe htail =>
      have hmem := isSome_lookup_of_frame hframe name
      simp only [Scope.define]
      by_cases hnew : name ∈ frame.map (·.1)
      · rw [if_pos (hmem.mpr hnew)]
        exact .inl ⟨⟨_, rfl⟩, fun Γ' hdef => by cases hdef; exact absurd hnew ‹_›⟩
      · rw [if_neg fun hs => hnew (hmem.mp hs)]
        exact .inr ⟨_, _, rfl, .intro hnew, .cons (.cons ⟨rfl, hb⟩ hframe) htail⟩

theorem decides_define {b : Binding} {entry : Entry} (h : Scoped s.module s.scope Γ)
    (hb : EntryIs s.module b entry) (name : String) (span : Span) :
    Decides (define name span b) s (∃ Γ', Defines Γ name entry Γ')
      fun _ s' =>
        s'.module = s.module ∧ ∃ Γ', Defines Γ name entry Γ' ∧ Scoped s'.module s'.scope Γ' := by
  refine Decides.get_bind ?_
  rcases h.define hb name with ⟨⟨e, h₁⟩, h₂⟩ | ⟨scope', Γ', h₁, hdef, hscope⟩
  · rw [h₁]
    exact Decides.reject fun ⟨Γ', hdef⟩ => h₂ Γ' hdef
  · rw [h₁]
    exact ⟨⟨Γ', hdef⟩, rfl, Γ', hdef, hscope⟩

theorem Scoped.enter {scope : Scope Binding} (h : Scoped m scope Γ) (kind : ScopeKind) :
    Scoped m (scope.enter kind) ([] :: Γ) := .cons .nil h

/-! Constants. -/

theorem Scoped.resolve_const {scope : Scope Binding} (h : Scoped m scope Γ) {name : String}
    {w : Word} :
    scope.resolve name = .ok (.const w) ↔ Γ.find? name = some (.const w) := by
  rcases h.resolve name with ⟨h₁, h₂⟩ | ⟨b, entry, h₁, h₂, hentry⟩
  · simp [h₁, h₂]
  · rw [h₁, h₂, Except.ok.injEq, Option.some.injEq]
    constructor
    · rintro rfl
      cases entry with
      | const w' => exact congrArg Entry.const (show w = w' from hentry).symm
      | var _ _ | param _ | func _ _ => exact hentry.elim
    · rintro rfl
      cases b with
      | const w' => exact congrArg Binding.const hentry
      | var _ _ | func _ => exact hentry.elim

theorem folds_name_iff {span : Span} {name : String} {indices : List Expr} {w : Word} :
    Folds Γ (.lval span name indices) w ↔ Γ.find? name = some (.const w) ∧ indices = [] := by
  constructor
  · rintro (_ | hname)
    exact ⟨hname, rfl⟩
  · rintro ⟨hname, rfl⟩
    exact .name hname

theorem folds_unary_iff {span : Span} {op : UnaryOp} {e : Expr} {w : Word} :
    Folds Γ (.unary span op e) w ↔ ∃ x, Folds Γ e x ∧ w = op.apply x := by
  constructor
  · rintro (_ | _ | hx)
    exact ⟨_, hx, rfl⟩
  · rintro ⟨x, hx, rfl⟩
    exact .unary hx

theorem folds_binary_iff {span : Span} {op : BinaryOp} {l r : Expr} {w : Word} :
    Folds Γ (.binary span op l r) w ↔
    ∃ x, Folds Γ l x ∧ (op.shortcut? x = some w ∨
      op.shortcut? x = none ∧ ∃ y, Folds Γ r y ∧ op.onWords? x y = some w) := by
  constructor
  · intro h
    cases h with
    | short hl hshort => exact ⟨_, hl, .inl hshort⟩
    | binary hl hgo hr hw => exact ⟨_, hl, .inr ⟨hgo, _, hr, hw⟩⟩
  · rintro ⟨x, hl, hshort | ⟨hgo, y, hr, hw⟩⟩
    · exact .short hl hshort
    · exact .binary hl hgo hr hw

theorem fold_ok_iff {scope : Scope Binding} (h : Scoped m scope Γ) : ∀ (e : Expr) {w : Word},
    fold scope e = .ok w ↔ Folds Γ e w
  | .lit _ v, w => by
    rw [fold, Except.ok.injEq]
    constructor
    · rintro rfl
      exact .lit
    · rintro ⟨⟩
      rfl
  | .lval .., w => by rw [fold_name, folds_name_iff, h.resolve_const]
  | .unary _ _ e, w => by
    rw [fold_unary, folds_unary_iff]
    simp only [fold_ok_iff h e]
  | .binary _ _ l r, w => by
    rw [fold_binary, folds_binary_iff]
    simp only [fold_ok_iff h l, fold_ok_iff h r]
  | .call .., w => by
    rw [fold]
    refine iff_of_false (by simp) ?_
    rintro ⟨⟩

theorem decides_foldConst (h : Scoped s.module s.scope Γ) (e : Expr) :
    Decides (foldConst e) s (∃ w, Folds Γ e w) fun w s' => s' = s ∧ Folds Γ e w :=
  Decides.get_bind (Decides.check fun _ => fold_ok_iff h e)

theorem foldDims_ok_iff {scope : Scope Binding} (h : Scoped m scope Γ) (es : List Expr) :
    ∀ {total : Nat} {ds : List Nat},
    0 < total → total ≤ maxArrayWords → (foldDims scope total es = .ok ds ↔
      List.Forall₂ (fun e (d : Nat) => ∃ w, Folds Γ e w ∧ w.toInt = d ∧ 0 < d) es ds ∧
        total * product ds ≤ maxArrayWords) := by
  induction es with
  | nil =>
    intro total ds _ htotal
    simp only [foldDims, Except.ok.injEq, List.forall₂_nil_left_iff]
    constructor
    · rintro rfl
      simpa [product_nil] using htotal
    · exact fun h => h.1.symm
  | cons e es ih =>
    intro total ds hpos htotal
    rw [foldDims_cons]
    constructor
    · rintro ⟨w, rest, hw, hwpos, hle, hrest, rfl⟩
      obtain ⟨htail, hall⟩ := (ih (Nat.mul_pos hpos (by omega)) hle).mp hrest
      refine ⟨.cons ⟨w, (fold_ok_iff h e).mp hw, by omega, by omega⟩ htail, ?_⟩
      rwa [product_cons, ← Nat.mul_assoc]
    · rintro ⟨hall, hle⟩
      cases hall with
      | @cons _ d _ rest hd htail =>
        obtain ⟨w, hw, hint, hdpos⟩ := hd
        obtain rfl : w.toInt.toNat = d := by omega
        rw [product_cons, ← Nat.mul_assoc] at hle
        -- the dimensions that follow are positive, so this one alone is not too large either
        have hrest : 0 < product rest := product_pos fun x hx => by
          obtain ⟨i, hi, rfl⟩ := List.getElem_of_mem hx
          obtain ⟨_, _, _, hpos⟩ := htail.get (htail.length_eq ▸ hi) hi
          exact hpos
        have hfits := le_trans (Nat.le_mul_of_pos_right _ hrest) hle
        exact ⟨w, rest, (fold_ok_iff h e).mpr hw, by omega, hfits,
          (ih (Nat.mul_pos hpos hdpos) hfits).mpr ⟨htail, hle⟩, rfl⟩

theorem decides_dimsOf (h : Scoped s.module s.scope Γ) (es : List Expr) :
    Decides (dimsOf es) s (∃ ds, HasDims Γ es ds) fun ds s' => s' = s ∧ HasDims Γ es ds := by
  refine Decides.get_bind (Decides.check fun ds => ?_)
  rw [foldDims_ok_iff h es (by decide) (by decide), one_mul]
  exact ⟨fun h => ⟨h.1, h.2⟩, fun h => ⟨h.1, h.2⟩⟩

/-! Initialisers of arrays. -/

theorem subShape?_eq_some_iff {n : Nat} {dims part : List Nat} : subShape? n dims = some part ↔
    IsPart dims n part := by
  induction dims with
  | nil =>
    refine iff_of_false (by simp [subShape?]) fun h => h.nonempty ?_
    simpa using h.suffix
  | cons d ds ih =>
    rw [subShape?]
    split
    · rename_i hnil
      subst hnil
      refine iff_of_false (by simp) fun h => h.nonempty ?_
      simpa using h.suffix
    · rename_i hne
      split
      · rename_i hmod
        have hdvd : product ds ∣ n := Nat.dvd_of_mod_eq_zero hmod
        simp only [Option.some.injEq]
        constructor
        · rintro rfl
          exact ⟨List.suffix_rfl, hne, hdvd, fun other hother _ => hother.length_le⟩
        · exact fun h => (h.suffix.eq_of_length_le (h.largest ds List.suffix_rfl hdvd)).symm
      · rename_i hmod
        have hproper (other : List Nat) (hdvd : product other ∣ n) : other <:+ ds ↔
          other <:+ ds.tail := by
          obtain ⟨e, es, rfl⟩ := List.exists_cons_of_ne_nil hne
          rw [List.suffix_cons_iff, List.tail_cons]
          refine or_iff_right ?_
          rintro rfl
          exact hmod (Nat.mod_eq_zero_of_dvd hdvd)
        rw [ih]
        constructor
        · exact fun h => ⟨(hproper _ h.begins).mpr h.suffix, h.nonempty, h.begins,
            fun other ho hdvd => h.largest other ((hproper _ hdvd).mp ho) hdvd⟩
        · exact fun h => ⟨(hproper _ h.begins).mp h.suffix, h.nonempty, h.begins,
            fun other ho hdvd => h.largest other ((hproper _ hdvd).mpr ho) hdvd⟩

def Takes (dims : List Nat) (n : Nat) (i : Init) (k : Nat) : Prop :=
  match i with
  | .expr _ => k = n + 1
  | .list _ elems => ∃ part j, IsPart dims n part ∧ Fills part 0 elems j ∧ k = n + product part

theorem fills_cons_iff {dims : List Nat} {n k : Nat} {i : Init} {is : List Init} :
    Fills dims n (i :: is) k ↔ ∃ j, Takes dims n i j ∧ j ≤ product dims ∧ Fills dims j is k := by
  constructor
  · intro h
    cases h with
    | expr hroom h => exact ⟨_, rfl, hroom, h⟩
    | list hpart helems hroom h => exact ⟨_, ⟨_, _, hpart, helems, rfl⟩, hroom, h⟩
  · rintro ⟨j, htakes, hroom, h⟩
    cases i with
    | expr e =>
      obtain rfl : j = n + 1 := htakes
      exact .expr hroom h
    | list span elems =>
      obtain ⟨part, _, hpart, helems, rfl⟩ := htakes
      exact .list hpart helems hroom h

mutual

theorem placeElem_ok_iff (dims : List Nat) (out : Cells) : ∀ (i : Init) (k : Nat),
    (∃ cells, placeElem dims out i = .ok cells ∧ cells.size = k) ↔ Takes dims out.size i k
  | .expr e, k => by
    rw [placeElem]
    simp [Takes, eq_comm]
  | .list span elems, k => by
    rw [placeElem]
    split
    · rename_i hnone
      refine iff_of_false (by simp) ?_
      rintro ⟨part, j, hpart, -⟩
      rw [subShape?_eq_some_iff.mpr hpart] at hnone
      cases hnone
    · rename_i sub hsub
      have hpart := subShape?_eq_some_iff.mp hsub
      have hinner (j : Nat) := placeElems_ok_iff sub #[] elems j
      simp only [bind, Except.bind, pure, Except.pure]
      constructor
      · rintro ⟨cells, hrun, hsize⟩
        split at hrun
        · cases hrun
        · rename_i inner hok
          obtain rfl := Except.ok.inj hrun
          have hle := size_placeElems elems hok (by simp)
          refine ⟨sub, inner.size, hpart, (hinner _).mp ⟨inner, hok, rfl⟩, ?_⟩
          rw [← hsize]
          simp only [Array.size_append, Array.size_replicate]
          omega
      · rintro ⟨part, j, hpart', hfills, rfl⟩
        obtain rfl : sub = part :=
          Option.some.inj (hsub.symm.trans (subShape?_eq_some_iff.mpr hpart'))
        obtain ⟨inner, hok, -⟩ := (hinner j).mpr hfills
        have hle := size_placeElems elems hok (by simp)
        refine ⟨_, by rw [hok], ?_⟩
        simp only [Array.size_append, Array.size_replicate]
        omega

theorem placeElems_ok_iff (dims : List Nat) (out : Cells) : ∀ (is : List Init) (k : Nat),
    (∃ cells, placeElems dims out is = .ok cells ∧ cells.size = k) ↔ Fills dims out.size is k
  | [], k => by
    rw [placeElems]
    constructor
    · rintro ⟨cells, hrun, rfl⟩
      obtain rfl := Except.ok.inj hrun
      exact .nil
    · rintro ⟨⟩
      exact ⟨out, rfl, rfl⟩
  | i :: is, k => by
    rw [placeElems, fills_cons_iff]
    simp only [bind, Except.bind]
    constructor
    · rintro ⟨cells, hrun, hsize⟩
      split at hrun
      · cases hrun
      · rename_i first hfirst
        split at hrun
        · cases hrun
        · rename_i hroom
          exact ⟨first.size, (placeElem_ok_iff dims out i _).mp ⟨first, hfirst, rfl⟩,
            not_lt.mp hroom,
            (placeElems_ok_iff dims first is k).mp ⟨cells, hrun, hsize⟩⟩
    · rintro ⟨j, htakes, hroom, hrest⟩
      obtain ⟨first, hfirst, rfl⟩ := (placeElem_ok_iff dims out i j).mpr htakes
      obtain ⟨cells, hcells, hsize⟩ := (placeElems_ok_iff dims first is k).mpr hrest
      refine ⟨cells, ?_, hsize⟩
      rw [hfirst]
      simp only [if_neg (not_lt.mpr hroom), hcells]

end

mutual

theorem mem_placeElem {dims : List Nat} {out : Cells} {x : Expr} : ∀ (i : Init) {cells : Cells},
    placeElem dims out i = .ok cells → (some x ∈ cells ↔ some x ∈ out ∨ Leaf x i)
  | .expr e, cells, h => by
    rw [placeElem] at h
    obtain rfl := Except.ok.inj h
    rw [Array.mem_push, Option.some.injEq]
    refine or_congr_right ⟨?_, ?_⟩
    · rintro rfl
      exact .here
    · rintro ⟨⟩
      rfl
  | .list span elems, cells, h => by
    rw [placeElem] at h
    split at h
    · cases h
    · simp only [bind, Except.bind, pure, Except.pure] at h
      split at h
      · cases h
      · rename_i inner hok
        obtain rfl := Except.ok.inj h
        rw [Array.mem_append, Array.mem_append, mem_placeElems elems hok]
        have hleaf : Leaf x (.list span elems) ↔ ∃ i ∈ elems, Leaf x i := by
          constructor
          · rintro (_ | ⟨hi, hx⟩)
            exact ⟨_, hi, hx⟩
          · rintro ⟨i, hi, hx⟩
            exact .inside hi hx
        rw [hleaf]
        simp

theorem mem_placeElems {dims : List Nat} {out : Cells} {x : Expr} :
    ∀ (is : List Init) {cells : Cells},
    placeElems dims out is = .ok cells → (some x ∈ cells ↔ some x ∈ out ∨ ∃ i ∈ is, Leaf x i)
  | [], cells, h => by
    rw [placeElems] at h
    obtain rfl := Except.ok.inj h
    simp
  | i :: is, cells, h => by
    rw [placeElems] at h
    simp only [bind, Except.bind] at h
    split at h
    · cases h
    · rename_i first hfirst
      split at h
      · cases h
      · rw [mem_placeElems is h, mem_placeElem i hfirst]
        simp only [List.mem_cons, exists_eq_or_imp, or_assoc]

end

theorem flatten_cases (dims : List Nat) (i : Init) :
    (∃ e, flatten dims i = .error e) ∧ ¬FitsShape dims i ∨
      ∃ cells, flatten dims i = .ok cells ∧ FitsShape dims i ∧ ∀ x, some x ∈ cells ↔ Leaf x i := by
  cases i with
  | expr e => exact .inl ⟨⟨_, rfl⟩, by simp [FitsShape]⟩
  | list span elems =>
    have hfits : FitsShape dims (.list span elems) ↔ ∃ n, Fills dims 0 elems n := by
      constructor
      · rintro ⟨_, _, n, heq, h⟩
        cases heq
        exact ⟨n, h⟩
      · rintro ⟨n, h⟩
        exact ⟨span, elems, n, rfl, h⟩
    rw [flatten, hfits]
    simp only [bind, Except.bind, pure, Except.pure]
    split
    · rename_i err heq
      refine .inl ⟨⟨err, rfl⟩, ?_⟩
      rintro ⟨n, h⟩
      obtain ⟨cells, hok, -⟩ := (placeElems_ok_iff dims #[] elems n).mpr h
      rw [hok] at heq
      cases heq
    · rename_i cells hok
      refine .inr ⟨_, rfl, ⟨cells.size, (placeElems_ok_iff dims #[] elems _).mp ⟨cells, hok, rfl⟩⟩,
        fun x => ?_⟩
      rw [Array.mem_append, mem_placeElems elems hok]
      constructor
      · rintro ((hempty | ⟨i, hi, hx⟩) | hzero)
        · simp at hempty
        · exact .inside hi hx
        · simp at hzero
      · rintro (_ | ⟨hi, hx⟩)
        exact .inl (.inr ⟨_, hi, hx⟩)

end Sysy.Static
