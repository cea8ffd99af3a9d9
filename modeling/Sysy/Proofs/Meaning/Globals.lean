import Mathlib.Order.Filter.AtTopBot.Basic
import Sysy.Proofs.Arrays.Image
import Sysy.Proofs.Meaning.Calls

/-!
Declarations outside functions. Whatever is folded has the same value when it is evaluated with
enough fuel, so the initial values in the code are the words that the objects of an evaluation begin
with.
-/

namespace Sysy.Lowering
open Ir

variable {s s' : State} {d : VarDef} {init : ValueId} {isConst : Bool}

theorem cellWords_of_foldCells (cs : List (Option Expr)) : ∀ {s' : State} {ws : List Word},
    cs.mapM foldCell s = .ok (ws, s') → cs.mapM (cellWord s.scope) = .ok ws := by
  induction cs with
  | nil =>
    intro s' ws hrun
    obtain ⟨rfl, -⟩ := pure_ok.mp hrun
    rfl
  | cons c cs ih =>
    intro s' ws hrun
    rw [List.mapM_cons] at hrun ⊢
    obtain ⟨w, s₁, hw, hrun⟩ := bind_ok.mp hrun
    obtain ⟨ws, s₂, hws, hpure⟩ := bind_ok.mp hrun
    obtain ⟨rfl, -⟩ := pure_ok.mp hpure
    have hc : cellWord s.scope c = .ok w ∧ s = s₁ := by
      cases c with
      | none => exact (pure_ok.mp hw).imp_left (congrArg Except.ok)
      | some e => exact foldConst_ok.mp hw
    obtain ⟨hc, rfl⟩ := hc
    exact bind_eq_ok.mpr ⟨w, hc, bind_eq_ok.mpr ⟨ws, ih hws, rfl⟩⟩

theorem exists_image_of_globalInit (hne : d.dims ≠ []) (hrun : globalInit d s = .ok (init, s')) :
    ∃ dims ws, image s.scope d = .ok (dims, ws) := by
  rw [globalInit, if_neg (by simpa using hne)] at hrun
  obtain ⟨dims, s₁, hdimsRun, hrun⟩ := bind_ok.mp hrun
  obtain ⟨hdims, rfl⟩ := dimsOf_ok.mp hdimsRun
  rw [image, hdims]
  cases hinit : d.init with
  | none => exact ⟨_, _, rfl⟩
  | some i =>
    rw [hinit] at hrun
    obtain ⟨cells, s₁, hcellsRun, hrun⟩ := bind_ok.mp hrun
    obtain ⟨hcells, rfl⟩ := check_ok.mp hcellsRun
    obtain ⟨ws, s₁, hws, -⟩ := bind_ok.mp hrun
    exact ⟨dims, ws, bind_eq_ok.mpr ⟨dims, rfl, bind_eq_ok.mpr ⟨cells, hcells,
      bind_eq_ok.mpr ⟨ws, cellWords_of_foldCells _ hws, rfl⟩⟩⟩⟩

theorem globalWords_of_holds {m : Module} {id : ValueId} {dims : List Nat} {ws : List Word}
    (hl : Linked m) (hnode : m.node? id = some (.global init)) (hdims : Shaped dims)
    (h : Holds m dims init ws) : globalWords m id = ws := by
  obtain ⟨v, hv, -⟩ := h.isUnit
  have hlt : init < m.values.size + 1 := Nat.lt_succ_of_le (Module.bounds_of_value? hv).2
  obtain ⟨data, hdata, hwords⟩ := Assembly.initData_spec hl dims hdims h hlt
  rw [globalWords, hnode]
  exact (Assembly.words_of_initData _ hdata).symm.trans hwords

end Sysy.Lowering

namespace Sysy.Meaning
open Ir Lowering Filter

/-! Evaluation with enough fuel. -/

section
variable {P : Nat → Prop} {scope : Scope Binding} {lib : Library} {globals env : Env} {σ : Memory}
  {w : Word} {d : VarDef}
  {isConst : Bool}

theorem eventually_succ (h : ∀ᶠ n in atTop, P (n + 1)) : ∀ᶠ n in atTop, P n := by
  rw [← map_add_atTop_eq_nat 1]
  exact eventually_map.mpr h

/-- An expression that is folded has a value once there is enough fuel. -/
theorem eventually_eval (hc : ConstsAgree scope env) :
    ∀ (e : Expr) {w : Word}, fold scope e = .ok w →
    ∀ᶠ n in atTop, number (eval lib globals n env) e σ = some (w, σ)
  | .lit span v, w, hfold => by
    cases hfold
    exact eventually_succ (.of_forall fun n => by rw [number_some, eval]; rfl)
  | .lval span name indices, w, hfold => by
    obtain ⟨hname, rfl⟩ := fold_name.mp hfold
    have hconst := hc name w hname
    exact eventually_succ (.of_forall fun n => by rw [number_some, eval, hconst]; rfl)
  | .unary span op e, w, hfold => by
    obtain ⟨x, hx, rfl⟩ := fold_unary.mp hfold
    refine eventually_succ ((eventually_eval hc e hx).mono fun n hn => ?_)
    rw [number_some, eval]
    exact bind_some.mpr ⟨x, σ, hn, rfl⟩
  | .binary span op l r, w, hfold => by
    obtain ⟨x, hx, hcases⟩ := fold_binary.mp hfold
    rcases hcases with hshort | ⟨hshort, y, hy, hw⟩
    · refine eventually_succ ((eventually_eval hc l hx).mono fun n hn => ?_)
      rw [number_some, eval]
      refine bind_some.mpr ⟨x, σ, hn, ?_⟩
      rw [hshort]
      rfl
    · refine eventually_succ (((eventually_eval hc l hx).and (eventually_eval hc r hy)).mono
        fun n hn => ?_)
      rw [number_some, eval]
      refine bind_some.mpr ⟨x, σ, hn.1, ?_⟩
      rw [hshort]
      refine bind_some.mpr ⟨y, σ, hn.2, ?_⟩
      rw [hw]
      rfl
  | .call span name args, w, hfold => by cases hfold

theorem eventually_shape (hc : ConstsAgree scope env) (es : List Expr) :
    ∀ {total : Nat} {ds : List Nat},
    foldDims scope total es = .ok ds → ∀ᶠ n in atTop, shape (number (eval lib globals n env)) es σ =
      some (ds, σ) := by
  induction es with
  | nil =>
    intro total ds hfold
    cases hfold
    exact .of_forall fun n => rfl
  | cons e es ih =>
    intro total ds hfold
    obtain ⟨w, rest, hw, hpos, -, hrest, rfl⟩ := foldDims_cons.mp hfold
    filter_upwards [eventually_eval hc e hw, ih hrest] with n hn hns
    refine bind_some.mpr ⟨w, σ, hn, ?_⟩
    rw [if_pos hpos]
    exact bind_some.mpr ⟨rest, σ, hns, rfl⟩

theorem eventually_cells (hc : ConstsAgree scope env) (cs : List (Option Expr)) :
    ∀ {ws : List Word},
    cs.mapM (Lowering.cellWord scope) = .ok ws →
    ∀ᶠ n in atTop, cs.mapM (cellWord (number (eval lib globals n env))) σ = some (ws, σ) := by
  induction cs with
  | nil =>
    intro ws h
    cases h
    exact .of_forall fun n => rfl
  | cons c cs ih =>
    intro ws h
    rw [List.mapM_cons] at h
    obtain ⟨w, hw, h⟩ := bind_eq_ok.mp h
    obtain ⟨ws, hws, h⟩ := bind_eq_ok.mp h
    cases h
    have hcell : ∀ᶠ n in atTop, cellWord (number (eval lib globals n env)) c σ = some (w, σ) := by
      cases c with
      | none =>
        cases hw
        exact .of_forall fun n => rfl
      | some e => exact eventually_eval hc e hw
    filter_upwards [hcell, ih hws] with n hn hns
    rw [List.mapM_cons]
    exact bind_some.mpr ⟨w, σ, hn, bind_some.mpr ⟨ws, σ, hns, rfl⟩⟩

theorem eventually_declare_array {dims : List Nat} {ws : List Word} (hc : ConstsAgree scope env)
    (hne : d.dims ≠ []) (h : image scope d = .ok (dims, ws)) : ∀ᶠ n in atTop,
      declare (number (eval lib globals n env)) isConst (some 0) env d σ =
        some (env.bind d.name (.object { object := σ.objects.length, dims }),
          { σ with objects := σ.objects ++ [ws.map some] }) := by
  have hcells : foldDims scope 1 d.dims = .ok dims ∧
      ∀ᶠ n in atTop, arrayCells (number (eval lib globals n env)) (some 0) dims d.init σ =
        some (ws.map some, σ) := by
    cases hinit : d.init with
    | none =>
      obtain ⟨hdims, rfl⟩ := image_none hinit h
      refine ⟨hdims, .of_forall fun n => ?_⟩
      rw [List.map_replicate]
      rfl
    | some i =>
      obtain ⟨hdims, cells, hcells, hws⟩ := image_some hinit h
      refine ⟨hdims, ?_⟩
      filter_upwards [eventually_cells hc _ hws] with n hn
      simp only [arrayCells, hcells]
      exact bind_some.mpr ⟨ws, σ, hn, rfl⟩
  filter_upwards [eventually_shape hc d.dims hcells.1, hcells.2] with n hshape hn
  rw [declare, if_neg (by simpa using hne)]
  exact bind_some.mpr ⟨dims, σ, hshape, bind_some.mpr ⟨_, σ, hn, declared_some.mpr ⟨rfl, rfl⟩⟩⟩

theorem eventually_declare_number (hc : ConstsAgree scope env) (hdims : d.dims = [])
    (h : d.init = none ∧ w = 0 ∨ ∃ e, d.init = some (.expr e) ∧ fold scope e = .ok w) :
    ∀ᶠ n in atTop,
      declare (number (eval lib globals n env)) false (some 0) env d σ =
        some (env.bind d.name (.object { object := σ.objects.length, dims := [] }),
          { σ with objects := σ.objects ++ [[some w]] }) := by
  have hcell : ∀ᶠ n in atTop, initCell (number (eval lib globals n env)) (some 0) d.init σ =
    some (some w, σ) := by
    rcases h with ⟨hinit, rfl⟩ | ⟨e, hinit, hw⟩
    · rw [hinit]
      exact .of_forall fun n => rfl
    · rw [hinit]
      filter_upwards [eventually_eval hc e hw] with n hn
      exact bind_some.mpr ⟨w, σ, hn, rfl⟩
  filter_upwards [hcell] with n hn
  rw [declare, if_pos (by simp [hdims])]
  exact bind_some.mpr ⟨_, σ, hn, declared_some.mpr ⟨rfl, rfl⟩⟩

theorem eventually_declare_const {e : Expr} (hc : ConstsAgree scope env) (hdims : d.dims = [])
    (hinit : d.init = some (.expr e)) (hw : fold scope e = .ok w) : ∀ᶠ n in atTop,
      declare (number (eval lib globals n env)) true (some 0) env d σ =
        some (env.bind d.name (.const w), σ) := by
  filter_upwards [eventually_eval hc e hw] with n hn
  rw [declare, if_pos (by simp [hdims]), hinit]
  exact bind_some.mpr ⟨w, σ, hn, rfl⟩

theorem eventually_declare {s s' : State} {init : ValueId} (hl : Linked s.module)
    (hc : ConstsAgree s.scope env) (hscalar : (isConst && d.dims.isEmpty) = false)
    (hrun : globalInit d s = .ok (init, s')) : ∃ dims ws, Shaped dims ∧
      Holds s'.module dims init ws ∧ ∀ᶠ n in atTop, declare (number (eval lib globals n env))
        isConst (some 0) env d σ =
        some (env.bind d.name (.object { object := σ.objects.length, dims }),
          { σ with objects := σ.objects ++ [ws.map some] }) := by
  by_cases hdims : d.dims = []
  · obtain rfl : isConst = false := by simpa [hdims] using hscalar
    rw [globalInit, if_pos (by simp [hdims])] at hrun
    cases hinit : d.init with
    | none =>
      rw [hinit] at hrun
      obtain ⟨rfl, rfl⟩ := eq_of_build hrun rfl
      exact ⟨[], [0], .nil, holds_zeroInit _ [], eventually_declare_number hc hdims
        (.inl ⟨hinit, rfl⟩)⟩
    | some i =>
      rw [hinit] at hrun
      cases i with
      | list span elems => exact (reject_ok.mp hrun).elim
      | expr e =>
        obtain ⟨w, s₁, hwRun, hrun⟩ := bind_ok.mp hrun
        obtain ⟨hw, rfl⟩ := foldConst_ok.mp hwRun
        obtain ⟨rfl, rfl⟩ := eq_of_build hrun (Build.integer_eq _ w)
        exact ⟨[], [w], .nil, ⟨_, (Module.value?_add ..).trans (if_pos rfl), rfl,
          .inr ⟨w, rfl, rfl⟩⟩,
          eventually_declare_number hc hdims (.inr ⟨e, hinit, hw⟩)⟩
  · obtain ⟨dims, ws, himage⟩ := exists_image_of_globalInit hdims hrun
    obtain ⟨init', s₁, hrun', -, hshaped, hholds⟩ := globalInit_run hl hdims himage
    obtain ⟨rfl, rfl⟩ := Prod.mk.inj (Except.ok.inj (hrun'.symm.trans hrun))
    exact ⟨dims, ws, hshaped, hholds, eventually_declare_array hc hdims himage⟩

end

end Sysy.Meaning
