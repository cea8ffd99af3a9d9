import Sysy.Proofs.Lowering.Crossing
import Sysy.Proofs.Lowering.History
import Sysy.Proofs.Meaning.Agreement

/-!
The value of a constant expression and the code for it. Where an expression can be folded, running
the code that is made for it gives the same number, whatever is in memory: the code calls nothing,
and it reads and writes only the slots that its own logical operators keep their results in.
-/

namespace Sysy.Lowering
open Ir Meaning

variable {t : Target} {s s' : State} {P : Set Nat} {m : Module} {a : Activation}
  {st : Store} {id : Nat}

def Contained (own : ValueId → Prop) : Node → Prop
  | .load src => own src
  | .store _ dest => own dest
  | .binary _ _ _ | .branch _ _ _ | .jump _ => True
  | _ => False

def contained (m : Module) (lib : Library) (fill : Nat → Nat → Word) (callers : List Activation)
    (own : ValueId → Prop) :
    Setting := { module := m, lib, fill, ok := Contained own, callers }

theorem contained_lenient (m : Module) (lib : Library) (fill : Nat → Nat → Word)
    (callers : List Activation) (own : ValueId → Prop) :
    (contained m lib fill callers own).Lenient :=
  ⟨fun _ _ _ => trivial, fun _ _ _ => trivial, fun _ => trivial⟩

/-- The locals of a function that were made between two states. -/
def slotsBetween (m : Module) (f : FuncId) (s s' : State) (x : ValueId) : Prop :=
  s.module.values.size < x ∧ x ≤ s'.module.values.size ∧ IsLocal m f x

def Reserved (own : ValueId → Prop) (a : Activation) (st : Store) : Prop :=
  ∀ x, own x → ∃ r cells, a.env x = some (.addr r 0) ∧ st.mem r = some cells ∧ cells ≠ []

theorem scratch_stays {r : Region} {cells : List Val} (h : st.mem r = some cells)
    (hne : cells ≠ []) :
    Setting.Scratch (Meaning.Stays st) r := by
  intro st₁ w hstays
  obtain ⟨cells₁, hcells₁, hlen⟩ := hstays.room r cells h
  have hpos : 0 < cells₁.length := hlen ▸ List.length_pos_iff.mpr hne
  have hstore := Store.store_eq hcells₁ hpos (.word w)
  refine ⟨_, hstore, ?_, hstays.trans (Meaning.Stays.update hcells₁ (by simp))⟩
  have hmem : Function.update st₁.mem r (some (cells₁.set 0 (.word w))) r =
    some (cells₁.set 0 (.word w)) := by simp
  exact (Store.load_eq hmem).trans (List.getElem?_set_self hpos)

/-- The code of an expression that can be folded computes its value. -/
theorem computes_fold {k : Setting} {scope : Scope Binding} {lo hi : Nat} {a₀ : Activation}
    (hk : k.Lenient)
    (hslot : ∀ y, lo < y → y ≤ hi → IsLocal k.module t.func y → k.ok (.load y) ∧
      (∀ v, k.ok (.store v y)) ∧ ∃ r cells, a₀.env y = some (.addr r 0) ∧ st.mem r = some cells ∧
        cells ≠ []) :
    ∀ (e : Expr) {v : Word} {st₁ : Store}, fold scope e = .ok v → Meaning.Stays st st₁ →
      k.Computes t scope lo hi a₀ e st₁ fun w st' => w = v ∧ Meaning.Stays st st'
  | .lit span w, v, st₁, hfold, hst => by
    cases hfold
    exact (Setting.computes_lit span w st₁).mono fun w' st' ⟨hw, hst'⟩ => ⟨hw, hst' ▸ hst⟩
  | .lval span name indices, v, st₁, hfold, hst => by
    obtain ⟨hname, rfl⟩ := fold_name.mp hfold
    exact (Setting.computes_const hname span st₁).mono fun w' st' ⟨hw, hst'⟩ => ⟨hw, hst' ▸ hst⟩
  | .unary span op e, v, st₁, hfold, hst => by
    obtain ⟨x, hx, rfl⟩ := fold_unary.mp hfold
    refine Setting.computes_unary hk ((computes_fold hk hslot e hx hst).mono ?_)
    rintro w st' ⟨rfl, hst'⟩
    exact ⟨rfl, hst'⟩
  | .binary span op l r, v, st₁, hfold, hst => by
    obtain ⟨x, hx, hcases⟩ := fold_binary.mp hfold
    have hl := computes_fold hk hslot l hx hst
    cases hop : op.isLogical with
    | true =>
      refine Setting.computes_logical hk hop hl ?_ ?_ ?_
      · intro w hw
        rcases hcases with hshort | ⟨hnone, -⟩
        · exact ⟨Option.some.inj (hw.symm.trans hshort), fun _ h => h⟩
        · rw [hnone] at hw
          cases hw
      · intro hnone st₂ hst₂
        rcases hcases with hshort | ⟨-, y, hy, hv⟩
        · rw [hnone] at hshort
          cases hshort
        · refine (computes_fold hk hslot r hy hst₂).mono ?_
          rintro w st' ⟨rfl, hst'⟩
          exact ⟨hv, hst'⟩
      · intro y hlo hhi hy _
        obtain ⟨hload, hstore, region, cells, henv, hmem, hne⟩ := hslot y hlo hhi hy
        -- what is in the slot of the result does not matter, as it is written before it is read
        have hslotY : k.Slot (Meaning.Stays st) a₀ y region :=
          ⟨(a₀.read_alloc hy.node).trans henv, scratch_stays hmem hne, hstore⟩
        exact ⟨hload, region, hslotY, hslotY⟩
    | false =>
      refine Setting.computes_arith hk hop hl ?_
      rintro _ st₂ ⟨rfl, hst₂⟩
      rcases hcases with hshort | ⟨-, y, hy, hv⟩
      · rw [shortcut?_of_not_logical hop] at hshort
        cases hshort
      · refine (computes_fold hk hslot r hy hst₂).mono ?_
        rintro w st' ⟨rfl, hst'⟩
        exact ⟨v, hv, rfl, hst'⟩
  | .call _ _ _, v, st₁, hfold, hst => by cases hfold

/-- Folding an expression and running the code for it agree. -/
theorem fold_agrees {e : Expr} {v : Word} {s s' : State} {id : ValueId} (h : At t false P s)
    (hfold : fold s.scope e = .ok v) (hrun : lowerScalar t e s = .ok (id, s'))
    (he : Extends s'.module m) (lib : Library) (fill : Nat → Nat → Word) (callers : List Activation)
    {a : Activation} {st : Store}
    (hstand : (contained m lib fill callers (slotsBetween m t.func s s')).Standing t s a)
    (hslots : Reserved (slotsBetween m t.func s s') a st) :
    ∃ a' st', (contained m lib fill callers (slotsBetween m t.func s s')).Leads
        (.running a callers st) (.running a' callers st') ∧
      (contained m lib fill callers (slotsBetween m t.func s s')).Standing t s' a' ∧
      a'.read m id = some (.word v) := by
  have hcode : (contained m lib fill callers (slotsBetween m t.func s s')).Computes t s.scope
    s.module.values.size
      s'.module.values.size a e st fun w st' => w = v ∧ Meaning.Stays st st' := by
    refine computes_fold (contained_lenient ..) (fun y hlo hhi hy => ?_) e hfold (.refl st)
    exact ⟨⟨hlo, hhi, hy⟩, fun _ => ⟨hlo, hhi, hy⟩, hslots y ⟨hlo, hhi, hy⟩⟩
  obtain ⟨a', st', w, hcross, hread, rfl, -⟩ :=
    hcode h rfl hrun le_rfl le_rfl he hstand (.refl _ _ _)
  exact ⟨a', st', hcross.leads, hcross.standing, hread⟩

/-- `(0 && main() / 0) || (1 || 1 / 0)` -/
def skipSample : Expr :=
  .binary {} .or (.binary {} .and (.lit {} 0) (.binary {} .div (.call {} "main" []) (.lit {} 0)))
    (.binary {} .or (.lit {} 1) (.binary {} .div (.lit {} 1) (.lit {} 0)))

def skipProgram : Program where
  span := {}
  items := [.func {} {
    name := "main", nameSpan := {}, isVoid := false, params := [], bodySpan := {}
    body := [.ret {} (some skipSample)] }]

theorem exists_at_skipSample :
    ∃ t s id s', At t false {2} s ∧ lowerScalar t skipSample s = .ok (id, s') := by
  obtain ⟨m, hm⟩ : ∃ m, skipProgram.lower = .ok m := exists_of_isOk (by decide +kernel)
  have hmain : hasCode skipProgram 9 := by decide +kernel
  obtain ⟨fn, span, d, t, s₀, s, s₂, s₃, hmem, hlow⟩ := lowered_of_hasCode hm hmain
  obtain ⟨-, rfl⟩ := Item.func.inj (List.mem_singleton.mp hmem)
  obtain ⟨_, _, hret, _⟩ := bind_ok.mp hlow.body
  rw [lowerStmt.eq_def] at hret
  cases hresult : t.result with
  | none =>
    simp only [hresult] at hret
    obtain ⟨_, _, hreject, _⟩ := bind_ok.mp hret
    exact (reject_ok.mp hreject).elim
  | some slot =>
    simp only [hresult] at hret
    obtain ⟨id, s', hrun, -⟩ := bind_ok.mp hret
    exact ⟨t, s, id, s', hlow.begins.here, hrun⟩

/-- In any memory, with storage for its slots. -/
theorem fold_agrees_skipSample :
    ∃ t s id s' a st, At t false {2} s ∧ fold s.scope skipSample = .ok 1 ∧
      lowerScalar t skipSample s = .ok (id, s') ∧
      Reserved (slotsBetween s'.module t.func s s') a st ∧
      ∃ a' st', (contained s'.module ⟨fun _ => none, fun _ => none, fun _ => none⟩ (fun _ _ => 0) []
          (slotsBetween s'.module t.func s s')).Leads (.running a [] st) (.running a' [] st') ∧
        a'.read s'.module id = some (.word 1) := by
  obtain ⟨t, s, id, s', h, hrun⟩ := exists_at_skipSample
  obtain ⟨fn, hf, -, -⟩ := h.func
  have he := ((yields_lowerScalar h skipSample).ok hrun).1.extends
  obtain ⟨fn', hf', hb⟩ := he.func hf
  obtain ⟨rest, hrest⟩ := hb.code fn.current
  let a : Activation := { func := t.func, block := fn.current, rest, args := [],
                          env := fun x => some (.addr (.local x) 0), locals := [] }
  let st : Store := { mem := fun _ => some [.word 0] }
  have hslots : Reserved (slotsBetween s'.module t.func s s') a st :=
    fun x _ => ⟨.local x, [.word 0], rfl, rfl, by simp⟩
  have hfold : fold s.scope skipSample = .ok 1 := rfl
  obtain ⟨a', st', hleads, -, hread⟩ :=
    fold_agrees h hfold hrun (.refl _) ⟨fun _ => none, fun _ => none, fun _ => none⟩
    (fun _ _ => 0) [] (a := a) ⟨rfl, fn, fn', hf, hf', rfl, hrest.symm⟩ hslots
  exact ⟨t, s, id, s', a, st, h, hfold, hrun, hslots, a', st', hleads, hread⟩

end Sysy.Lowering
