import Sysy.Proofs.Ir.Execution

/-!
What new storage holds. A step depends on the words of the locals that it reserves and of no others,
and their number is known before. So what new storage should hold can be chosen step by step as a
run goes on, and one choice for all storage gives the same run.
-/

namespace Sysy.Ir
open Lowering

variable {m : Module} {lib : Library} {fill fill' : Nat → Nat → Word}

def pending (m : Module) : List ValueId → Nat
  | [] => 0
  | id :: ids => if m.node? id = some .alloc then pending m ids + 1 else 0

theorem next_reserve (ids : List ValueId) (a : Activation) (s : Store) :
    (reserve m fill ids a s).2.next = s.next + pending m ids := by
  induction ids generalizing a s with
  | nil => rfl
  | cons id ids ih =>
    rw [reserve, pending]
    split
    · rw [ih, Nat.add_comm (pending m ids), ← Nat.add_assoc]
      rfl
    · rfl

theorem trace_reserve (ids : List ValueId) (a : Activation) (s : Store) :
    (reserve m fill ids a s).2.trace = s.trace := by
  induction ids generalizing a s with
  | nil => rfl
  | cons id ids ih =>
    rw [reserve]
    split
    · exact ih _ _
    · rfl

theorem reserve_congr (ids : List ValueId) (a : Activation) (s : Store)
    (h : ∀ k, s.next ≤ k → k < s.next + pending m ids → fill k = fill' k) :
    reserve m fill ids a s = reserve m fill' ids a s := by
  induction ids generalizing a s with
  | nil => rfl
  | cons id ids ih =>
    rw [reserve, reserve]
    rw [pending] at h
    split
    · rename_i halloc
      rw [if_pos halloc] at h
      have hnext (cells : List Val) : (s.reserve cells).next = s.next + 1 := rfl
      rw [h s.next (by omega) (by omega)]
      refine ih _ _ fun k hlow hhigh => h k ?_ ?_ <;> rw [hnext] at * <;> omega
    · rfl

theorem Store.next_of_store {s s' : Store} {r : Region} {o : Int} {y : Val}
    (h : s.store r o y = some s') :
    s'.next = s.next := by
  obtain ⟨cells, i, -, -, -, rfl⟩ := store_cases h
  rfl

theorem Store.next_of_storeWords {r : Region} {ws : List Word} {o : Int} {s s' : Store}
    (h : s.storeWords r o ws = some s') : s'.next = s.next := by
  induction ws generalizing o s with
  | nil =>
    cases h
    rfl
  | cons w ws ih =>
    obtain ⟨s₁, hs₁, h⟩ := Option.bind_eq_some_iff.mp h
    exact (ih h).trans (next_of_store hs₁)

theorem next_of_serve {s s' : Store} {k : Service} {vs : List Val} {result : Option Val}
    (h : lib.serve s k vs = some (result, s')) : s'.next = s.next := by
  cases served_of_serve h with
  | array _ hstore => exact (Store.next_of_storeWords hstore :)
  | _ => rfl

def Config.store : Config → Store
  | .running _ _ s | .done _ s => s

theorem next_of_exec {id : ValueId} {a : Activation} {callers : List Activation} {s : Store}
    {node : Node} {cfg : Config} (h : exec m lib id a callers s node = some cfg) :
    cfg.store.next = s.next := by
  cases node with
  | load =>
    obtain ⟨r, o, y, -, -, rfl⟩ := exec_load h
    rfl
  | store =>
    obtain ⟨r, o, y, s', -, -, hs, rfl⟩ := exec_store h
    exact Store.next_of_store hs
  | getPtr =>
    obtain ⟨r, o, i, -, -, rfl⟩ := exec_stride .whole h
    rfl
  | getElemPtr =>
    obtain ⟨r, o, i, -, -, rfl⟩ := exec_stride .element h
    rfl
  | binary =>
    obtain ⟨x, y, z, -, -, -, rfl⟩ := exec_binary h
    rfl
  | jump =>
    obtain ⟨fn, -, rfl⟩ := exec_jump h
    rfl
  | branch =>
    obtain ⟨w, fn, -, -, rfl⟩ := exec_branch h
    rfl
  | call =>
    obtain ⟨vs, fn, -, -, ⟨-, k, result, s', -, hserve, rfl⟩ | ⟨-, rfl⟩⟩ := exec_call h
    · exact next_of_serve hserve
    · rfl
  | ret =>
    obtain ⟨result, -, ⟨-, rfl⟩ | ⟨c, outer, -, rfl⟩⟩ := exec_ret h <;> rfl
  | _ => cases h

def Config.reserved (m : Module) : Config → Nat
  | .running a _ s => s.next + pending m a.rest
  | .done _ s => s.next

theorem next_of_step {cfg cfg' : Config} (h : step m lib fill cfg = some cfg') :
    cfg'.store.next = cfg.reserved m := by
  cases cfg with
  | done => cases h
  | running a callers s =>
    rw [step] at h
    dsimp only at h
    split at h
    · cases h
    · obtain ⟨node, -, h⟩ := Option.bind_eq_some_iff.mp h
      rw [next_of_exec h, next_reserve]
      rfl

theorem step_congr {cfg : Config}
    (h : ∀ k, cfg.store.next ≤ k → k < cfg.reserved m → fill k = fill' k) :
    step m lib fill cfg = step m lib fill' cfg := by
  cases cfg with
  | done => rfl
  | running a callers s => rw [step, step, reserve_congr a.rest a s h]

section
variable {c₀ : Config} (choice : Config → Nat → Nat → Word)

def choiceRuns (m : Module) (lib : Library) (choice : Config → Nat → Nat → Word) :
    Nat → Config → Option Config
  | 0, c => some c
  | n + 1, c => do
    let c ← choiceRuns m lib choice n c
    step m lib (choice c) c

theorem choiceRuns_next {n k : Nat} {c c' : Config} (h : choiceRuns m lib choice n c₀ = some c)
    (h' : choiceRuns m lib choice (n + 1 + k) c₀ = some c') : c.reserved m ≤ c'.store.next := by
  induction k generalizing c' with
  | zero =>
    obtain ⟨c₁, hc₁, h'⟩ := Option.bind_eq_some_iff.mp h'
    obtain rfl := Option.some.inj (h.symm.trans hc₁)
    rw [next_of_step h']
  | succ k ih =>
    obtain ⟨c₁, hc₁, h'⟩ := Option.bind_eq_some_iff.mp h'
    have hle : c₁.store.next ≤ c₁.reserved m := by
      cases c₁ with
      | done => exact le_rfl
      | running => exact Nat.le_add_right ..
    rw [next_of_step h']
    exact (ih hc₁).trans hle

open Classical in
noncomputable def chosen (m : Module) (lib : Library) (c₀ : Config) (choice : Config → Nat → Nat →
    Word) (k : Nat) : Nat → Word :=
  if h : ∃ c, (∃ n, choiceRuns m lib choice n c₀ = some c) ∧ c.store.next ≤ k ∧
    k < c.reserved m then
    choice h.choose k
  else fun _ => 0

/-- Of two states that reserve the same local, neither comes after the other. -/
theorem choiceRuns_unique {n n' k : Nat} {c c' : Config} (h : choiceRuns m lib choice n c₀ = some c)
    (h' : choiceRuns m lib choice n' c₀ = some c') (hlow : c.store.next ≤ k)
    (hhigh : k < c.reserved m) (hlow' : c'.store.next ≤ k) (hhigh' : k < c'.reserved m) :
    c = c' := by
  rcases Nat.lt_trichotomy n n' with hlt | rfl | hlt
  · obtain ⟨j, rfl⟩ : ∃ j, n' = n + 1 + j := ⟨n' - (n + 1), by omega⟩
    have := choiceRuns_next choice h h'
    omega
  · exact Option.some.inj (h.symm.trans h')
  · obtain ⟨j, rfl⟩ : ∃ j, n = n' + 1 + j := ⟨n - (n' + 1), by omega⟩
    have := choiceRuns_next choice h' h
    omega

theorem chosen_eq {n k : Nat} {c : Config} (h : choiceRuns m lib choice n c₀ = some c)
    (hlow : c.store.next ≤ k) (hhigh : k < c.reserved m) :
    chosen m lib c₀ choice k = choice c k := by
  have hex : ∃ c, (∃ n, choiceRuns m lib choice n c₀ = some c) ∧ c.store.next ≤ k ∧
    k < c.reserved m :=
    ⟨c, ⟨n, h⟩, hlow, hhigh⟩
  obtain ⟨⟨n', h'⟩, hlow', hhigh'⟩ := hex.choose_spec
  rw [chosen, dif_pos hex, ← choiceRuns_unique choice h h' hlow hhigh hlow' hhigh']

theorem runs_chosen (n : Nat) :
    runs m lib (chosen m lib c₀ choice) n c₀ = choiceRuns m lib choice n c₀ := by
  induction n with
  | zero => rfl
  | succ n ih =>
    rw [runs, choiceRuns, ih]
    cases h : choiceRuns m lib choice n c₀ with
    | none => rfl
    | some c => exact step_congr fun k hlow hhigh => chosen_eq choice h hlow hhigh

end

/-- What holds at the start of a run and can be kept by every step with the right words in new
storage holds all along a run with the right words in new storage. -/
theorem exists_fill (lib : Library) {c₀ : Config} {P R : Config → Prop} (hstart : P c₀)
    (hstep : ∀ c, P c → ∃ fill, ∀ c', step m lib fill c = some c' → R c' → P c') : ∃ fill, ∀ n,
      (∀ k ≤ n, ∀ c, runs m lib fill k c₀ = some c → R c) → ∀ c, runs m lib fill n c₀ =
        some c → P c := by
  classical
  choose! choice hchoice using hstep
  refine ⟨chosen m lib c₀ choice, fun n => ?_⟩
  simp only [runs_chosen]
  induction n with
  | zero =>
    rintro - c ⟨⟩
    exact hstart
  | succ n ih =>
    intro hroom c hc
    obtain ⟨c₁, hc₁, hc'⟩ := Option.bind_eq_some_iff.mp hc
    exact hchoice c₁ (ih (fun k hk => hroom k (by omega)) c₁ hc₁) c hc' (hroom (n + 1) le_rfl c hc)

end Sysy.Ir
