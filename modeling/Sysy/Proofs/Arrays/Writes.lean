import Sysy.Proofs.Assembly.Refinement
import Sysy.Proofs.Constancy.Runs
import Sysy.Proofs.Meaning.Folding

/-!
The words that a run writes, one after the other. For a run that calls nothing this log tells all
that happens to memory: what was there before, with the words of the log put in their places. The
machine follows such a run.
-/

namespace Sysy.Ir
open Lowering

variable {m : Module} {lib : Library} {fill : Nat → Nat → Word} {a : Activation}
  {callers : List Activation} {st st' : Store}
  {id : ValueId} {rest : List ValueId} {node : Node}

structure Write where
  region : Region
  offset : Int
  value : Val
  deriving DecidableEq, Repr

def Write.put (mem : Region → Option (List Val)) (w : Write) : Region → Option (List Val) :=
  Function.update mem w.region ((mem w.region).map (·.set (w.offset / 4).toNat w.value))

def Activation.write? (m : Module) (a : Activation) : Node → Option Write
  | .store val dest => do
    let value ← a.read m val
    let (region, offset) ← a.addr? m dest
    return { region, offset, value }
  | _ => none

def Config.write? (m : Module) (fill : Nat → Nat → Word) (c : Config) : Option Write :=
  match c.settle m fill with
  | .running a _ _ => do a.write? m (← m.node? (← a.rest.head?))
  | .done _ _ => none

theorem Config.write?_running (hrest : a.rest = id :: rest) (hnode : m.node? id = some node)
    (halloc : node ≠ .alloc) :
    (Config.running a callers st).write? m fill = a.write? m node := by
  have hsettle : (Config.running a callers st).settle m fill = .running a callers st := by
    rw [settle, reserve_eq_self hrest hnode halloc]
  simp only [write?, hsettle]
  rw [hrest]
  simp only [List.head?_cons, Option.bind_eq_bind, Option.bind_some, hnode]

theorem Activation.write?_store {val dest : ValueId} {r : Region} {o : Int} {y : Val}
    (hval : a.read m val = some y) (hdest : a.read m dest = some (.addr r o)) :
    a.write? m (.store val dest) = some ⟨r, o, y⟩ := by
  simp only [write?, hval, addr?_eq_some.mpr hdest, Option.bind_eq_bind, Option.bind_some]
  rfl

theorem Store.mem_eq_put {r : Region} {o : Int} {y : Val} (h : st.store r o y = some st') :
    st'.mem = Write.put st.mem ⟨r, o, y⟩ := by
  obtain ⟨cells, i, hcells, rfl, -, rfl⟩ := Store.store_cases h
  have hi : (4 * (i : Int) / 4).toNat = i := by omega
  simp only [Write.put, hcells, Option.map_some, hi]

end Sysy.Ir

namespace Sysy.Lowering
open Ir

variable {k : Setting} {ok : Node → Prop} {t : Target} {P : Set Nat} {s s' : State} {m : Module}
  {lib : Library}
  {fill : Nat → Nat → Word} {own : ValueId → Prop} {a a' : Activation} {callers : List Activation}
    {st st' : Store}
  {c c' c'' : Config} {log log' : List Write} {id : ValueId}

def Filling (own : ValueId → Prop) : Node → Prop
  | .load src => own src
  | .store _ _ | .getElemPtr _ _ | .binary _ _ _ | .branch _ _ _ | .jump _ => True
  | _ => False

/-- Runs that call nothing, and read no storage but the locals `own`. -/
def filling (m : Module) (lib : Library) (fill : Nat → Nat → Word) (callers : List Activation)
    (own : ValueId → Prop) :
    Setting := { module := m, lib, fill, ok := Filling own, callers }

theorem Filling.mono {own' : ValueId → Prop} {node : Node} (h : Filling own node)
    (hown : ∀ x, own x → own' x) :
    Filling own' node := by
  cases node with
  | load src => exact hown src h
  | store _ _ | getElemPtr _ _ | binary _ _ _ | branch _ _ _ | jump _ => trivial
  | _ => exact h.elim

theorem Contained.filling {own' : ValueId → Prop} {node : Node} (h : Contained own node)
    (hown : ∀ x, own x → own' x) :
    Filling own' node := by
  refine Filling.mono ?_ hown
  cases node with
  | load src => exact h
  | store _ _ | binary _ _ _ | branch _ _ _ | jump _ => trivial
  | _ => exact h.elim

namespace Setting

/-- A run goes from one state to another and writes the words of the log, in this order. -/
inductive Writes (k : Setting) : Config → List Write → Config → Prop
  | refl (c : Config) : Writes k c [] c
  | step {c c' c'' : Config} {log : List Write} (hallows : k.Allows c)
      (hstep : step k.module k.lib k.fill c = some c')
      (h : Writes k c' log c'') : Writes k c ((c.write? k.module k.fill).toList ++ log) c''

theorem Writes.trans (h : k.Writes c log c') (h' : k.Writes c' log' c'') :
    k.Writes c (log ++ log') c'' := by
  induction h with
  | refl => exact h'
  | step hallows hstep _ ih =>
    rw [List.append_assoc]
    exact .step hallows hstep (ih h')

def only (k : Setting) (ok : Node → Prop) : Setting := { k with ok }

theorem Standing.only (h : k.Standing t s a) (ok : Node → Prop) : (k.only ok).Standing t s a :=
  ⟨h.func, h.rest⟩

theorem Allows.mono (h : (k.only ok).Allows c) (hok : ∀ node, ok node → k.ok node) :
    k.Allows c := by
  cases c with
  | running a callers st =>
    obtain ⟨id, rest, node, hrest, hnode, h⟩ := h
    exact ⟨id, rest, node, hrest, hnode, hok node h⟩
  | done => exact h

theorem Writes.mono (h : (k.only ok).Writes c log c') (hok : ∀ node, ok node → k.ok node) :
    k.Writes c log c' := by
  induction h with
  | refl => exact .refl _
  | step hallows hstep _ ih => exact .step (hallows.mono hok) hstep ih

theorem Crosses.mono (h : (k.only ok).Crosses t s a st s' a' st')
    (hok : ∀ node, ok node → k.ok node) :
    k.Crosses t s a st s' a' st' :=
  ⟨Relation.ReflTransGen.mono (fun _ _ hstep => ⟨hstep.1.mono hok, hstep.2⟩) _ _ h.leads,
    ⟨h.standing.func, h.standing.rest⟩, h.kept,
    h.size, h.led⟩

theorem Leads.silent (halloc : ¬ ok .alloc) (hstore : ∀ val dest, ¬ ok (.store val dest))
    (hok : ∀ node, ok node → k.ok node) (h : (k.only ok).Leads c c') : k.Writes c [] c' := by
  induction h using Relation.ReflTransGen.head_induction_on with
  | refl => exact .refl _
  | @head c c₁ hstep _ ih =>
    obtain ⟨hallows, hstep⟩ := hstep
    have hquiet : c.write? k.module k.fill = none := by
      cases c with
      | running a callers st =>
        obtain ⟨id, rest, node, hrest, hnode, h⟩ := hallows
        rw [Config.write?_running (m := k.module) hrest hnode (fun heq => halloc (heq ▸ h))]
        cases node with
        | store val dest => exact (hstore val dest h).elim
        | _ => rfl
      | done => rfl
    have := Writes.step (hallows.mono hok) hstep ih
    rwa [hquiet] at this

theorem writes_store {val dest : ValueId} {r : Region} {o : Int} {y : Val} (h : At t false P s)
    (hs : k.Standing t s a) (hrun : build (Build.store t.func val dest) s = .ok (id, s'))
    (he : Extends s'.module k.module) (hok : k.ok (.store val dest))
    (hval : a.read k.module val = some y) (hdest : a.read k.module dest = some (.addr r o))
    (hst : st.store r o y = some st') :
    ∃ a', k.Crosses t s a st s' a' st' ∧ k.Writes (.running a k.callers st) [⟨r, o, y⟩]
      (.running a' k.callers st') := by
  obtain ⟨rest, hrest, hnode, hcross⟩ := hs.next h hrun rfl he ⟨rfl, rfl, by simp⟩
  have hexec : exec k.module k.lib id { a with rest } k.callers st (.store val dest) =
      some (.running { a with rest } k.callers st') := by
    have hval' : ({ a with rest } : Activation).read k.module val = some y := hval
    have hdest' : ({ a with rest } : Activation).addr? k.module dest = some (r, o) :=
      Activation.addr?_eq_some.mpr hdest
    simp only [exec, hval', hdest', hst, Option.bind_eq_bind, Option.bind_some]
    rfl
  have hstep := (step_eq hrest hnode (by simp) k.callers st).trans hexec
  have hallows : k.Allows (.running a k.callers st) := ⟨id, rest, _, hrest, hnode, hok⟩
  have hwrites := Writes.step hallows hstep (.refl _)
  rw [Config.write?_running hrest hnode (by simp), Activation.write?_store hval hdest] at hwrites
  exact ⟨_, (hcross st st' none (.single ⟨hallows, hstep⟩)).1, hwrites⟩

end Setting

/-! What a log tells. -/

theorem filling_step (hallows : (filling m lib fill callers own).Allows (.running a callers st))
    (hstep : step m lib fill (.running a callers st) = some c) :
    ∃ a' st', c = .running a' callers st' ∧
      a'.func = a.func ∧ (∀ x, m.node? x = some .alloc → a'.env x = a.env x) ∧
      st'.mem = ((Config.running a callers st).write? m fill).toList.foldl Write.put st.mem := by
  obtain ⟨id, rest, node, hrest, hnode, hok⟩ := hallows
  have halloc : node ≠ .alloc := by
    rintro rfl
    exact hok
  have hexec := (Setting.step_eq (k := filling m lib fill callers own) hrest hnode halloc callers
    st).symm.trans hstep
  rw [Config.write?_running (m := m) hrest hnode halloc]
  have hset (v : Val) : ∀ x, m.node? x = some .alloc → (({ a with rest } : Activation).set id v).env
    x = a.env x := by
    intro x hx
    refine Activation.env_set_of_ne _ v ?_
    rintro rfl
    exact halloc (Option.some.inj (hnode.symm.trans hx))
  cases node with
  | load =>
    obtain ⟨r, o, y, -, -, rfl⟩ := exec_load hexec
    exact ⟨_, st, rfl, rfl, hset y, rfl⟩
  | store val dest =>
    obtain ⟨r, o, y, st', hval, hdest, hst, rfl⟩ := exec_store hexec
    rw [Activation.write?_store (m := m) (a := a) hval hdest]
    exact ⟨_, st', rfl, rfl, fun _ _ => rfl, Store.mem_eq_put hst⟩
  | getElemPtr =>
    obtain ⟨r, o, i, -, -, rfl⟩ := exec_stride .element hexec
    exact ⟨_, st, rfl, rfl, hset _, rfl⟩
  | binary =>
    obtain ⟨x, y, z, -, -, -, rfl⟩ := exec_binary hexec
    exact ⟨_, st, rfl, rfl, hset _, rfl⟩
  | jump =>
    obtain ⟨fn, -, rfl⟩ := exec_jump hexec
    exact ⟨_, st, rfl, rfl, fun _ _ => rfl, rfl⟩
  | branch =>
    obtain ⟨w, fn, -, -, rfl⟩ := exec_branch hexec
    exact ⟨_, st, rfl, rfl, fun _ _ => rfl, rfl⟩
  | _ => exact hok.elim

/-- Behind a run that calls nothing, memory is as it was, with the words of the log put in their
places. -/
theorem mem_of_writes (h : (filling m lib fill callers own).Writes c log c')
    (hc : c = .running a callers st) :
    ∃ a' st', c' = .running a' callers st' ∧ st'.mem = log.foldl Write.put st.mem := by
  induction h generalizing a st with
  | refl => exact ⟨a, st, hc, rfl⟩
  | step hallows hstep _ ih =>
    subst hc
    obtain ⟨a₁, st₁, rfl, -, -, hmem₁⟩ := filling_step hallows hstep
    obtain ⟨a', st', rfl, hmem⟩ := ih rfl
    refine ⟨a', st', rfl, ?_⟩
    rw [hmem, hmem₁]
    exact List.foldl_append.symm

theorem writes_of_contained (hown : ∀ x, own x → m.node? x = some .alloc)
    (h : (contained m lib fill callers own).Leads c c') :
    ∀ {a st}, c = .running a callers st → ∃ log, (filling m lib fill callers own).Writes c log c' ∧
      ∀ w ∈ log, ∃ x, own x ∧ a.env x = some (.addr w.region w.offset) := by
  induction h using Relation.ReflTransGen.head_induction_on with
  | refl => exact fun _ => ⟨[], .refl _, by simp⟩
  | head hstep _ ih =>
    rintro a st rfl
    obtain ⟨hallows, hstep⟩ := hstep
    have hfill : (filling m lib fill callers own).Allows (.running a callers st) :=
      Setting.Allows.mono (k := filling m lib fill callers own) hallows fun _ h =>
        h.filling fun _ => id
    obtain ⟨a₁, st₁, rfl, -, henv, -⟩ := filling_step hfill hstep
    obtain ⟨log, hwrites, hlog⟩ := ih rfl
    refine ⟨_, .step hfill hstep hwrites, fun w hw => ?_⟩
    rcases List.mem_append.mp hw with hw | hw
    · obtain ⟨id, rest, node, hrest, hnode, hok⟩ := hallows
      have halloc : node ≠ .alloc := by
        rintro rfl
        exact hok
      have hw' : a.write? m node = some w :=
        (Config.write?_running hrest hnode halloc).symm.trans (Option.mem_toList.mp hw)
      cases node with
      | store val dest =>
        obtain ⟨y, -, hw'⟩ := Option.bind_eq_some_iff.mp hw'
        obtain ⟨⟨r, o⟩, hdest, hw'⟩ := Option.bind_eq_some_iff.mp hw'
        cases hw'
        exact ⟨dest, hok,
          (a.read_alloc (hown dest hok)).symm.trans (Activation.addr?_eq_some.mp hdest)⟩
      | _ => cases hw'
    · obtain ⟨x, hx, hread⟩ := hlog w hw
      exact ⟨x, hx, (henv x (hown x hx)).symm.trans hread⟩

/-! The machine. -/

theorem step_of_filling (hallows : (filling m lib fill callers own).Allows (.running a callers st))
    (fill' : Nat → Nat → Word) :
    step m lib fill' (.running a callers st) = step m lib fill (.running a callers st) := by
  obtain ⟨id, rest, node, hrest, hnode, hok⟩ := hallows
  have halloc : node ≠ .alloc := by
    rintro rfl
    exact hok
  exact (Setting.step_eq (k := filling m lib fill' callers own) hrest hnode halloc callers st).trans
    (Setting.step_eq (k := filling m lib fill callers own) hrest hnode halloc callers st).symm

open Assembly in
/-- The machine does what a run that calls nothing does, and takes no more of the stack. -/
theorem machine_writes {b : Board} {img : Image} (hi : Installed b m img)
    (h : (filling m lib fill callers own).Writes c log c') :
    ∀ {a : Activation} {st : Store} {σ : Assembly.State},
    c = .running a callers st → Roomy b m img c → Match b m img c σ → ∃ σ', GoesOn b img lib σ σ' ∧
    Match b m img c' σ' := by
  induction h with
  | refl => exact fun _ _ hmatch => ⟨_, .refl, hmatch⟩
  | step hallows hstep _ ih =>
    rintro a st σ rfl hroom hmatch
    obtain ⟨a₁, st₁, rfl, hfunc, -, -⟩ := filling_step hallows hstep
    have hroom₁ : Roomy b m img (.running a₁ callers st₁) :=
      le_of_le_of_eq hroom (stackPointer_top hfunc).symm
    obtain ⟨fill', hgoes⟩ := hmatch.step lib hi
    obtain ⟨σ₁, hgo, hmatch₁⟩ := hgoes _ ((step_of_filling hallows fill').trans hstep) hroom₁
    obtain ⟨σ', hgo', hmatch'⟩ := ih rfl hroom₁ hmatch₁
    exact ⟨σ', hgo.to_reflTransGen.trans hgo', hmatch'⟩

end Sysy.Lowering
