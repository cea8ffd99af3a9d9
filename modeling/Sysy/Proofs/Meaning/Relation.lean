import Sysy.Proofs.Lowering.Crossing
import Sysy.Proofs.Lowering.History
import Sysy.Proofs.Meaning.Agreement

/-!
How the evaluation of a program and a run of its code correspond: what the names, the values and the
storage of the one are in the other. `Fits` is what holds of both between any two steps of lowering.
-/

namespace Sysy.Scope
variable {β : Type} {scope scope' : Scope β} {name : String} {b : β}

theorem resolve_enter (scope : Scope β) (kind : ScopeKind) (name : String) :
    (scope.enter kind).resolve name = scope.resolve name := rfl

theorem resolve_define (h : scope.define name b = .ok scope') (x : String) :
    scope'.resolve x = if x = name then .ok b else scope.resolve x := by
  obtain ⟨_ | ⟨⟨kind, names⟩, rest⟩, outermost⟩ := scope
  all_goals
    simp only [define] at h
    split at h
    · cases h
    · obtain rfl := Except.ok.inj h
      by_cases hx : x = name
      · simp [resolve, hx]
      · have hne : (x == name) = false := by simpa using hx
        simp [resolve, hx, hne, List.lookup_cons, List.findSome?_cons]

end Sysy.Scope

namespace Sysy.Meaning
open Ir Lowering

/-- A program in both forms: its complete code, and the names of its globals. -/
structure World where
  module : Module
  lib : Library
  fill : Nat → Nat → Word
  globals : Env
  /-- The functions of the code, each with its definition. -/
  code : FuncId → FuncDef → Prop

def base (m : Module) : Layout where
  place o := m.globals[o]?.map .global
  pins _ := none

structure Tracks (L : Layout) (σ : Memory) (st st' : Store) : Prop where
  agree : Agree L σ st'
  stays : Stays st st'

theorem Tracks.refl {L : Layout} {σ : Memory} {st : Store} (h : Agree L σ st) : Tracks L σ st st :=
  ⟨h, .refl st⟩

theorem Tracks.after {L : Layout} {σ : Memory} {st st' st'' : Store} (h : Tracks L σ st' st'')
    (hs : Stays st st') :
    Tracks L σ st st'' := ⟨h.agree, hs.trans h.stays⟩

theorem Tracks.scratch {L : Layout} {σ : Memory} {st st₁ : Store} {r : Region} {vals : List Val}
    (h : Tracks L σ st st₁) (hr : L.Spare r) (hmem : st.mem r = some vals) {i : Nat}
    (hi : i < vals.length) (v : Val) :
    ∃ vals₁ st', st₁.mem r = some vals₁ ∧ vals₁.length = vals.length ∧
    st₁.store r (4 * i) v = some st' ∧
      st'.mem r = some (vals₁.set i v) ∧ Tracks L σ st st' := by
  obtain ⟨vals₁, hmem₁, hlen⟩ := h.stays.room r vals hmem
  have hmem' : Function.update st₁.mem r (some (vals₁.set i v)) r = some (vals₁.set i v) := by simp
  exact ⟨vals₁, _, hmem₁, hlen, Store.store_eq hmem₁ (by omega) v, hmem', h.agree.scratch hr hmem₁,
    h.stays.trans (Stays.update hmem₁ (by simp))⟩

def IsVar (m : Module) (x : ValueId) : Prop :=
  m.node? x = some .alloc ∨ ∃ init, m.node? x = some (.global init)

theorem IsVar.read_eq {m : Module} {n x : Nat} {a a' : Activation} (h : IsVar m x)
    (hkept : Kept m n a a') :
    a'.read m x = a.read m x := by
  rcases h with h | ⟨init, h⟩
  · exact hkept.read (.inr h)
  · simp [Activation.read, h]

inductive Passed (L : Layout) : Value → Val → Prop
  | number (w : Word) : Passed L (.number w) (.word w)
  | array {l : Location} {r : Region} (h : L.place l.object = some r) : Passed L (.array l)
      (.addr r (4 * l.offset))

theorem Passed.within {L L' : Layout} {v : Value} {x : Val} (h : Passed L v x) (hw : L.Within L') :
    Passed L' v x := by
  cases h with
  | number w => exact .number w
  | array h => exact .array (hw.place h)

namespace World

def setting (W : World) (callers : List Activation) : Setting :=
  { module := W.module, lib := W.lib, fill := W.fill, ok := fun _ => True, callers }

theorem lenient (W : World) (callers : List Activation) : (W.setting callers).Lenient :=
  ⟨fun _ _ _ => trivial, fun _ _ _ => trivial, fun _ => trivial⟩

inductive Refers (W : World) (L : Layout) (a : Activation) : Binding → Referent → Prop
  | const (w : Word) : Refers W L a (.const w) (.const w)
  | object {x : ValueId} {c : Bool} {l : Location} {r : Region} (hx : IsVar W.module x)
      (hread : a.read W.module x = some (.addr r 0)) (hplace : L.place l.object = some r)
        (hoffset : l.offset = 0)
      (hty : W.module.tyOf x = .ptr (.ofDims l.dims)) : Refers W L a (.var x c) (.object l)
  /-- An array that was passed: its place is kept in a slot. -/
  | pointer {x : ValueId} {c : Bool} {l : Location} {r₀ r : Region} {ds : List Nat}
      (hx : IsVar W.module x)
      (hread : a.read W.module x = some (.addr r₀ 0))
        (hpin : L.pins r₀ = some (.addr r (4 * l.offset)))
      (hplace : L.place l.object = some r) (hdims : l.dims = 0 :: ds)
      (hty : W.module.tyOf x = .ptr (.ptr (.ofDims ds))) : Refers W L a (.var x c) (.object l)
  | func {g : FuncId} {d : FuncDef} (h : W.code g d) : Refers W L a (.func g) (.func d)
  | service {g : FuncId} {fn : Func} {k : Service} (hg : W.module.func? g = some fn)
      (hdecl : fn.isDeclared = true)
      (hk : Service.ofName? fn.name = some k) : Refers W L a (.func g) (.service k)

/-- Every name of the scope stands for the same thing in the program. -/
def Names (W : World) (L : Layout) (a : Activation) (scope : Scope Binding) (env : Env) : Prop :=
  ∀ name b, scope.resolve name = .ok b → ∃ r, env name = some r ∧ W.Refers L a b r

def Unused (W : World) (t : Target) (n : Nat) (x : ValueId) : Prop :=
  IsLocal W.module t.func x ∧ (n < x ∨ t.result = some x)

structure Room (W : World) (t : Target) (n : Nat) (a : Activation) (L : Layout)
    (st : Store) : Prop where
  slot : ∀ x, W.Unused t n x → ∃ r vals, a.env x = some (.addr r 0) ∧ L.Spare r ∧
    st.mem r = some vals ∧
    vals.length = ((W.module.tyOf x).elem.size / 4).toNat
  apart : ∀ x y, W.Unused t n x → W.Unused t n y → a.env x = a.env y → x = y
  result : ∀ x, t.result = some x → IsLocal W.module t.func x

def Points (W : World) (L : Layout) (a : Activation) (x : ValueId) (l : Location) : Prop :=
  ∃ r, L.place l.object = some r ∧ a.read W.module x = some (.addr r (4 * l.offset))

def Denotes (W : World) (L : Layout) (a : Activation) (st : Store) : Operand → Value → Prop
  | .void, _ | .int _ _, .nothing => True
  | .int id _, .number w => a.read W.module id = some (.word w)
  | .place id _, .number w =>
    ∃ r o, a.read W.module id = some (.addr r o) ∧ st.load r o = some (.word w)
  | .array id _ _, .array l => W.Points L a id l
  | _, _ => False

structure Fits (W : World) (t : Target) (scope : Scope Binding) (n : Nat) (a : Activation)
    (env : Env) (L : Layout) (σ : Memory) (st : Store) : Prop where
  names : W.Names L a scope env
  room : W.Room t n a L st
  agree : Agree L σ st
  base : (base W.module).Within L

variable {W : World} {L L' : Layout} {a a' : Activation} {t : Target} {n n' x : Nat}
  {st st' : Store} {σ σ' : Memory}
  {scope scope' : Scope Binding} {env : Env} {b : Binding} {r : Referent} {name : String}

theorem Refers.imp (h : W.Refers L a b r) (hw : L.Within L')
    (hread : ∀ x y, IsVar W.module x → a.read W.module x = some y →
      a'.read W.module x = some y) : W.Refers L' a' b r := by
  cases h with
  | const w => exact .const w
  | object hx hx' hplace hoffset hty =>
    exact .object hx (hread _ _ hx hx') (hw.place hplace) hoffset hty
  | pointer hx hx' hpin hplace hdims hty =>
    exact .pointer hx (hread _ _ hx hx') (hw.pins hpin) (hw.place hplace) hdims hty
  | func h => exact .func h
  | service hg hdecl hk => exact .service hg hdecl hk

namespace Names

theorem imp (h : W.Names L a scope env) (hw : L.Within L')
    (hread : ∀ x y, IsVar W.module x → a.read W.module x = some y →
      a'.read W.module x = some y) : W.Names L' a' scope env := by
  intro name b hb
  obtain ⟨r, hr, hrefers⟩ := h name b hb
  exact ⟨r, hr, hrefers.imp hw hread⟩

theorem within (h : W.Names L a scope env) (hw : L.Within L') : W.Names L' a scope env :=
  h.imp hw fun _ _ _ hx => hx

theorem kept (h : W.Names L a scope env) (hkept : Kept W.module n a a') :
    W.Names L a' scope env :=
  h.imp (.refl L) fun _ _ hvar hx => (hvar.read_eq hkept).trans hx

theorem enter (h : W.Names L a scope env) (kind : ScopeKind) :
    W.Names L a (scope.enter kind) env := by
  intro name b hb
  rw [Scope.resolve_enter] at hb
  exact h name b hb

theorem define (h : W.Names L a scope env) (hr : W.Refers L a b r)
    (hdef : scope.define name b = .ok scope') :
    W.Names L a scope' (env.bind name r) := by
  intro x b' hb'
  rw [Scope.resolve_define hdef] at hb'
  split at hb'
  · rename_i hx
    cases hb'
    exact ⟨r, by simp [Env.bind, hx], hr⟩
  · rename_i hx
    obtain ⟨r', hr', hrefers⟩ := h x b' hb'
    exact ⟨r', by simpa [Env.bind, hx] using hr', hrefers⟩

end Names

theorem Unused.mono (h : W.Unused t n' x) (hn : n ≤ n') : W.Unused t n x :=
  ⟨h.1, h.2.imp_left fun hlt => lt_of_le_of_lt hn hlt⟩

namespace Room

theorem mono (h : W.Room t n a L st) (hn : n ≤ n') : W.Room t n' a L st :=
  ⟨fun x hx => h.slot x (hx.mono hn), fun x y hx hy =>
    h.apart x y (hx.mono hn) (hy.mono hn), h.result⟩

theorem kept {k : Nat} (h : W.Room t n a L st) (hkept : Kept W.module k a a') (hs : Stays st st') :
    W.Room t n a' L st' := by
  have henv (x : ValueId) (hx : W.Unused t n x) : a'.env x = a.env x := hkept.env x (.inr hx.1.node)
  refine ⟨fun x hx => ?_, fun x y hx hy heq => h.apart x y hx hy ?_, h.result⟩
  · obtain ⟨r, vals, hr, hspare, hmem, hlen⟩ := h.slot x hx
    obtain ⟨vals', hmem', hlen'⟩ := hs.room r vals hmem
    exact ⟨r, vals', (henv x hx).trans hr, hspare, hmem', hlen'.trans hlen⟩
  · rw [← henv x hx, ← henv y hy, heq]

theorem use {x : ValueId} {r : Region} (h : W.Room t n a L st) (hx : W.Unused t n x)
    (hr : a.env x = some (.addr r 0)) (hn : n ≤ n') (hle : x ≤ n') (hresult : t.result ≠ some x)
    (hspare : ∀ r', r' ≠ r → L.Spare r' → L'.Spare r') : W.Room t n' a L' st := by
  have hne (y : ValueId) (hy : W.Unused t n' y) : y ≠ x := by
    rintro rfl
    rcases hy.2 with hlt | heq
    · exact absurd hlt (not_lt.mpr hle)
    · exact hresult heq
  refine ⟨fun y hy => ?_, fun y z hy hz => h.apart y z (hy.mono hn) (hz.mono hn), h.result⟩
  obtain ⟨r', vals, hr', hs, hrest⟩ := h.slot y (hy.mono hn)
  refine ⟨r', vals, hr', hspare r' ?_ hs, hrest⟩
  rintro rfl
  exact hne y hy (h.apart y x (hy.mono hn) hx (hr'.trans hr.symm))

end Room

namespace Fits

theorem next (h : W.Fits t scope n a env L σ st) (hkept : Kept W.module n a a') (hn : n ≤ n')
    (ht : Tracks L σ' st st') : W.Fits t scope n' a' env L σ' st' :=
  ⟨h.names.kept hkept, (h.room.mono hn).kept hkept ht.stays, ht.agree, h.base⟩

theorem later (h : W.Fits t scope n a env L σ st) (ht : Tracks L σ' st st') :
    W.Fits t scope n a env L σ' st' :=
  h.next (.refl _ _ _) le_rfl ht

end Fits

end World

end Sysy.Meaning
