import Sysy.Proofs.Meaning.Evaluation

/-!
When the store of a run holds what the memory of an evaluation does. Every object in use has a
region of its own, which holds its words as far as they are known; some other regions hold a pointer
that never changes.
-/

namespace Sysy.Meaning
open Ir

structure Mirrors (cells : List Cell) (vals : List Val) : Prop where
  length : vals.length = cells.length
  word : ∀ (i : Nat) (w : Word), cells[i]? = some (some w) → vals[i]? = some (Val.word w)

theorem Mirrors.set {cells : List Cell} {vals : List Val} (h : Mirrors cells vals) (i : Nat)
    (w : Word) :
    Mirrors (cells.set i (some w)) (vals.set i (.word w)) := by
  refine ⟨by simpa using h.length, fun j x hx => ?_⟩
  have hlen := h.length
  rw [List.getElem?_set] at hx ⊢
  split at hx
  · split at hx
    · rename_i hij hi
      rw [if_pos hij, if_pos (by omega)]
      cases hx
      rfl
    · cases hx
  · rename_i hij
    rw [if_neg hij]
    exact h.word j x hx

theorem Mirrors.blank (vals : List Val) : Mirrors (List.replicate vals.length none) vals := by
  refine ⟨by simp, fun i w hw => ?_⟩
  rw [List.getElem?_replicate] at hw
  split at hw <;> cases hw

theorem Mirrors.words (ws : List Word) : Mirrors (ws.map some) (ws.map .word) := by
  refine ⟨by simp, fun i w hw => ?_⟩
  simp only [List.getElem?_map, Option.map_eq_some_iff, Option.some.injEq] at hw ⊢
  obtain ⟨x, hx, rfl⟩ := hw
  exact ⟨x, hx, rfl⟩

structure Layout where
  /-- The region of each object in use. -/
  place : Nat → Option Region
  /-- Regions that hold one pointer all the time. -/
  pins : Region → Option Val

namespace Layout

structure Within (L L' : Layout) : Prop where
  place : ∀ {o r}, L.place o = some r → L'.place o = some r
  pins : ∀ {r v}, L.pins r = some v → L'.pins r = some v

theorem Within.refl (L : Layout) : L.Within L := ⟨id, id⟩

theorem Within.trans {L L' L'' : Layout} (h : L.Within L') (h' : L'.Within L'') : L.Within L'' :=
  ⟨fun hr => h'.place (h.place hr), fun hv => h'.pins (h.pins hv)⟩

structure Spare (L : Layout) (r : Region) : Prop where
  place : ∀ o, L.place o ≠ some r
  pins : L.pins r = none

def put (L : Layout) (o : Nat) (r : Region) : Layout :=
  { L with place := Function.update L.place o (some r) }

def pin (L : Layout) (r : Region) (v : Val) : Layout :=
  { L with pins := Function.update L.pins r (some v) }

theorem within_put {L : Layout} {o : Nat} (h : L.place o = none) (r : Region) :
    L.Within (L.put o r) := by
  refine ⟨fun {o' r'} hr => ?_, fun hv => hv⟩
  have hne : o' ≠ o := by
    rintro rfl
    rw [h] at hr
    cases hr
  simpa [put, hne] using hr

theorem within_pin {L : Layout} {r : Region} (h : L.pins r = none) (v : Val) :
    L.Within (L.pin r v) := by
  refine ⟨fun hr => hr, fun {r' v'} hv => ?_⟩
  have hne : r' ≠ r := by
    rintro rfl
    rw [h] at hv
    cases hv
  simpa [pin, hne] using hv

theorem place_put_self (L : Layout) (o : Nat) (r : Region) : (L.put o r).place o = some r :=
  by simp [put]

theorem pins_pin_self (L : Layout) (r : Region) (v : Val) : (L.pin r v).pins r = some v :=
  by simp [pin]

theorem place_put_cases {L : Layout} {o o' : Nat} {r r' : Region}
    (h : (L.put o r).place o' = some r') :
    o' = o ∧ r' = r ∨ o' ≠ o ∧ L.place o' = some r' := by
  by_cases ho : o' = o
  · subst ho
    simp only [put, Function.update_self, Option.some.injEq] at h
    exact .inl ⟨rfl, h.symm⟩
  · simp only [put, Function.update_of_ne ho] at h
    exact .inr ⟨ho, h⟩

theorem pins_pin_cases {L : Layout} {r r' : Region} {v v' : Val}
    (h : (L.pin r v).pins r' = some v') :
    r' = r ∧ v' = v ∨ r' ≠ r ∧ L.pins r' = some v' := by
  by_cases hr : r' = r
  · subst hr
    simp only [pin, Function.update_self, Option.some.injEq] at h
    exact .inl ⟨rfl, h.symm⟩
  · simp only [pin, Function.update_of_ne hr] at h
    exact .inr ⟨hr, h⟩

theorem Spare.put {L : Layout} {r r' : Region} (h : L.Spare r') (o : Nat) (hne : r' ≠ r) :
    (L.put o r).Spare r' := by
  refine ⟨fun o' ho' => ?_, h.pins⟩
  rcases place_put_cases ho' with ⟨-, heq⟩ | ⟨-, ho'⟩
  · exact hne heq
  · exact h.place o' ho'

theorem Spare.pin {L : Layout} {r r' : Region} (h : L.Spare r') (v : Val) (hne : r' ≠ r) :
    (L.pin r v).Spare r' := by
  refine ⟨h.place, ?_⟩
  rw [Option.eq_none_iff_forall_ne_some]
  intro v' hv'
  rcases pins_pin_cases hv' with ⟨heq, -⟩ | ⟨-, hv'⟩
  · exact hne heq
  · rw [h.pins] at hv'
    cases hv'

end Layout

structure Agree (L : Layout) (σ : Memory) (st : Store) : Prop where
  object : ∀ o r, L.place o = some r →
    ∃ cells vals, σ.objects[o]? = some cells ∧ st.mem r = some vals ∧ Mirrors cells vals
  apart : ∀ o o' r, L.place o = some r → L.place o' = some r → o = o'
  pinned : ∀ r v, L.pins r = some v → st.mem r = some [v]
  unpinned : ∀ o r, L.place o = some r → L.pins r = none
  fresh : ∀ k vals, st.mem (.local k) = some vals → k < st.next
  trace : st.trace = σ.trace

structure Stays (st st' : Store) : Prop where
  next : st.next ≤ st'.next
  room : ∀ r vals, st.mem r = some vals → ∃ vals', st'.mem r = some vals' ∧
    vals'.length = vals.length

theorem Stays.refl (st : Store) : Stays st st := ⟨le_rfl, fun _ vals h => ⟨vals, h, rfl⟩⟩

theorem Stays.trans {st st' st'' : Store} (h : Stays st st') (h' : Stays st' st'') :
    Stays st st'' := by
  refine ⟨h.next.trans h'.next, fun r vals hr => ?_⟩
  obtain ⟨vals', hr', hlen'⟩ := h.room r vals hr
  obtain ⟨vals'', hr'', hlen''⟩ := h'.room r vals' hr'
  exact ⟨vals'', hr'', hlen''.trans hlen'⟩

theorem Store.store_eq {st : Store} {r : Region} {vals : List Val} {i : Nat}
    (h : st.mem r = some vals) (hi : i < vals.length) (v : Val) :
    st.store r (4 * i) v =
      some { st with mem := Function.update st.mem r (some (vals.set i v)) } := by
  have hdiv : (4 * (i : Int) / 4).toNat = i := by omega
  simp only [Store.store, h, Option.bind_eq_bind, Option.bind_some, hdiv]
  rw [if_pos ⟨by omega, Dvd.intro _ rfl, hi⟩]

theorem Store.load_eq {st : Store} {r : Region} {vals : List Val} {i : Nat}
    (h : st.mem r = some vals) :
    st.load r (4 * i) = vals[i]? := by
  have hdiv : (4 * (i : Int) / 4).toNat = i := by omega
  simp only [Store.load, h, Option.bind_eq_bind, Option.bind_some, hdiv]
  rw [if_pos ⟨by omega, Dvd.intro _ rfl⟩]

theorem Stays.update {st : Store} {r : Region} {vals vals' : List Val} (h : st.mem r = some vals)
    (hlen : vals'.length = vals.length) :
    Stays st { st with mem := Function.update st.mem r (some vals') } := by
  refine ⟨le_rfl, fun r' vals₁ hr' => ?_⟩
  by_cases heq : r' = r
  · subst heq
    obtain rfl := Option.some.inj (h.symm.trans hr')
    exact ⟨vals', by simp, hlen⟩
  · exact ⟨vals₁, by simpa [heq] using hr', rfl⟩

namespace Memory
variable {σ σ' : Memory} {o : Nat} {i : Int} {w : Word}

theorem read_cases (h : σ.read o i = some w) :
    ∃ cells, ∃ k : Nat, σ.objects[o]? = some cells ∧ i = k ∧ cells[k]? = some (some w) := by
  obtain ⟨cells, hcells, h⟩ := Option.bind_eq_some_iff.mp h
  split at h
  · exact ⟨cells, i.toNat, hcells, by omega, Option.join_eq_some_iff.mp h⟩
  · cases h

theorem write_cases (h : σ.write o i w = some σ') :
    ∃ cells, ∃ k : Nat, σ.objects[o]? = some cells ∧ i = k ∧
    k < cells.length ∧ σ' = { σ with objects := σ.objects.set o (cells.set k (some w)) } := by
  obtain ⟨cells, hcells, h⟩ := Option.bind_eq_some_iff.mp h
  split at h
  · exact ⟨cells, i.toNat, hcells, by omega, by omega, (Option.some.inj h).symm⟩
  · cases h

end Memory

namespace Agree
variable {L L' : Layout} {σ σ' : Memory} {st st' : Store} {o : Nat} {r : Region}
  {i : Int} {w : Word}

theorem within (h : Agree L' σ st) (hw : L.Within L') : Agree L σ st where
  object o r hr := h.object o r (hw.place hr)
  apart o o' r hr hr' := h.apart o o' r (hw.place hr) (hw.place hr')
  pinned r v hv := h.pinned r v (hw.pins hv)
  unpinned o r hr := by
    rw [Option.eq_none_iff_forall_ne_some]
    intro v hv
    have hnone := h.unpinned o r (hw.place hr)
    rw [hw.pins hv] at hnone
    cases hnone
  fresh := h.fresh
  trace := h.trace

theorem read (h : Agree L σ st) (hr : L.place o = some r) (hread : σ.read o i = some w) :
    st.load r (4 * i) = some (.word w) := by
  obtain ⟨cells, k, hcells, rfl, hw⟩ := Memory.read_cases hread
  obtain ⟨cells', vals, hcells', hvals, hmirrors⟩ := h.object o r hr
  obtain rfl := Option.some.inj (hcells.symm.trans hcells')
  rw [Store.load_eq hvals]
  exact hmirrors.word k w hw

theorem readWords (h : Agree L σ st) (hr : L.place o = some r) {n : Nat} {ws : List Word}
    (hread : σ.readWords o i n = some ws) : st.loadWords r (4 * i) n = some ws := by
  induction n generalizing i ws with
  | zero => exact hread
  | succ n ih =>
    obtain ⟨w, hw, hread⟩ := Option.bind_eq_some_iff.mp hread
    obtain ⟨rest, hrest, hread⟩ := Option.bind_eq_some_iff.mp hread
    cases hread
    have hnext : 4 * i + 4 = 4 * (i + 1) := by ring
    simp only [Store.loadWords, h.read hr hw, hnext, ih hrest, Option.map_some]

/-- Storage is overwritten that is not a pin; the objects are stored as `hobject` says. -/
theorem overwrite (h : Agree L σ st) {vals vals' : List Val} {objects : List (List Cell)}
    (hvals : st.mem r = some vals) (hpins : L.pins r = none)
    (hobject : ∀ o r', L.place o = some r' → ∃ cells vals₁, objects[o]? = some cells ∧
      Function.update st.mem r (some vals') r' = some vals₁ ∧ Mirrors cells vals₁) :
    Agree L { σ with objects } { st with mem := Function.update st.mem r (some vals') } where
  object := hobject
  apart := h.apart
  pinned r' v hv := by
    have hne : r' ≠ r := by
      rintro rfl
      cases hpins.symm.trans hv
    simpa [hne] using h.pinned r' v hv
  unpinned := h.unpinned
  fresh k vals₁ hk := by
    by_cases heq : Region.local k = r
    · subst heq
      exact h.fresh k vals hvals
    · simp only [Function.update_of_ne heq] at hk
      exact h.fresh k vals₁ hk
  trace := h.trace

theorem change (h : Agree L σ st) (hr : L.place o = some r) {cells : List Cell}
    {vals vals' : List Val} (ho : o < σ.objects.length) (hvals : st.mem r = some vals)
    (hmirrors : Mirrors cells vals') :
    Agree L { σ with objects := σ.objects.set o cells }
      { st with mem := Function.update st.mem r (some vals') } := by
  refine h.overwrite hvals (h.unpinned o r hr) fun o' r' hr' => ?_
  by_cases heq : o' = o
  · subst heq
    obtain rfl := Option.some.inj (hr.symm.trans hr')
    exact ⟨cells, vals', by simp [ho], by simp, hmirrors⟩
  · have hne : r' ≠ r := by
      rintro rfl
      exact heq (h.apart _ _ _ hr' hr)
    obtain ⟨cells', vals₁, hcells', hvals₁, hm⟩ := h.object o' r' hr'
    exact ⟨cells', vals₁, by simpa [Ne.symm heq] using hcells', by simpa [hne] using hvals₁, hm⟩

theorem write (h : Agree L σ st) (hr : L.place o = some r) (hwrite : σ.write o i w = some σ') :
    ∃ st', st.store r (4 * i) (.word w) = some st' ∧ Agree L σ' st' ∧ Stays st st' := by
  obtain ⟨cells, k, hcells, rfl, hk, rfl⟩ := Memory.write_cases hwrite
  obtain ⟨cells', vals, hcells', hvals, hmirrors⟩ := h.object o r hr
  obtain rfl := Option.some.inj (hcells.symm.trans hcells')
  have hlen := hmirrors.length
  exact ⟨_, Store.store_eq hvals (by omega) _,
    h.change hr (List.getElem?_eq_some_iff.mp hcells).1 hvals
    (hmirrors.set k w), Stays.update hvals (by simp)⟩

theorem writeWords (h : Agree L σ st) (hr : L.place o = some r) {ws : List Word}
    (hwrite : σ.writeWords o i ws = some σ') :
    ∃ st', st.storeWords r (4 * i) ws = some st' ∧ Agree L σ' st' ∧ Stays st st' := by
  induction ws generalizing i σ st with
  | nil =>
    cases hwrite
    exact ⟨st, rfl, h, .refl st⟩
  | cons w ws ih =>
    obtain ⟨σ₁, hσ₁, hwrite⟩ := Option.bind_eq_some_iff.mp hwrite
    obtain ⟨st₁, hst₁, h₁, hstays₁⟩ := h.write hr hσ₁
    obtain ⟨st', hst', h', hstays'⟩ := ih h₁ hwrite
    have hnext : 4 * i + 4 = 4 * (i + 1) := by ring
    refine ⟨st', ?_, h', hstays₁.trans hstays'⟩
    rw [Store.storeWords, hst₁, hnext]
    exact hst'

theorem record (h : Agree L σ st) (name : String) (args : List Word) :
    Agree L (σ.record name args) (st.record name args) :=
  { h with trace := congrArg (Event.mk name args :: ·) h.trace }

theorem scratch (h : Agree L σ st) (hr : L.Spare r) {vals vals' : List Val}
    (hvals : st.mem r = some vals) :
    Agree L σ { st with mem := Function.update st.mem r (some vals') } := by
  refine h.overwrite hvals hr.pins fun o r' hr' => ?_
  have hne : r' ≠ r := by
    rintro rfl
    exact hr.place o hr'
  obtain ⟨cells, vals₁, hcells, hvals₁, hm⟩ := h.object o r' hr'
  exact ⟨cells, vals₁, hcells, by simpa [hne] using hvals₁, hm⟩

theorem place_next (h : Agree L σ st) : L.place σ.objects.length = none := by
  rw [Option.eq_none_iff_forall_ne_some]
  intro r hr
  obtain ⟨cells, vals, hcells, -⟩ := h.object _ r hr
  have := (List.getElem?_eq_some_iff.mp hcells).1
  omega

theorem put (h : Agree L σ st) (hr : L.Spare r) {cells : List Cell} {vals : List Val}
    (hvals : st.mem r = some vals) (hmirrors : Mirrors cells vals) :
    Agree (L.put σ.objects.length r) { σ with objects := σ.objects ++ [cells] } st where
  object o' r' hr' := by
    rcases Layout.place_put_cases hr' with ⟨rfl, rfl⟩ | ⟨-, hr'⟩
    · exact ⟨cells, vals, by simp, hvals, hmirrors⟩
    · obtain ⟨cells', vals', hcells', hrest⟩ := h.object o' r' hr'
      have := (List.getElem?_eq_some_iff.mp hcells').1
      exact ⟨cells', vals', by simpa [List.getElem?_append_left this] using hcells', hrest⟩
  apart o₁ o₂ r' h₁ h₂ := by
    rcases Layout.place_put_cases h₁ with ⟨rfl, rfl⟩ | ⟨-, h₁⟩ <;>
      rcases Layout.place_put_cases h₂ with ⟨rfl, heq⟩ | ⟨-, h₂⟩
    · rfl
    · exact absurd h₂ (hr.place o₂)
    · exact absurd (heq ▸ h₁) (hr.place o₁)
    · exact h.apart o₁ o₂ r' h₁ h₂
  pinned := h.pinned
  unpinned o' r' hr' := by
    rcases Layout.place_put_cases hr' with ⟨-, rfl⟩ | ⟨-, hr'⟩
    · exact hr.pins
    · exact h.unpinned o' r' hr'
  fresh := h.fresh
  trace := h.trace

/-- A region that holds a pointer is kept for it. -/
theorem pin (h : Agree L σ st) (hr : L.Spare r) {v : Val} (hvals : st.mem r = some [v]) :
    Agree (L.pin r v) σ st where
  object := h.object
  apart := h.apart
  pinned r' v' hv' := by
    rcases Layout.pins_pin_cases hv' with ⟨rfl, rfl⟩ | ⟨-, hv'⟩
    · exact hvals
    · exact h.pinned r' v' hv'
  unpinned o' r' hr' := by
    rw [Option.eq_none_iff_forall_ne_some]
    intro v' hv'
    rcases Layout.pins_pin_cases hv' with ⟨rfl, rfl⟩ | ⟨-, hv'⟩
    · exact hr.place o' hr'
    · rw [h.unpinned o' r' hr'] at hv'
      cases hv'
  fresh := h.fresh
  trace := h.trace

theorem spare_next (h : Agree L σ st) : L.Spare (.local st.next) := by
  refine ⟨fun o ho => ?_, ?_⟩
  · obtain ⟨cells, vals, -, hvals, -⟩ := h.object o _ ho
    exact absurd (h.fresh _ _ hvals) (lt_irrefl _)
  · rw [Option.eq_none_iff_forall_ne_some]
    intro v hv
    exact absurd (h.fresh _ _ (h.pinned _ v hv)) (lt_irrefl _)

theorem stays_reserve (h : Agree L σ st) (vals : List Val) : Stays st (st.reserve vals) := by
  refine ⟨Nat.le_succ _, fun r vals' hr => ?_⟩
  have hne : r ≠ .local st.next := by
    rintro rfl
    exact absurd (h.fresh _ _ hr) (lt_irrefl _)
  exact ⟨vals', by simpa [Store.reserve, hne] using hr, rfl⟩

theorem reserve (h : Agree L σ st) (vals : List Val) : Agree L σ (st.reserve vals) where
  object o r hr := by
    obtain ⟨cells, vals', hcells, hvals', hm⟩ := h.object o r hr
    have hne : r ≠ .local st.next := by
      rintro rfl
      exact h.spare_next.place o hr
    exact ⟨cells, vals', hcells, by simpa [Store.reserve, hne] using hvals', hm⟩
  apart := h.apart
  pinned r v hv := by
    have hne : r ≠ .local st.next := by
      rintro rfl
      rw [h.spare_next.pins] at hv
      cases hv
    simpa [Store.reserve, hne] using h.pinned r v hv
  unpinned := h.unpinned
  fresh k vals' hk := by
    by_cases heq : k = st.next
    · subst heq
      exact Nat.lt_succ_self _
    · have hne : Region.local k ≠ .local st.next := fun hloc => heq (by injection hloc)
      simp only [Store.reserve, Function.update_of_ne hne] at hk
      exact Nat.lt_succ_of_lt (h.fresh k vals' hk)
  trace := h.trace

theorem free (h : Agree L σ st) {st' : Store} {σ' : Memory} (h' : Agree L σ' st')
    (hs : Stays st st') {locals : List Nat} (hlocals : ∀ k ∈ locals, st.next ≤ k) :
    Agree L σ' (st'.free locals) ∧ Stays st (st'.free locals) := by
  have hkeep (r : Region) (vals vals' : List Val) (hr : st.mem r = some vals)
    (hr' : st'.mem r = some vals') :
      (st'.free locals).mem r = some vals' := by
    cases r with
    | global => exact hr'
    | «local» k =>
      have hk : k ∉ locals :=
        fun hmem => absurd (h.fresh k vals hr) (by have := hlocals k hmem; omega)
      simpa [Store.free, hk] using hr'
  refine ⟨⟨fun o r hr => ?_, h'.apart, fun r v hv => ?_, h'.unpinned,
    fun k vals hk => ?_, h'.trace⟩,
    hs.next, fun r vals hr => ?_⟩
  · obtain ⟨-, vals, -, hvals, -⟩ := h.object o r hr
    obtain ⟨cells, vals', hcells, hvals', hm⟩ := h'.object o r hr
    exact ⟨cells, vals', hcells, hkeep r vals vals' hvals hvals', hm⟩
  · exact hkeep r _ _ (h.pinned r v hv) (h'.pinned r v hv)
  · exact h'.fresh k vals (Store.mem_free hk)
  · obtain ⟨vals', hr', hlen⟩ := hs.room r vals hr
    exact ⟨vals', hkeep r vals vals' hr hr', hlen⟩

end Agree

end Sysy.Meaning
