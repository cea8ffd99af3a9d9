import Sysy.Proofs.Arrays.Writes
import Sysy.Proofs.Assembly.Loading

/-!
The image of an array: its words in the order of memory, where all of them are known before the
program runs. The data of a global array has these words, and the code of a local array writes them
one after the other, each to its own place.
-/

namespace Sysy.Lowering
open Ir Assembly

variable {t : Target} {P : Set Nat} {s s' : State} {m : Module} {scope : Scope Binding} {d : VarDef}
  {dims : List Nat}
  {ws : List Word} {isConst : Bool} {r : Region} {id : ValueId}

def cellWord (scope : Scope Binding) : Option Expr → Except LoweringError Word
  | none => .ok 0
  | some e => fold scope e

/-- The dimensions of an array and its words, if they are known before the program runs. -/
def image (scope : Scope Binding) (d : VarDef) : Except LoweringError (List Nat × List Word) := do
  let dims ← foldDims scope 1 d.dims
  match d.init with
  | none => return (dims, List.replicate (product dims) 0)
  | some i =>
    let cells ← flatten dims i
    return (dims, ← cells.toList.mapM (cellWord scope))

theorem image_none (hinit : d.init = none) (h : image scope d = .ok (dims, ws)) :
    foldDims scope 1 d.dims = .ok dims ∧ ws = List.replicate (product dims) 0 := by
  obtain ⟨ds, hds, h⟩ := bind_eq_ok.mp h
  rw [hinit] at h
  cases h
  exact ⟨hds, rfl⟩

theorem image_some {i : Init} (hinit : d.init = some i) (h : image scope d = .ok (dims, ws)) :
    foldDims scope 1 d.dims = .ok dims ∧
      ∃ cells, flatten dims i = .ok cells ∧ cells.toList.mapM (cellWord scope) = .ok ws := by
  obtain ⟨ds, hds, h⟩ := bind_eq_ok.mp h
  rw [hinit] at h
  obtain ⟨cells, hcells, h⟩ := bind_eq_ok.mp h
  obtain ⟨ws', hws, h⟩ := bind_eq_ok.mp h
  cases h
  exact ⟨hds, cells, hcells, hws⟩

/-! Globals. -/

theorem foldCells_run (cs : List (Option Expr)) :
    ∀ {ws : List Word}, cs.mapM (cellWord s.scope) = .ok ws →
    cs.mapM foldCell s = .ok (ws, s) := by
  induction cs with
  | nil =>
    intro ws h
    cases h
    rfl
  | cons c cs ih =>
    intro ws h
    rw [List.mapM_cons] at h ⊢
    obtain ⟨w, hw, h⟩ := bind_eq_ok.mp h
    obtain ⟨ws, hws, h⟩ := bind_eq_ok.mp h
    cases h
    have hc : foldCell c s = .ok (w, s) := by
      cases c with
      | none =>
        cases hw
        rfl
      | some e => exact foldConst_ok.mpr ⟨hw, rfl⟩
    rw [run_bind hc, run_bind (ih hws)]
    rfl

theorem globalInit_run (hl : Linked s.module) (hne : d.dims ≠ [])
    (h : image s.scope d = .ok (dims, ws)) :
    ∃ id s', globalInit d s = .ok (id, s') ∧ s'.scope = s.scope ∧ Shaped dims ∧
    Holds s'.module dims id ws := by
  rw [globalInit, if_neg (by simpa using hne)]
  cases hinit : d.init with
  | none =>
    obtain ⟨hds, rfl⟩ := image_none hinit h
    rw [run_bind (dimsOf_ok.mpr ⟨hds, rfl⟩)]
    exact ⟨_, _, rfl, rfl, shaped_of_foldDims hds, holds_zeroInit _ dims⟩
  | some i =>
    obtain ⟨hds, cells, hcells, hws⟩ := image_some hinit h
    have hshaped := shaped_of_foldDims hds
    have hrun := foldCells_run _ hws
    have hlen : ws.length = product dims :=
      ((gives_foldCells cells.toList).ok hrun).2.trans
        (Array.length_toList.trans (size_flatten hcells))
    obtain ⟨id, m', hagg, -, -, -, hholds⟩ := aggregate_run dims hshaped.1 ws s.module hlen hl
    rw [run_bind (dimsOf_ok.mpr ⟨hds, rfl⟩)]
    dsimp only
    rw [run_bind (check_ok.mpr ⟨hcells, rfl⟩), run_bind hrun]
    exact ⟨id, { s with module := m' }, build_ok.mpr ⟨hagg, rfl⟩, rfl, hshaped, hholds⟩

theorem emitGlobal_of_holds {v : Value} {init : ValueId} (hl : Linked m) (hv : m.value? id = some v)
    (hnode : v.node = .global init) (hdims : Shaped dims) (h : Holds m dims init ws) :
    ∃ ds, emitGlobal m id = .ok (dataLines (symbol v.name) ds) ∧ ds.flatMap Datum.words = ws := by
  obtain ⟨w, hw, -⟩ := h.isUnit
  obtain ⟨data, hdata, hwords⟩ :=
    initData_spec hl dims hdims h (Nat.lt_succ_of_le (Module.bounds_of_value? hw).2)
  refine ⟨joinZeros 0 data, ?_, by rw [words_joinZeros, hwords]; rfl⟩
  simp only [emitGlobal, hv, hnode, hdata]
  rfl

theorem emits_image (h : Ready s) (hne : d.dims ≠ []) (himage : image s.scope d = .ok (dims, ws))
    (hrun : lowerGlobal isConst d s = .ok ((), s')) (he : Extends s'.module m) (hl : Linked m) :
    ∃ id ds, s.scope.define d.name (.var id isConst) = .ok s'.scope ∧
      emitGlobal m id = .ok (dataLines (symbol ("@" ++ d.name)) ds) ∧
      ds.flatMap Datum.words = ws := by
  obtain ⟨init, s₁, hinit, -, hm, hdef⟩ := exists_withGlobal h (by simp [hne]) hrun
  obtain ⟨init', s₁', hinit', -, hshaped, hholds⟩ := globalInit_run h.sound.linked hne himage
  obtain ⟨rfl, rfl⟩ := Prod.mk.inj (Except.ok.inj (hinit'.symm.trans hinit))
  have hv := value?_withGlobal s₁'.module
    { node := .global init', ty := .ptr (s₁'.module.tyOf init'), name := "@" ++ d.name }
  have he₁ := extends_withGlobal s₁'.module
    { node := .global init', ty := .ptr (s₁'.module.tyOf init'), name := "@" ++ d.name }
  rw [← hm] at hv he₁
  obtain ⟨ds, hemit, hwords⟩ :=
    emitGlobal_of_holds hl (he.value hv) rfl hshaped (hholds.extends (he₁.trans he))
  exact ⟨_, ds, hdef, hemit, hwords⟩

/-! Locals. -/

/-- The words of an array from the cell number `n` on, as they are written one after the other. -/
def imageWrites (r : Region) (n : Nat) (ws : List Word) : List Write :=
  ws.mapIdx fun i w => { region := r, offset := 4 * (n + i : Nat), value := .word w }

theorem imageWrites_cons (r : Region) (n : Nat) (w : Word) (ws : List Word) :
    imageWrites r n (w :: ws) = ⟨r, 4 * n, .word w⟩ :: imageWrites r (n + 1) ws := by
  have hshift : (fun i x => ({ region := r, offset := 4 * (n + (i + 1) : Nat),
                               value := .word x } : Write)) =
      fun i x => { region := r, offset := 4 * (n + 1 + i : Nat), value := .word x } := by
    funext i x
    rw [Nat.add_right_comm]
    rfl
  rw [imageWrites, imageWrites, List.mapIdx_cons, hshift, Nat.add_zero]

/-- Where all words of an array have been written, nothing is left of what was there. -/
theorem mem_of_imageWrites (ws : List Word) :
    ∀ {n : Nat} {mem : Region → Option (List Val)} {vals : List Val},
    mem r = some vals → n + ws.length = vals.length →
    (imageWrites r n ws).foldl Write.put mem r = some (vals.take n ++ ws.map .word) := by
  induction ws with
  | nil =>
    intro n mem vals hmem hlen
    simpa [imageWrites] using hmem.trans (congrArg some (List.take_of_length_le hlen.ge).symm)
  | cons w ws ih =>
    intro n mem vals hmem hlen
    rw [List.length_cons] at hlen
    have hput : Write.put mem ⟨r, 4 * n, .word w⟩ r = some (vals.set n (.word w)) := by
      simp [Write.put, hmem]
    rw [imageWrites_cons, List.foldl_cons, ih hput (by rw [List.length_set]; omega)]
    have htake : (vals.set n (.word w)).take (n + 1) = vals.take n ++ [.word w] := by
      rw [List.take_add_one, List.take_set_of_le le_rfl, List.getElem?_set_self (by omega)]
      rfl
    rw [htake, List.append_assoc]
    rfl

section
variable {k : Setting} {slot : ValueId}

theorem writes_cell {s₁ s₂ : State} {a : Activation} {n : Nat} {w : Word} {st : Store}
    {vals : List Val} {addr u : ValueId} (hget : ∀ src index, k.ok (.getElemPtr src index))
    (hput : ∀ val dest, k.ok (.store val dest)) (hdims : Shaped dims) (hn : n < product dims)
    (hat : At t false P s) (hslot : s.module.Readable t.func slot (.ptr (.ofDims dims)))
    (hid : s.module.Readable t.func id .i32)
    (haddrRun : elementAddr t slot (indicesOf dims n) s = .ok (addr, s₁))
    (hstoreRun : build (Build.store t.func id addr) s₁ = .ok (u, s₂))
    (he : Extends s₂.module k.module) (hs : k.Standing t s a)
    (hslotv : a.read k.module slot = some (.addr r 0)) (hidv : a.read k.module id = some (.word w))
    (hmem : st.mem r = some vals) (hvals : vals.length = product dims) :
    ∃ a' st', k.Crosses t s a st s₂ a' st' ∧ k.Writes (.running a k.callers st)
      [⟨r, 4 * n, .word w⟩] (.running a' k.callers st') ∧
      st'.mem r = some (vals.set n (.word w)) := by
  obtain ⟨hm₁, h₁, haddr⟩ :=
    (yields_elementAddr _ dims (length_indicesOf dims n) hdims hat hslot).ok haddrRun
  obtain ⟨hm₂, -, -⟩ := (yields_store h₁ (hm₁.readable hid) haddr).ok hstoreRun
  -- the address takes instructions that compute places only
  let ok (node : Node) : Prop := ∃ src index, node = .getElemPtr src index
  have hok : ∀ node, ok node → k.ok node := by
    rintro node ⟨src, index, rfl⟩
    exact hget src index
  obtain ⟨a₁, hquiet, haddrv⟩ := Setting.crosses_elementAddr (k :=
    k.only ok) (fun src index => ⟨src, index, rfl⟩) st dims 0 hdims
    hn hat hslot haddrRun (hm₂.extends.trans he) (hs.only ok) hslotv
  have hcross₁ := hquiet.mono hok
  have hsilent : k.Writes (.running a k.callers st) [] (.running a₁ k.callers st) :=
    Setting.Leads.silent (by simp [ok]) (by simp [ok]) hok hquiet.leads
  rw [zero_add] at haddrv
  obtain ⟨a₂, hcross₂, hwrites⟩ := Setting.writes_store h₁ hcross₁.standing hstoreRun he (hput _ _)
    ((hcross₁.read_eq hid).trans hidv) haddrv (Meaning.Store.store_eq hmem (hvals ▸ hn) (.word w))
  exact ⟨a₂, _, hcross₁.trans hcross₂, hsilent.trans hwrites, Function.update_self ..⟩

theorem writes_storeCells (hget : ∀ src index, k.ok (.getElemPtr src index))
    (hput : ∀ val dest, k.ok (.store val dest)) (hdims : Shaped dims) (ids : List ValueId) :
    ∀ {P : Set Nat} {s s' : State} {a : Activation} {n : Nat} {ws : List Word} {st : Store}
      {vals : List Val}, At t false P s →
    s.module.Readable t.func slot (.ptr (.ofDims dims)) →
    (∀ id ∈ ids, s.module.Readable t.func id .i32) →
    storeCells t slot dims n ids s = .ok ((), s') → Extends s'.module k.module → k.Standing t s a →
    a.read k.module slot = some (.addr r 0) →
    List.Forall₂ (fun id w => a.read k.module id = some (.word w)) ids ws →
    n + ws.length = product dims → st.mem r = some vals → vals.length = product dims →
    ∃ a' st', k.Crosses t s a st s' a' st' ∧ k.Writes (.running a k.callers st) (imageWrites r n ws)
      (.running a' k.callers st') := by
  induction ids with
  | nil =>
    intro P s s' a n ws st vals hat hslot hids hrun he hs hslotv hreads hlen hmem hvals
    obtain ⟨-, rfl⟩ := pure_ok.mp hrun
    cases hreads
    exact ⟨a, st, .refl hs st, .refl _⟩
  | cons id ids ih =>
    intro P s s' a n ws st vals hat hslot hids hrun he hs hslotv hreads hlen hmem hvals
    obtain ⟨w, ws, hw, hrest, rfl⟩ := List.forall₂_cons_left_iff.mp hreads
    rw [List.length_cons] at hlen
    rw [storeCells] at hrun
    obtain ⟨addr, s₁, haddrRun, hrun⟩ := bind_ok.mp hrun
    obtain ⟨u, s₂, hstoreRun, hrun⟩ := bind_ok.mp hrun
    have hid := hids id (List.mem_cons_self ..)
    have hidsRest : ∀ id ∈ ids, s.module.Readable t.func id .i32 :=
      fun id hid => hids id (List.mem_cons_of_mem _ hid)
    obtain ⟨hm₁, h₁, haddr⟩ :=
      (yields_elementAddr _ dims (length_indicesOf dims n) hdims hat hslot).ok haddrRun
    obtain ⟨hm₂, h₂, -⟩ := (yields_store h₁ (hm₁.readable hid) haddr).ok hstoreRun
    have hm := hm₁.trans hm₂
    have hids₂ : ∀ id ∈ ids, s₂.module.Readable t.func id .i32 :=
      fun id hid => hm.readable (hidsRest id hid)
    obtain ⟨hm₃, -, -⟩ := (yields_storeCells hdims ids (n + 1) h₂ (hm.readable hslot) hids₂).ok hrun
    obtain ⟨a₂, st₂, hcross, hwrite, hmem₂⟩ :=
      writes_cell hget hput hdims (by omega) hat hslot hid haddrRun hstoreRun
      (hm₃.extends.trans he) hs hslotv hw hmem hvals
    have hreads₂ : List.Forall₂ (fun id w => a₂.read k.module id = some (.word w)) ids ws :=
      ((List.forall₂_and_left _ _).mpr ⟨hidsRest, hrest⟩).imp fun id w h =>
        (hcross.read_eq h.1).trans h.2
    obtain ⟨a₃, st₃, hcross₃, hwrites⟩ := ih h₂ (hm.readable hslot) hids₂ hrun he hcross.standing
      ((hcross.read_eq hslot).trans hslotv) hreads₂ (by omega) hmem₂ (List.length_set.trans hvals)
    rw [imageWrites_cons]
    exact ⟨a₃, st₃, hcross.trans hcross₃, hwrite.trans hwrites⟩

end

theorem crosses_foldCell {k : Setting} {lo hi : Nat} {a₀ a : Activation} {st st₁ : Store} {w : Word}
    {id : ValueId} (hk : k.Lenient)
    (hslot : ∀ y, lo < y → y ≤ hi → IsLocal k.module t.func y → k.ok (.load y) ∧
      (∀ v, k.ok (.store v y)) ∧ ∃ r cells, a₀.env y = some (.addr r 0) ∧
        st.mem r = some cells ∧ cells ≠ [])
    (c : Option Expr) (hat : At t false P s) (hrun : lowerCell t isConst c s = .ok (id, s'))
    (hlo : lo ≤ s.module.values.size) (hhi : s'.module.values.size ≤ hi)
    (he : Extends s'.module k.module) (hs : k.Standing t s a) (hkept : Kept k.module lo a₀ a)
    (hw : cellWord s.scope c = .ok w) (hst : Meaning.Stays st st₁) :
    ∃ a' st', k.Crosses t s a st₁ s' a' st' ∧ a'.read k.module id = some (.word w) ∧
    Meaning.Stays st st' := by
  cases c with
  | none =>
    cases hw
    obtain ⟨hcross, hread⟩ := Setting.crosses_integer hs hrun he st₁
    exact ⟨a, st₁, hcross, hread, hst⟩
  | some e =>
    rw [lowerCell] at hrun
    split at hrun
    · obtain ⟨x, s₂, hfold, hrun⟩ := bind_ok.mp hrun
      obtain ⟨hx, rfl⟩ := foldConst_ok.mp hfold
      obtain rfl := Except.ok.inj (hx.symm.trans hw)
      obtain ⟨hcross, hread⟩ := Setting.crosses_integer hs hrun he st₁
      exact ⟨a, st₁, hcross, hread, hst⟩
    · obtain ⟨a', st', _, hcross, hread, rfl, hst'⟩ :=
        computes_fold hk hslot e hw hst hat rfl hrun hlo hhi he hs hkept
      exact ⟨a', st', hcross, hread, hst'⟩

theorem crosses_foldCells {k : Setting} {lo hi : Nat} {a₀ : Activation} {st : Store}
    (hk : k.Lenient)
    (hslot : ∀ y, lo < y → y ≤ hi → IsLocal k.module t.func y → k.ok (.load y) ∧
      (∀ v, k.ok (.store v y)) ∧ ∃ r cells, a₀.env y = some (.addr r 0) ∧
        st.mem r = some cells ∧ cells ≠ [])
    (cs : List (Option Expr)) :
    ∀ {P : Set Nat} {s s' : State} {ids : List ValueId} {a : Activation} {ws : List Word}
      {st₁ : Store},
    At t false P s → s.scope = scope → cs.mapM (lowerCell t isConst) s = .ok (ids, s') →
    lo ≤ s.module.values.size →
    s'.module.values.size ≤ hi → Extends s'.module k.module → k.Standing t s a →
    Kept k.module lo a₀ a → cs.mapM (cellWord scope) = .ok ws → Meaning.Stays st st₁ →
    ∃ a' st', k.Crosses t s a st₁ s' a' st' ∧
    List.Forall₂ (fun id w => a'.read k.module id = some (.word w)) ids ws ∧
      Meaning.Stays st st' := by
  induction cs with
  | nil =>
    intro P s s' ids a ws st₁ hat hscope hrun hlo hhi he hs hkept hws hst
    obtain ⟨rfl, rfl⟩ := pure_ok.mp hrun
    cases hws
    exact ⟨a, st₁, .refl hs st₁, .nil, hst⟩
  | cons c cs ih =>
    intro P s s' ids a ws st₁ hat hscope hrun hlo hhi he hs hkept hws hst
    rw [List.mapM_cons] at hrun hws
    obtain ⟨id, s₁, hidRun, hrun⟩ := bind_ok.mp hrun
    obtain ⟨ids, s₂, hidsRun, hrun⟩ := bind_ok.mp hrun
    obtain ⟨rfl, rfl⟩ := pure_ok.mp hrun
    obtain ⟨w, hw, hws⟩ := bind_eq_ok.mp hws
    obtain ⟨ws, hrest, hws⟩ := bind_eq_ok.mp hws
    cases hws
    obtain ⟨hm₁, h₁, hid⟩ := (yields_lowerCell hat isConst c).ok hidRun
    obtain ⟨hm₂, -, -⟩ := (yields_mapM (fun c _ h => yields_lowerCell h isConst c) cs h₁).ok hidsRun
    have he₁ := hm₂.extends.trans he
    have hhi₁ := hm₂.extends.size_values.trans hhi
    obtain ⟨a₁, st₂, hcross₁, hread, hst₂⟩ :=
      crosses_foldCell hk hslot c hat hidRun hlo hhi₁ he₁ hs hkept (hscope ▸ hw) hst
    obtain ⟨a₂, st₃, hcross₂, hreads, hst₃⟩ :=
      ih h₁ (hm₁.scope.trans hscope) hidsRun (hlo.trans hcross₁.size) hhi he
      hcross₁.standing (hkept.trans hcross₁.kept hlo) hrest hst₂
    exact ⟨a₂, st₃, hcross₁.trans hcross₂, .cons ((hcross₂.read_eq hid).trans hread) hreads, hst₃⟩

/-- Each of the locals `own` has storage of its own, as large as it needs to be. What is in it does
not matter. -/
structure Allotted (m : Module) (own : ValueId → Prop) (a : Activation) (st : Store) : Prop where
  reserved : Reserved own a st
  size : ∀ x r cells, own x → a.env x = some (.addr r 0) → st.mem r = some cells →
    (4 * cells.length : Int) = (m.tyOf x).elem.size
  apart : ∀ x y r o o', own x → own y → a.env x = some (.addr r o) →
    a.env y = some (.addr r o') → x = y

theorem Allotted.array {own : ValueId → Prop} {a : Activation} {st : Store} {v : Value}
    {x : ValueId} (h : Allotted m own a st) (hx : own x) (hv : m.value? x = some v)
    (hty : v.ty = .ptr (Ty.ofDims dims)) (hdims : Shaped dims) :
    ∃ r cells, a.env x = some (.addr r 0) ∧ st.mem r = some cells ∧
    cells.length = product dims := by
  obtain ⟨r, cells, henv, hmem, -⟩ := h.reserved x hx
  have hsize := h.size x r cells hx henv hmem
  rw [Module.tyOf_eq hv, hty, Ty.elem, size_ofDims hdims] at hsize
  exact ⟨r, cells, henv, hmem, by omega⟩

section
variable {lib : Library} {fill : Nat → Nat → Word} {callers : List Activation} {a : Activation}
  {st : Store}

theorem mem_of_match {b : Board} {img : Image} {st : Store} {slot : ValueId}
    (hnode : m.node? slot = some .alloc) (henv : a.env slot = some (.addr r 0))
    (hmem : st.mem r = some (ws.map .word)) {σ : Assembly.State}
    (h : Match b m img (.running a callers st) σ) {fr : Frame} {sl : Slot}
    (hfr : frameOf m a.func = some fr) (hsl : fr.slot? slot = some sl) {i : Nat} {w : Word}
    (hw : ws[i]? = some w) :
    σ.core.mem (stackPointer b m (a :: callers) + sl.offset + 4 * i) = w := by
  cases h with
  | running h =>
    obtain ⟨n, -, hr, -, hplace⟩ := (h.staged.active _ _ _ frameAt?_self).alloc slot _ hnode henv
    obtain ⟨rfl, -⟩ := Val.addr.inj hr
    have hcell : (ws.map Val.word)[i]? = some (.word w) := by rw [List.getElem?_map, hw]; rfl
    exact h.held.agree _ _ _ (.cell hmem (hplace fr sl hfr hsl)
      (List.getElem?_eq_some_iff.mp hcell).1) (.cell hmem hcell)

/-- A local array is written as its image. Before that, working out the words writes to other locals
at most. -/
theorem writes_image (h : At t false P s) (hne : d.dims ≠ []) (hinit : d.init ≠ none)
    (himage : image s.scope d = .ok (dims, ws)) (hrun : lowerLocal t isConst d s = .ok ((), s'))
    (he : Extends s'.module m)
    (hs : (filling m lib fill callers (slotsBetween m t.func s s')).Standing t s a)
    (hroom : Allotted m (slotsBetween m t.func s s') a st) :
    ∃ slot r log a' st', s.scope.define d.name (.var slot isConst) = .ok s'.scope ∧
    slotsBetween m t.func s s' slot ∧
      a.env slot = some (.addr r 0) ∧
      (filling m lib fill callers (slotsBetween m t.func s s')).Writes (.running a callers st)
        (log ++ imageWrites r 0 ws) (.running a' callers st') ∧
      (∀ w ∈ log, w.region ≠ r ∧ ∃ x, slotsBetween m t.func s s' x ∧
        a.env x = some (.addr w.region w.offset)) ∧
      (filling m lib fill callers (slotsBetween m t.func s s')).Standing t s' a' ∧
      a'.env slot = some (.addr r 0) ∧
      st'.mem r = some (ws.map .word) := by
  obtain ⟨i, hi⟩ := Option.ne_none_iff_exists'.mp hinit
  obtain ⟨hfold, cells, hcells, hws⟩ := image_some hi himage
  rw [lowerLocal, if_neg (by simpa using hne)] at hrun
  obtain ⟨dims, values, slot, s₁, s₂, s₃, hsteps⟩ := exists_arraySteps h hrun
  obtain rfl := Except.ok.inj (hsteps.fold.symm.trans hfold)
  obtain ⟨cells', hflat, hvalues⟩ : ∃ cells, flatten dims i = .ok cells ∧
      cells.toList.mapM (lowerCell t isConst) s = .ok (values, s₁) := by
    rcases hsteps.cells with ⟨hnone, -⟩ | ⟨i', cells', hi', hflat, hvalues⟩
    · exact absurd hnone hinit
    · cases hi'.symm.trans hi
      exact ⟨cells', hflat, hvalues⟩
  obtain rfl := Except.ok.inj (hflat.symm.trans hcells)
  obtain ⟨scope', hdef, rfl⟩ := define_ok.mp hsteps.define
  have hdims := shaped_of_foldDims hfold
  have hm₂ := hsteps.moves_slot
  have hm₃ := hsteps.moves_stores
  have he₂ := hm₃.extends.trans (show Extends s₃.module m from he)
  have he₁ := hm₂.extends.trans he₂
  have hscope : s₃.scope = s.scope := (hsteps.moves_cells.trans (hm₂.trans hm₃)).scope
  have hsize := (hm₂.trans hm₃).extends.size_values
  -- the words are worked out in the locals that are there before the array
  have hearly : ∀ x, slotsBetween m t.func s s₁ x →
    slotsBetween m t.func s { s₃ with scope := scope' } x :=
    fun x hx => ⟨hx.1, hx.2.1.trans hsize, hx.2.2⟩
  obtain ⟨a₁, st₁, hcross₁, hreads, hst₁⟩ :=
    crosses_foldCells (contained_lenient m lib fill callers (slotsBetween m t.func s s₁))
    (fun y hlo hhi hy => ⟨⟨hlo, hhi, hy⟩, fun _ => ⟨hlo, hhi, hy⟩,
      hroom.reserved y (hearly y ⟨hlo, hhi, hy⟩)⟩) cells'.toList h rfl
    hvalues le_rfl le_rfl he₁ ⟨hs.func, hs.rest⟩ (.refl _ _ _) hws (.refl st)
  obtain ⟨log, hlog, hplaces⟩ := writes_of_contained (fun x hx => hx.2.2.node) hcross₁.leads rfl
  have hwrites₁ := Setting.Writes.mono (k := filling m lib fill callers _) hlog fun _ hok =>
    Filling.mono hok hearly
  have hcross₁ := Setting.Crosses.mono (k := filling m lib fill callers _) hcross₁ fun _ hok =>
    hok.filling hearly
  obtain ⟨hcross₂, rfl, hsize₂, v, hv, hnode, hfunc, hty⟩ :=
    Setting.crosses_alloc hsteps.at_cells hcross₁.standing hsteps.alloc he₂ st₁
  have hlt : s.module.values.size < s₁.module.values.size + 1 := Nat.lt_succ_of_le hcross₁.size
  have hlocal : IsLocal m t.func (s₁.module.values.size + 1) := ⟨v, hv, hnode, hfunc⟩
  have hslotOwn : slotsBetween m t.func s { s₃ with scope := scope' } (s₁.module.values.size + 1) :=
    ⟨hlt, hsize₂ ▸ hm₃.extends.size_values, hlocal⟩
  -- the storage of the array, and what is left of it when the words are known
  obtain ⟨r, vals, henv, hmem, hvals⟩ := hroom.array hslotOwn hv hty hdims
  obtain ⟨vals₁, hmem₁, hlen₁⟩ := hst₁.room r vals hmem
  have hcross := hcross₁.trans hcross₂
  have hslotv : a₁.read m (s₁.module.values.size + 1) = some (.addr r 0) :=
    (a₁.read_alloc hlocal.node).trans ((hcross.kept.env _ (.inr hlocal.node)).trans henv)
  have hlen : ws.length = product dims := by
    rw [← List.Forall₂.length_eq (forall₂_of_mapM hws), Array.length_toList, size_flatten hcells]
  obtain ⟨a₃, st₃, hcross₃, hwrites₃⟩ :=
    writes_storeCells (k := filling m lib fill callers _) (fun _ _ => trivial)
    (fun _ _ => trivial) hdims values hsteps.at_slot hsteps.reads_slot hsteps.reads_values
      hsteps.stores he hcross.standing hslotv hreads
      ((Nat.zero_add _).trans hlen) hmem₁
    (hlen₁.trans hvals)
  obtain ⟨_, _, hdone, hmem₃⟩ := mem_of_writes hwrites₃ rfl
  cases hdone
  refine ⟨_, r, log, a₃, st₃, hscope ▸ hdef, hslotOwn, henv, hwrites₁.trans hwrites₃,
    fun w hw => ?_,
    ⟨hcross₃.standing.func, hcross₃.standing.rest⟩,
      ((hcross.trans hcross₃).kept.env _ (.inr hlocal.node)).trans henv, ?_⟩
  · obtain ⟨x, hx, hplace⟩ := hplaces w hw
    refine ⟨?_, x, hearly x hx, hplace⟩
    rintro rfl
    have := hroom.apart x _ _ _ _ (hearly x hx) hslotOwn hplace henv
    have := hx.2.1
    lia
  · rw [hmem₃, mem_of_imageWrites ws hmem₁ (by rw [hlen₁, hvals, hlen, Nat.zero_add])]
    rfl

end

theorem length_image (h : image scope d = .ok (dims, ws)) : ws.length = product dims := by
  cases hinit : d.init with
  | none => rw [(image_none hinit h).2, List.length_replicate]
  | some i =>
    obtain ⟨-, cells, hcells, hws⟩ := image_some hinit h
    rw [← (forall₂_of_mapM hws).length_eq, Array.length_toList, size_flatten hcells]

/-- An array has the same image wherever it is declared: as the data of a global, and as what the
code of the declaration writes to a local, each word once. -/
theorem images_agree {d : VarDef} {dims : List Nat} {ws : List Word} (hne : d.dims ≠ []) :
    (∀ scope, image scope d = .ok (dims, ws) →
      ws.length = product dims ∧ (d.init = none → ws = List.replicate (product dims) 0)) ∧
    (∀ isConst s s' m, Ready s → image s.scope d = .ok (dims, ws) →
      lowerGlobal isConst d s = .ok ((), s') → Extends s'.module m → Linked m →
      ∃ id ds, s.scope.define d.name (.var id isConst) = .ok s'.scope ∧
        emitGlobal m id = .ok (dataLines (symbol ("@" ++ d.name)) ds) ∧
        ds.flatMap Datum.words = ws) ∧
    ∀ isConst t P s s' m lib fill callers a st, At t false P s → image s.scope d = .ok (dims, ws) →
      d.init ≠ none → lowerLocal t isConst d s = .ok ((), s') → Extends s'.module m →
      (filling m lib fill callers (slotsBetween m t.func s s')).Standing t s a →
      Allotted m (slotsBetween m t.func s s') a st →
      ∃ slot r log a' st', s.scope.define d.name (.var slot isConst) = .ok s'.scope ∧
        slotsBetween m t.func s s' slot ∧ a.env slot = some (.addr r 0) ∧
        (filling m lib fill callers (slotsBetween m t.func s s')).Writes (.running a callers st)
          (log ++ imageWrites r 0 ws) (.running a' callers st') ∧
        (∀ w ∈ log, w.region ≠ r ∧ ∃ x, slotsBetween m t.func s s' x ∧
          a.env x = some (.addr w.region w.offset)) ∧
        (filling m lib fill callers (slotsBetween m t.func s s')).Standing t s' a' ∧
        st'.mem r = some (ws.map .word) ∧
        ∀ b img σ, Installed b m img → Roomy b m img (.running a callers st) →
          Match b m img (.running a callers st) σ →
          ∃ σ', GoesOn b img lib σ σ' ∧ Match b m img (.running a' callers st') σ' ∧
            ∀ fr sl (i : Nat) w, frameOf m t.func = some fr → fr.slot? slot = some sl →
              ws[i]? = some w →
              σ'.core.mem (stackPointer b m (a' :: callers) + sl.offset + 4 * i) = w := by
  refine ⟨fun scope h => ⟨length_image h, fun hinit => (image_none hinit h).2⟩, ?_, ?_⟩
  · intro isConst s s' m h himage hrun he hl
    exact emits_image h hne himage hrun he hl
  · intro isConst t P s s' m lib fill callers a st h himage hinit hrun he hs hroom
    obtain ⟨slot, r, log, a', st', hdef, hslot, henv, hwrites, hlog, hs', henv', hmem⟩ :=
      writes_image h hne hinit himage hrun he hs hroom
    refine ⟨slot, r, log, a', st', hdef, hslot, henv, hwrites, hlog, hs', hmem,
      fun b img σ hi hroomy hmatch => ?_⟩
    obtain ⟨σ', hgo, hmatch'⟩ := machine_writes hi hwrites rfl hroomy hmatch
    exact ⟨σ', hgo, hmatch', fun fr sl i w hfr hsl hw =>
      mem_of_match hslot.2.2.node henv' hmem hmatch' (hs'.func ▸ hfr) hsl hw⟩

/-- `a[2][2] = {{1}, 2 && 3}` -/
def squareDef : VarDef where
  name := "a"
  nameSpan := {}
  dims := [.lit {} 2, .lit {} 2]
  init := some (.list {} [.list {} [.expr (.lit {} 1)],
    .expr (.binary {} .and (.lit {} 2) (.lit {} 3))])

/-- The same array as a constant outside functions and as a variable inside one. -/
def squareSample : Program where
  span := {}
  items := [
    .decl {} { isConst := true, defs := [squareDef] },
    .func {} {
      name := "main", nameSpan := {}, isVoid := true, params := [], bodySpan := {}
      body := [.decl {} { isConst := false, defs := [squareDef] }] }]

theorem image_squareDef (scope : Scope Binding) : image scope squareDef = .ok ([2, 2],
    [1, 0, 1, 0]) := rfl

theorem exists_at_squareSample {m : Module} (hm : squareSample.lower = .ok m) :
    ∃ t s s', At t false {2} s ∧
    lowerLocal t false squareDef s = .ok ((), s') ∧ Extends s'.module m := by
  have hmain : hasCode squareSample 9 := by decide +kernel
  obtain ⟨fn, span, d, t, s₀, s, s₂, s₃, hmem, hlow⟩ := lowered_of_hasCode hm hmain
  obtain ⟨-, rfl⟩ : span = {} ∧ d = _ := by simpa [squareSample] using hmem
  obtain ⟨fn₂, -, -, -, -, he⟩ := hlow.completes
  obtain ⟨_, s₄, hdecl, hpure⟩ := bind_ok.mp hlow.body
  obtain ⟨-, rfl⟩ := pure_ok.mp hpure
  rw [lowerStmt, List.forM] at hdecl
  obtain ⟨⟨⟩, s', hrun, hpure⟩ := bind_ok.mp hdecl
  obtain ⟨-, rfl⟩ := pure_ok.mp hpure
  exact ⟨t, s, _, hlow.begins.here, hrun, he.trans hlow.grown⟩

theorem elem_squareSample {m : Module} (hm : squareSample.lower = .ok m) {f : FuncId} {x : ValueId}
    (hx : IsLocal m f x) :
    (m.tyOf x).elem.size = 4 ∨ (m.tyOf x).elem.size = 16 := by
  have hall : (squareSample.lower.toOption.any fun m =>
      m.values.toList.all fun v => v.node ≠ .alloc || v.ty.elem.size = 4 || v.ty.elem.size = 16) =
        true := by decide +kernel
  rw [hm] at hall
  obtain ⟨v, hv, hnode, -⟩ := hx
  rw [Module.tyOf_eq hv]
  rw [Module.value?_of_pos m (Module.bounds_of_value? hv).1] at hv
  simpa [hnode] using List.all_eq_true.mp hall v
    (Array.mem_toList_iff.mpr (Array.mem_of_getElem? hv))

def sevens (m : Module) : Store where
  mem
    | .local x => some (List.replicate ((m.tyOf x).elem.size / 4).toNat (.word 7))
    | .global _ => none

theorem images_agree_squareSample : ∃ m id ds t s s' a slot r log a' st',
    squareSample.lower = .ok m ∧ emitGlobal m id = .ok (dataLines "a" ds) ∧
    ds.flatMap Datum.words = [1, 0, 1, 0] ∧
    lowerLocal t false squareDef s = .ok ((), s') ∧ slotsBetween m t.func s s' slot ∧
    a.env slot = some (.addr r 0) ∧
    (filling m ⟨fun _ => none, fun _ => none, fun _ => none⟩ (fun _ _ => 0) []
      (slotsBetween m t.func s s')).Writes (.running a [] (sevens m))
      (log ++ imageWrites r 0 [1, 0, 1, 0]) (.running a' [] st') ∧
    st'.mem r = some [.word 1, .word 0, .word 1, .word 0] := by
  obtain ⟨m, hm⟩ : ∃ m, squareSample.lower = .ok m := exists_of_isOk (by decide +kernel)
  obtain ⟨scope, hready⟩ := ready_of_lower hm
  obtain ⟨-, hglobals, hlocals⟩ := @images_agree squareDef [2, 2] [1, 0, 1, 0] (by simp [squareDef])
  have hitems : squareSample.items = [] ++ .decl {} ⟨true,
    [squareDef]⟩ :: squareSample.items.tail := rfl
  have hdefs : Decl.defs ⟨true, [squareDef]⟩ = [] ++ squareDef :: [] := rfl
  obtain ⟨_, sg, sg', sₙ, sₑ, -, -, hrung, -, -, hmodule, hsg, -, hn, hₑ⟩ :=
    items_around hm hitems rfl hdefs
  have heg : Extends sg'.module m := hmodule ▸ hn.grown.trans hₑ.grown
  obtain ⟨id, ds, -, hemit, hwords⟩ :=
    hglobals true sg sg' m hsg (image_squareDef _) hrung heg hready.sound.linked
  obtain ⟨t, s, s', h, hrun, he⟩ := exists_at_squareSample hm
  obtain ⟨fn, hf, -, -⟩ := h.func
  obtain ⟨fn', hf', hb⟩ :=
    (((lasts_lowerLocal h false squareDef).ok hrun).1.grows.extends.trans he).func hf
  obtain ⟨rest, hrest⟩ := hb.code fn.current
  let a : Activation := { func := t.func, block := fn.current, rest, args := [],
                          env := fun x => some (.addr (.local x) 0), locals := [] }
  have hroom : Allotted m (slotsBetween m t.func s s') a (sevens m) := by
    refine ⟨fun x hx => ⟨.local x, _, rfl, rfl, ?_⟩, fun x r cells hx henv hmem => ?_,
      fun x y r o o' _ _ hx hy => ?_⟩
    · rcases elem_squareSample hm hx.2.2 with hsize | hsize <;> simp [hsize]
    · cases henv
      cases hmem
      rcases elem_squareSample hm hx.2.2 with hsize | hsize <;> simp [hsize]
    · cases hx
      cases hy
      rfl
  obtain ⟨slot, r, log, a', st', -, hslot, henv, hwrites, -, -, hmem, -⟩ :=
    hlocals false t {2} s s' m
    ⟨fun _ => none, fun _ => none, fun _ => none⟩ (fun _ _ => 0) [] a (sevens m) h
      (image_squareDef _) (by simp [squareDef]) hrun he
    ⟨rfl, fn, fn', hf, hf', rfl, hrest.symm⟩ hroom
  exact ⟨m, id, ds, t, s, s', a, slot, r, log, a', st', hm, hemit, hwords, hrun, hslot, henv,
    hwrites, hmem⟩

end Sysy.Lowering