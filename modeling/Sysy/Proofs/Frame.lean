import Sysy.Frame
import Sysy.Proofs.Lowering.Soundness

/-!
Frames of complete functions. The plan of a frame gives every instruction with users a slot, slots
do not overlap, and the arguments of calls below them and the return address above them have places
of their own.
-/

namespace Sysy.Frame
open Ir Lowering

variable {m : Module} {f : Nat} {fn : Func}

def Used (m : Module) (id : ValueId) : Prop := ∃ y, (id, y) ∈ m.uses

theorem usedTable_getD (m : Module) (id : Nat) (h : id ≤ m.values.size) :
    m.usedTable.getD id false = true ↔ Used m id := by
  have hfold (us : List (Nat × Nat)) : ∀ t : Array Bool, id < t.size →
      ((us.foldl (fun t u => t.setIfInBounds u.1 true) t).getD id false = true ↔
        t.getD id false = true ∨ ∃ y, (id, y) ∈ us) := by
    induction us with
    | nil => intro t _; simp
    | cons u us ih =>
      intro t ht
      rw [List.foldl_cons, ih _ (by simpa using ht)]
      simp only [Array.getD_eq_getD_getElem?, Array.getElem?_setIfInBounds, List.mem_cons]
      by_cases heq : u.1 = id
      · have hu : u = (id, u.2) := by rw [← heq]
        simp only [heq, if_pos, ht, Option.getD_some, true_or, true_iff]
        exact .inr ⟨u.2, .inl hu.symm⟩
      · have hne (y : Nat) : (id, y) ≠ u := fun h => heq (by rw [← h])
        simp [heq, hne]
  rw [Module.usedTable, ← Array.foldl_toList, hfold _ _ (by simpa using Nat.lt_succ_of_le h)]
  have hfalse : (Array.replicate (m.values.size + 1) false).getD id false = false := by
    simp [Array.getD_eq_getD_getElem?, Nat.lt_succ_of_le h]
  simp only [hfalse, Bool.false_eq_true, false_or, Used, Array.mem_toList_iff]

def need (t : Machine) (v : Value) : Int := if v.node.isAlloc then v.ty.elem.size else t.wordSize

def Needs (t : Machine) (v : Value) : Prop := 0 < need t v ∧ (4 ∣ t.wordSize → 4 ∣ need t v)

structure Keeps (t : Machine) (v : Value) (s : Slot) : Prop where
  size : s.size = need t v
  isPtr : s.isPtr = (!v.node.isAlloc && v.ty.isPtr)
  needs : Needs t v

structure Drafted (t : Machine) (m : Module) (ids : List ValueId) (d : Draft) : Prop where
  words : 4 ∣ t.wordSize → 4 ∣ d.locals
  locals : 0 ≤ d.locals
  keys : d.slots.map (·.1) = (ids.filter fun id => m.usedTable.getD id false).reverse
  slot : ∀ p ∈ d.slots, 0 ≤ p.2.offset ∧ (4 ∣ t.wordSize → 4 ∣ p.2.offset) ∧
    p.2.offset + p.2.size ≤ d.locals ∧
    ∃ v, m.value? p.1 = some v ∧ Keeps t v p.2
  apart : d.slots.Pairwise fun p q => q.2.offset + q.2.size ≤ p.2.offset
  calls : ∀ id ∈ ids, ∀ v g args, m.value? id = some v → v.node = .call g args →
    d.hasCall = true ∧ args.length ≤ d.maxArgs
  called : d.hasCall = true → ∃ id ∈ ids, ∃ g args, m.node? id = some (.call g args)

theorem Drafted.nil {t : Machine} : Drafted t m [] {} := by
  refine ⟨by simp, le_rfl, rfl, by simp, .nil, by simp, by simp⟩

def Draft.count (d : Draft) : Node → Draft
  | .call _ args => { d with hasCall := true, maxArgs := max d.maxArgs args.length }
  | _ => d

@[simp] theorem Draft.slots_count (d : Draft) (node : Node) : (d.count node).slots = d.slots := by
  cases node <;> rfl

@[simp] theorem Draft.locals_count (d : Draft) (node : Node) :
    (d.count node).locals = d.locals := by
  cases node <;> rfl

section
variable {t : Machine}

theorem Draft.add_eq (fn : Func) {d : Draft} {id : Nat} {v : Value} (hv : m.value? id = some v)
    (hneed : 0 < need t v) : d.add t m m.usedTable fn id =
      .ok (if m.usedTable.getD id false then
        { d.count v.node with
          locals := d.locals + need t v
          slots := (id, { offset := d.locals, size := need t v,
                          isPtr := !v.node.isAlloc && v.ty.isPtr }) :: d.slots }
        else d.count v.node) := by
  have hadd : d.add t m m.usedTable fn id =
      if m.usedTable.getD id false then
        let slot := if v.node.isAlloc then (v.ty.elem.size, false) else (t.wordSize, v.ty.isPtr)
        if slot.1 ≤ 0 then .error (.unsized fn.name id)
        else .ok { d.count v.node with
          locals := (d.count v.node).locals + slot.1
          slots := (id, { offset := (d.count v.node).locals, size := slot.1,
                          isPtr := slot.2 }) :: (d.count v.node).slots }
      else .ok (d.count v.node) := by
    simp only [Draft.add, hv]
    cases v.node <;> rfl
  simp only [Draft.slots_count, Draft.locals_count] at hadd
  rw [hadd]
  unfold need at hneed ⊢
  by_cases hused : m.usedTable.getD id false = true
  · by_cases halloc : v.node.isAlloc = true
    · simp only [hused, halloc, if_true] at hneed ⊢
      exact if_neg (not_le.mpr hneed)
    · simp only [hused, halloc, if_true] at hneed ⊢
      exact if_neg (not_le.mpr hneed)
  · simp only [hused]
    rfl

theorem drafted_add (fn : Func) {ids : List ValueId} {d : Draft} {id : Nat} {v : Value}
    (h : Drafted t m ids d) (hv : m.value? id = some v) (hneed : Needs t v) :
    ∃ d', d.add t m m.usedTable fn id = .ok d' ∧ Drafted t m (ids ++ [id]) d' := by
  have hcalls : ∀ x ∈ ids ++ [id], ∀ w g args, m.value? x = some w → w.node = .call g args →
      (d.count v.node).hasCall = true ∧ args.length ≤ (d.count v.node).maxArgs := by
    intro x hx w g args hw hnode
    rcases List.mem_append.mp hx with hx | hx
    · obtain ⟨h₁, h₂⟩ := h.calls x hx w g args hw hnode
      cases v.node with
      | call => exact ⟨rfl, h₂.trans (le_max_left _ _)⟩
      | _ => exact ⟨h₁, h₂⟩
    · obtain rfl := List.mem_singleton.mp hx
      obtain rfl := Option.some.inj (hv.symm.trans hw)
      rw [hnode]
      exact ⟨rfl, le_max_right _ _⟩
  have hcalled : (d.count v.node).hasCall = true → ∃ x ∈ ids ++ [id], ∃ g args, m.node? x =
    some (.call g args) := by
    intro hcall
    have hnew := Module.node?_eq hv
    cases hnode : v.node with
    | call g args => exact ⟨id, by simp, g, args, hnode ▸ hnew⟩
    | _ =>
      rw [hnode] at hcall
      obtain ⟨x, hx, hrest⟩ := h.called hcall
      exact ⟨x, List.mem_append_left _ hx, hrest⟩
  refine ⟨_, Draft.add_eq fn hv hneed.1, ?_⟩
  -- only a result that some instruction reads gets a slot
  by_cases hused : m.usedTable.getD id false = true
  · rw [if_pos hused]
    have hpos := hneed.1
    refine ⟨fun hw => dvd_add (h.words hw) (hneed.2 hw), ?_, ?_, fun p hp => ?_, ?_,
      hcalls, hcalled⟩
    · have := h.locals
      dsimp only
      omega
    · rw [List.map_cons, h.keys, List.filter_append, List.filter_cons_of_pos (p :=
        fun id => m.usedTable.getD id false) hused, List.filter_nil,
        List.reverse_append]
      rfl
    · rcases List.mem_cons.mp hp with rfl | hp
      · exact ⟨h.locals, h.words, le_rfl, v, hv, rfl, rfl, hneed⟩
      · obtain ⟨h₁, h₂, h₃, hrest⟩ := h.slot p hp
        exact ⟨h₁, h₂, by dsimp only; omega, hrest⟩
    · exact List.pairwise_cons.mpr ⟨fun p hp => (h.slot p hp).2.2.1, h.apart⟩
  · rw [if_neg hused]
    refine ⟨by
      rw [Draft.locals_count]; exact h.words, by rw [Draft.locals_count]; exact h.locals, ?_, ?_,
      by rw [Draft.slots_count]; exact h.apart, hcalls, hcalled⟩
    · rw [Draft.slots_count, h.keys, List.filter_append, List.filter_cons_of_neg (p :=
        fun id => m.usedTable.getD id false) hused, List.filter_nil,
        List.append_nil]
    · rw [Draft.slots_count, Draft.locals_count]
      exact h.slot

theorem drafted_fold (fn : Func) (ids : List ValueId) :
    ∀ {done : List ValueId} {d : Draft}, Drafted t m done d →
    (∀ id ∈ ids, ∃ v, m.value? id = some v ∧ Needs t v) →
    ∃ d', ids.foldlM (Draft.add t m m.usedTable fn) d = .ok d' ∧ Drafted t m (done ++ ids) d' := by
  induction ids with
  | nil =>
    intro done d h _
    exact ⟨d, rfl, by rw [List.append_nil]; exact h⟩
  | cons id ids ih =>
    intro done d h hids
    obtain ⟨v, hv, hneed⟩ := hids id (List.mem_cons_self ..)
    obtain ⟨d₁, hadd, h₁⟩ := drafted_add fn h hv hneed
    obtain ⟨d₂, hfold, h₂⟩ := ih h₁ fun x hx => hids x (List.mem_cons_of_mem _ hx)
    refine ⟨d₂, ?_, by rwa [List.append_assoc] at h₂⟩
    rw [List.foldlM_cons, hadd]
    exact hfold

theorem Drafted.disjoint {ids : List ValueId} {d : Draft} (h : Drafted t m ids d) :
    ∀ p ∈ d.slots, ∀ q ∈ d.slots,
    p ≠ q → p.2.offset + p.2.size ≤ q.2.offset ∨ q.2.offset + q.2.size ≤ p.2.offset := by
  let R (p q : ValueId × Slot) : Prop :=
    p.2.offset + p.2.size ≤ q.2.offset ∨ q.2.offset + q.2.size ≤ p.2.offset
  have : Std.Symm R := ⟨fun _ _ => Or.symm⟩
  have hpair : d.slots.Pairwise R := h.apart.imp .inr
  exact fun p hp q hq hne => hpair.forall hp hq hne

end

theorem getD_foldr_slots {α : Type} (g : Slot → α) (id : Nat) (slots : List (ValueId × Slot))
    (n : Nat) (hkeys : ∀ p ∈ slots, p.1 < n) (hnodup : (slots.map (·.1)).Nodup) (a : α) :
    (slots.foldr (fun p all => all.setIfInBounds p.1 (some (g p.2))) (Array.replicate n none)).getD
      id none = some a ↔ ∃ s, (id, s) ∈ slots ∧ g s = a := by
  have hsize (slots : List (ValueId × Slot)) :
      (slots.foldr (fun p all => all.setIfInBounds p.1 (some (g p.2)))
        (Array.replicate n none)).size = n := by
    induction slots with
    | nil => simp
    | cons p slots ih => simpa using ih
  induction slots with
  | nil =>
    rw [List.foldr_nil, Array.getD_eq_getD_getElem?, Array.getElem?_replicate]
    split <;> simp
  | cons p slots ih =>
    obtain ⟨hp, hrest⟩ := List.nodup_cons.mp hnodup
    rw [List.foldr_cons]
    by_cases heq : p.1 = id
    · have hnot (s : Slot) : (id, s) ∉ slots :=
        fun hmem => hp (List.mem_map.mpr ⟨_, hmem, heq.symm⟩)
      rw [Array.getD_eq_getD_getElem?, Array.getElem?_setIfInBounds, if_pos heq,
        if_pos (by rw [hsize]; exact hkeys p (List.mem_cons_self ..))]
      constructor
      · intro h
        exact ⟨p.2, by rw [← heq]; exact List.mem_cons_self .., by simpa using h⟩
      · rintro ⟨s, hmem, rfl⟩
        rcases List.mem_cons.mp hmem with heq' | hmem
        · rw [← heq']
          rfl
        · exact absurd hmem (hnot s)
    · rw [Array.getD_eq_getD_getElem?, Array.getElem?_setIfInBounds, if_neg heq,
        ← Array.getD_eq_getD_getElem?]
      refine (ih (fun q hq => hkeys q (List.mem_cons_of_mem _ hq)) hrest).trans ?_
      have hne (s : Slot) : (id, s) ≠ p := fun h => heq (by rw [← h])
      simp [hne]

theorem nodup_insts (h : Finished m f fn) : fn.insts.Nodup := by
  refine List.nodup_flatMap.mpr ⟨fun bb _ => (h.sorted bb).imp Nat.ne_of_lt, ?_⟩
  refine h.nodup.imp_of_mem fun {bb bb'} _ _ hne => ?_
  rw [Function.onFun, List.disjoint_left]
  intro id hid hid'
  obtain ⟨v, hv, -, hb, -⟩ := h.inst bb id hid
  obtain ⟨v', hv', -, hb', -⟩ := h.inst bb' id hid'
  obtain rfl := Option.some.inj (hv.symm.trans hv')
  exact hne (hb.symm.trans hb')

theorem mem_insts (h : Finished m f fn) {id : Nat} : id ∈ fn.insts ↔ ∃ bb, id ∈ fn.code bb := by
  constructor
  · intro hid
    obtain ⟨bb, -, hid⟩ := List.mem_flatMap.mp hid
    exact ⟨bb, hid⟩
  · rintro ⟨bb, hid⟩
    refine List.mem_flatMap.mpr ⟨bb, ?_, hid⟩
    by_contra hnot
    rw [h.empty bb hnot] at hid
    cases hid

theorem exists_needs {t : Machine} (ht : 1 ≤ t.wordSize) (h : Finished m f fn) {id : Nat}
    (hid : id ∈ fn.insts) :
    ∃ v, m.value? id = some v ∧ Needs t v := by
  obtain ⟨bb, hid⟩ := (mem_insts h).mp hid
  obtain ⟨v, hv, -, -, hok⟩ := h.inst bb id hid
  refine ⟨v, hv, ?_⟩
  rw [Needs, need]
  split
  · rename_i halloc
    generalize v.ty = ty at hok
    generalize v.node = node at hok halloc
    cases node <;> simp only [Node.isAlloc, Bool.false_eq_true] at halloc
    cases hok with
    | alloc _ hty =>
      obtain ⟨ds, hds, rfl | rfl⟩ := hty
      · have := product_pos hds.1
        rw [Ty.elem, size_ofDims hds]
        omega
      · exact ⟨four_pos, fun _ => dvd_refl 4⟩
    | plain _ ht => cases ht
    | leave _ hl => cases hl
  · exact ⟨by omega, fun h => h⟩

theorem alignUp_spec {n align : Int} (hn : 0 ≤ n) (ha : 1 ≤ align) : n ≤ alignUp n align ∧
    align ∣ alignUp n align := by
  rw [alignUp]
  split
  · obtain rfl : align = 1 := by omega
    exact ⟨le_rfl, one_dvd n⟩
  · rw [Int.tdiv_eq_ediv_of_nonneg (by omega)]
    have hmod := Int.emod_lt_of_pos (n + align - 1) (by omega : 0 < align)
    have hdiv := Int.ediv_mul_add_emod (n + align - 1) align
    exact ⟨by omega, Int.dvd_mul_left _ _⟩

theorem lookup_labels (l : List BlockId) : ∀ bb ∈ l,
    (l.map fun bb => (bb, blockLabel fn bb)).lookup bb = some (blockLabel fn bb) := by
  induction l with
  | nil => simp
  | cons x l ih =>
    intro bb hbb
    rw [List.map_cons, List.lookup_cons]
    by_cases heq : bb = x
    · simp [heq]
    · rw [beq_false_of_ne heq]
      exact ih bb ((List.mem_cons.mp hbb).resolve_left heq)

/-- The plan of a frame for a machine. From the stack pointer up it has the arguments that are
passed on the stack, the slots, and the return address. -/
structure Planned (t : Machine) (m : Module) (fn : Func) (fr : Frame) : Prop where
  total : ∀ id ∈ fn.insts, Used m id → ∃ s, fr.slot? id = some s
  slot : ∀ id s, fr.slot? id = some s → id ∈ fn.insts ∧ Used m id ∧ fr.outArgs ≤ s.offset ∧
    s.offset + s.size ≤ fr.outArgs + fr.locals ∧ (4 ∣ t.wordSize → 4 ∣ s.offset) ∧
    ∃ v, m.value? id = some v ∧ Keeps t v s
  apart : ∀ id id' s s', fr.slot? id = some s → fr.slot? id' = some s' → id ≠ id' →
    s.offset + s.size ≤ s'.offset ∨ s'.offset + s'.size ≤ s.offset
  outArgs : fr.outArgs = max 0 (fr.maxArgs - t.argRegs) * t.wordSize
  locals : 0 ≤ fr.locals
  calls : ∀ id ∈ fn.insts, ∀ v g args, m.value? id = some v → v.node = .call g args →
    fr.hasCall = true ∧ args.length ≤ fr.maxArgs
  called : fr.hasCall = true → ∃ id ∈ fn.insts, ∃ g args, m.node? id = some (.call g args)
  top : fr.outArgs + fr.locals + (if fr.hasCall then t.wordSize else 0) ≤ fr.size
  aligned : t.stackAlign ∣ fr.size
  small : fr.size ≤ maxSize - t.stackAlign
  raOffset : fr.hasCall = true → fr.raOffset = fr.size - t.wordSize
  label : ∀ bb ∈ fn.layout.toList, fr.label bb = blockLabel fn bb

theorem Planned.outArgs_nonneg {t : Machine} {fr : Frame} (ht : 1 ≤ t.wordSize)
    (h : Planned t m fn fr) :
    0 ≤ fr.outArgs := by
  rw [h.outArgs]
  exact mul_nonneg (le_max_left _ _) (by omega)

namespace Draft
variable (t : Machine) (d : Draft)

/-- The bytes for the arguments that are passed on the stack. -/
def outArgs : Int := max 0 ((d.maxArgs : Int) - t.argRegs) * t.wordSize

def size : Int :=
  alignUp (d.locals + d.outArgs t + (if d.hasCall then t.wordSize else 0)) t.stackAlign

/-- The frame of a draft. Its slots stand above the arguments of calls. -/
def frame (m : Module) (fn : Func) : Frame where
  slots := d.slots.foldr (fun p all =>
    all.setIfInBounds p.1 (some { p.2 with offset := p.2.offset + d.outArgs t }))
      (Array.replicate (m.values.size + 1) none)
  labels := fn.layout.toList.map fun bb => (bb, blockLabel fn bb)
  locals := d.locals
  outArgs := d.outArgs t
  maxArgs := d.maxArgs
  hasCall := d.hasCall
  size := d.size t
  raOffset := if d.hasCall then d.size t - t.wordSize else 0

end Draft

theorem plan_eq {t : Machine} {d : Draft}
    (hfold : fn.insts.foldlM (Draft.add t m m.usedTable fn) {} = .ok d) :
    plan t m fn = if d.size t < -0x80000000 ∨ maxSize < d.size t then .error
      (.tooLarge fn.name true)
      else if maxSize - t.stackAlign < d.size t then .error (.tooLarge fn.name false) else .ok
        (d.frame t m fn) := by
  unfold plan
  rw [hfold]
  rfl

section
variable {t : Machine} {d : Draft} {id : Nat} {s : Slot}

theorem Drafted.mem_keys (hd : Drafted t m fn.insts d) :
    id ∈ d.slots.map (·.1) ↔ id ∈ fn.insts ∧ m.usedTable.getD id false = true := by
  rw [hd.keys, List.mem_reverse, List.mem_filter]

theorem Drafted.slot?_frame (h : Finished m f fn) (hd : Drafted t m fn.insts d) :
    (d.frame t m fn).slot? id = some s ↔
    ∃ s₀, (id, s₀) ∈ d.slots ∧ { s₀ with offset := s₀.offset + d.outArgs t } = s := by
  have hbound (p : ValueId × Slot) (hp : p ∈ d.slots) : p.1 < m.values.size + 1 := by
    obtain ⟨-, -, -, v, hv, -⟩ := hd.slot p hp
    exact Nat.lt_succ_of_le (Module.bounds_of_value? hv).2
  have hnodup : (d.slots.map (·.1)).Nodup := by
    rw [hd.keys, List.nodup_reverse]
    exact (nodup_insts h).filter _
  exact getD_foldr_slots (fun s₀ => { s₀ with offset := s₀.offset + d.outArgs t }) id d.slots _
    hbound hnodup s

/-- The frame of the draft of a complete function is planned, if it is not too large. -/
theorem Drafted.planned (hword : 1 ≤ t.wordSize) (halign : 1 ≤ t.stackAlign) (h : Finished m f fn)
    (hd : Drafted t m fn.insts d) (hroom : d.size t ≤ maxSize - t.stackAlign) :
    Planned t m fn (d.frame t m fn) := by
  have hout : 0 ≤ d.outArgs t := mul_nonneg (le_max_left _ _) (by omega)
  have hlocals := hd.locals
  obtain ⟨htop, haligned⟩ :=
    alignUp_spec (n := d.locals + d.outArgs t + (if d.hasCall then t.wordSize else 0))
    (by split <;> omega) halign
  refine {
    total := fun id hid hused => ?_
    slot := fun id s hs => ?_
    apart := fun id id' s s' hs hs' hne => ?_
    outArgs := rfl
    locals := hlocals
    calls := hd.calls
    called := hd.called
    top := by rw [Int.add_comm (Frame.outArgs _)]; exact htop
    aligned := haligned
    small := hroom
    raOffset := fun hcall => if_pos hcall
    label := fun bb hbb => ?_ }
  · obtain ⟨v, hv, -⟩ := exists_needs hword h hid
    have hkey :=
      hd.mem_keys.mpr ⟨hid, (usedTable_getD m id (Module.bounds_of_value? hv).2).mpr hused⟩
    obtain ⟨⟨_, s₀⟩, hp, rfl⟩ := List.mem_map.mp hkey
    exact ⟨_, (hd.slot?_frame h).mpr ⟨s₀, hp, rfl⟩⟩
  · obtain ⟨s₀, hp, rfl⟩ := (hd.slot?_frame h).mp hs
    obtain ⟨h₁, h₂, h₃, v, hv, hkeeps⟩ := hd.slot _ hp
    obtain ⟨hid, hused⟩ := hd.mem_keys.mp (List.mem_map_of_mem hp)
    have hwords (hw : 4 ∣ t.wordSize) : 4 ∣ d.outArgs t := hw.mul_left _
    exact ⟨hid, (usedTable_getD m id (Module.bounds_of_value? hv).2).mp hused,
      by dsimp only [Draft.frame] at *; omega, by dsimp only [Draft.frame] at *; omega,
      fun hw => dvd_add (h₂ hw) (hwords hw), v, hv, hkeeps.size, hkeeps.isPtr, hkeeps.needs⟩
  · obtain ⟨s₀, hp, rfl⟩ := (hd.slot?_frame h).mp hs
    obtain ⟨s₁, hp', rfl⟩ := (hd.slot?_frame h).mp hs'
    have hne' : ((id, s₀) : ValueId × Slot) ≠ (id', s₁) := fun heq => hne (congrArg Prod.fst heq)
    have := hd.disjoint _ hp _ hp' hne'
    dsimp only at this ⊢
    omega
  · rw [label, Draft.frame, lookup_labels _ bb hbb]
    rfl

theorem plan_cases (hword : 1 ≤ t.wordSize) (halign : 1 ≤ t.stackAlign) (h : Finished m f fn) :
    (∃ fr, plan t m fn = .ok fr ∧ Planned t m fn fr) ∨
    ∃ b, plan t m fn = .error (.tooLarge fn.name b) := by
  obtain ⟨d, hfold, hd⟩ := drafted_fold fn fn.insts Drafted.nil fun id hid =>
    exists_needs hword h hid
  rw [List.nil_append] at hd
  rw [plan_eq hfold]
  split
  · exact .inr ⟨true, rfl⟩
  · split
    · exact .inr ⟨false, rfl⟩
    · rename_i hroom
      exact .inl ⟨_, rfl, hd.planned hword halign h (not_lt.mp hroom)⟩

end

/-- A frame that has room for everything the code of a function keeps. -/
structure Fits (m : Module) (fn : Func) (fr : Frame) : Prop where
  total : ∀ id ∈ fn.insts, Used m id → ∃ s, fr.slot? id = some s
  used : ∀ id s, fr.slot? id = some s → Used m id
  slot : ∀ id s, fr.slot? id = some s → id ∈ fn.insts ∧ fr.outArgs ≤ s.offset ∧
    s.offset + s.size ≤ fr.outArgs + fr.locals ∧ 4 ∣ s.offset ∧
    ∃ v, m.value? id = some v ∧ s.size = need .rv32 v ∧ 0 < need .rv32 v ∧ 4 ∣ need .rv32 v
  apart : ∀ id id' s s', fr.slot? id = some s → fr.slot? id' = some s' → id ≠ id' →
    s.offset + s.size ≤ s'.offset ∨ s'.offset + s'.size ≤ s.offset
  outArgs : 0 ≤ fr.outArgs
  outWords : 4 ∣ fr.outArgs
  locals : 0 ≤ fr.locals
  calls : ∀ id ∈ fn.insts, ∀ v g args, m.value? id = some v → v.node = .call g args →
    fr.hasCall = true ∧ 4 * ((args.length : Int) - 8) ≤ fr.outArgs
  top : fr.outArgs + fr.locals + (if fr.hasCall then 4 else 0) ≤ fr.size
  aligned : 16 ∣ fr.size
  small : fr.size ≤ 0x7FFFFFEF
  raOffset : fr.hasCall = true → fr.raOffset = fr.size - 4
  label : ∀ bb ∈ fn.layout.toList, fr.label bb = blockLabel fn bb

theorem Planned.fits {fr : Frame} (h : Planned .rv32 m fn fr) : Fits m fn fr := by
  have hout := h.outArgs
  simp only [Machine.rv32] at hout
  refine ⟨h.total, fun id s hs => (h.slot id s hs).2.1, fun id s hs => ?_, h.apart, by
    omega, by omega, h.locals,
    fun id hid v g args hv hnode => ?_, h.top, h.aligned, h.small, h.raOffset, h.label⟩
  · obtain ⟨hmem, -, h₁, h₂, h₃, v, hv, hkeeps⟩ := h.slot id s hs
    exact ⟨hmem, h₁, h₂, h₃ (dvd_refl 4), v, hv, hkeeps.size, hkeeps.needs.1,
      hkeeps.needs.2 (dvd_refl 4)⟩
  · obtain ⟨hcall, hargs⟩ := h.calls id hid v g args hv hnode
    exact ⟨hcall, by omega⟩

theorem plan_fits (h : Finished m f fn) :
    (∃ fr, plan .rv32 m fn = .ok fr ∧ Fits m fn fr) ∨ ∃ b, plan .rv32 m fn = .error
      (.tooLarge fn.name b) := by
  rcases plan_cases (t := .rv32) (by decide) (by decide) h with ⟨fr, hfr, hplanned⟩ | herror
  · exact .inl ⟨fr, hfr, hplanned.fits⟩
  · exact .inr herror

end Sysy.Frame
