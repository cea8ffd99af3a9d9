import Sysy.Proofs.Naming.Mentions

/-!
Names in the order in which values are mentioned. `Tracks` ties the tables of the printer to the
values that were named, which each further name keeps, and `Named` is what follows for the names
themselves.
-/

namespace Sysy.Ir

def Module.Plain (m : Module) : Prop :=
  ∀ id b, m.baseName? id = some b → ∀ k : Nat, b ≠ "%" ++ toString k

/-- The values `ids`, named as they are mentioned. A value that was not named before gets the name
that it asks for, or that name with the smallest number that makes it new, and a value that asks for
none gets the number of those before it. -/
def Module.Named (m : Module) (ν : ValueId → String) (before ids : List ValueId) : Prop :=
  ∀ pre id post, ids = pre ++ id :: post → id ∉ before ++ pre →
    (∀ b, m.baseName? id = some b → Printer.Renamed ((before ++ pre).map ν) b (ν id)) ∧
    (m.baseName? id = none → ν id = "%" ++ toString (pre.toFinset.filter fun x =>
      m.baseName? x = none).card)

namespace Printer

variable {m : Module} {s : Names} {id x : ValueId} {before seen ids ids' : List ValueId}
  {n b : String} {ν : ValueId → String}

theorem ne_toString {name : String} {c : Char} (hc : c ∈ name.toList) (h : c.isDigit = false)
    (k : Nat) : name ≠ toString k := by
  rintro rfl
  rw [Nat.toString_eq_ofList_toDigits, String.toList_ofList] at hc
  have hdigit := Nat.isDigit_of_mem_toDigits (by decide : 0 < 10) (by decide) hc
  rw [h] at hdigit
  cases hdigit

theorem numbered_ne_percent (b : String) (j k : Nat) : numbered b j ≠ "%" ++ toString k := by
  intro h
  have hmem := underscore_mem_numbered b j
  rw [h, String.toList_append] at hmem
  rcases List.mem_append.mp hmem with hmem | hmem
  · exact absurd hmem (by decide)
  · exact ne_toString hmem (by decide) k rfl

/-- The tables of the printer after the values `seen` were mentioned, where the values `before` had
names already. -/
structure Tracks (m : Module) (before seen : List ValueId) (s : Names) : Prop where
  fits : s.Fits m
  named : ∀ id ∈ before ++ seen, ∃ n, s.name? id = some n
  taken : ∀ n, 0 < count s.taken n ↔ ∃ id ∈ before ++ seen, m.baseName? id ≠ none ∧
    s.name? id = some n
  tidy : Tidy s.taken
  next : s.next = (seen.toFinset.filter fun x => m.baseName? x = none).card
  numbered : ∀ id ∈ before ++ seen, m.baseName? id = none → ∃ k < s.next, s.name? id =
    some ("%" ++ toString k)
  worded : ∀ id ∈ before ++ seen, m.baseName? id ≠ none → ∀ k : Nat, s.name? id ≠ some
    ("%" ++ toString k)
  distinct : ∀ id ∈ before ++ seen, ∀ x ∈ before ++ seen, s.name? id = s.name? x → id = x

theorem nameAll_concat (m : Module) (ids : List ValueId) (id : ValueId) (s : Names) :
    nameAll m (ids ++ [id]) s = (nameOf m id (nameAll m ids s)).2 := nameAll_append ..

theorem name?_nameOf_of_ne (hs : s.Fits m) (hid : id ≤ m.values.size) (hne : x ≠ id) :
    (nameOf m id s).2.name? x = s.name? x := by
  rcases nameOf_cases m id s with ⟨n, -, hrun⟩ | ⟨n, s', -, hrun, hgiven⟩
  · rw [hrun]
  · rw [hrun, name?_of_given hgiven (hs.lt hid), if_neg hne]

theorem name?_nameAll (hids : ∀ id ∈ ids, id ≤ m.values.size) (hs : s.Fits m)
    (h : s.name? x = some n) :
    (nameAll m ids s).name? x = some n := by
  induction ids generalizing s with
  | nil => exact h
  | cons id ids ih =>
    have hname := Prints.nameOf (hids id (List.mem_cons_self ..))
    exact ih (fun id hid => hids id (List.mem_cons_of_mem _ hid)) (hname.fits s hs)
      (hname.keeps s hs x n h)

theorem name?_nameAll_of_notMem (hids : ∀ id ∈ ids, id ≤ m.values.size) (hs : s.Fits m)
    (hx : x ∉ ids) :
    (nameAll m ids s).name? x = s.name? x := by
  induction ids generalizing s with
  | nil => rfl
  | cons id ids ih =>
    have hid := hids id (List.mem_cons_self ..)
    obtain ⟨hne, hx⟩ := not_or.mp (List.mem_cons.not.mp hx)
    exact (ih (fun id hid => hids id (List.mem_cons_of_mem _ hid))
      ((Prints.nameOf hid).fits s hs) hx).trans
      (name?_nameOf_of_ne hs hid hne)

namespace Tracks

theorem extend {s' : Names} (h : Tracks m before seen s) (hid : id ≤ m.values.size)
    (hnot : id ∉ before ++ seen) (hgiven : s'.given = s.given.setIfInBounds id (some n))
    (hnew : ∀ x ∈ before ++ seen, s.name? x ≠ some n)
    (htaken : ∀ n', 0 < count s'.taken n' ↔ 0 < count s.taken n' ∨ m.baseName? id ≠ none ∧ n' = n)
    (htidy : Tidy s'.taken) (hnext : s'.next = if m.baseName? id = none then s.next + 1 else s.next)
    (hnumber : m.baseName? id = none → n = "%" ++ toString s.next)
    (hword : m.baseName? id ≠ none → ∀ k : Nat, n ≠ "%" ++ toString k) :
    Tracks m before (seen ++ [id]) s' := by
  have hname (x : ValueId) : s'.name? x = if x = id then some n else s.name? x :=
    name?_of_given hgiven (h.fits.lt hid)
  have hold {x : ValueId} (hx : x ∈ before ++ seen) : s'.name? x = s.name? x := by
    rw [hname, if_neg]
    rintro rfl
    exact hnot hx
  have hself : s'.name? id = some n := by rw [hname, if_pos rfl]
  have hmem {x : ValueId} : x ∈ before ++ (seen ++ [id]) ↔ x ∈ before ++ seen ∨ x = id := by
    rw [← List.append_assoc, List.mem_append, List.mem_singleton]
  refine ⟨((congrArg Array.size hgiven).trans (Array.size_setIfInBounds ..)).trans h.fits,
    fun x hx => ?_, fun n' => ?_,
    htidy, ?_, fun x hx hbase => ?_, fun x hx hbase k => ?_, fun x hx y hy heq => ?_⟩
  · rcases hmem.mp hx with hx | rfl
    · rw [hold hx]
      exact h.named x hx
    · exact ⟨n, hself⟩
  · rw [htaken, h.taken]
    constructor
    · rintro (⟨x, hx, hbase, hn⟩ | ⟨hbase, rfl⟩)
      · exact ⟨x, hmem.mpr (.inl hx), hbase, (hold hx).trans hn⟩
      · exact ⟨id, hmem.mpr (.inr rfl), hbase, hself⟩
    · rintro ⟨x, hx, hbase, hn⟩
      rcases hmem.mp hx with hx | rfl
      · exact .inl ⟨x, hx, hbase, (hold hx).symm.trans hn⟩
      · exact .inr ⟨hbase, Option.some.inj (hn.symm.trans hself)⟩
  · have hfresh : id ∉ seen.toFinset :=
      fun hmem => hnot (List.mem_append_right _ (List.mem_toFinset.mp hmem))
    have hinsert : (seen ++ [id]).toFinset = insert id seen.toFinset := by
      ext x
      simp
    rw [hnext, h.next, hinsert, Finset.filter_insert]
    split
    · rw [Finset.card_insert_of_notMem fun hmem => hfresh (Finset.mem_of_mem_filter _ hmem)]
    · rfl
  · rcases hmem.mp hx with hx | rfl
    · obtain ⟨k, hk, hn⟩ := h.numbered x hx hbase
      refine ⟨k, ?_, (hold hx).trans hn⟩
      rw [hnext]
      split <;> omega
    · refine ⟨s.next, ?_, hself.trans (congrArg some (hnumber hbase))⟩
      rw [hnext, if_pos hbase]
      exact Nat.lt_succ_self _
  · rcases hmem.mp hx with hx | rfl
    · rw [hold hx]
      exact h.worded x hx hbase k
    · rw [hself]
      exact fun heq => hword hbase k (Option.some.inj heq)
  · rcases hmem.mp hx with hx' | hx' <;> rcases hmem.mp hy with hy' | hy'
    · exact h.distinct x hx' y hy' ((hold hx').symm.trans (heq.trans (hold hy')))
    · subst hy'
      exact absurd ((hold hx').symm.trans (heq.trans hself)) (hnew x hx')
    · subst hx'
      exact absurd ((hold hy').symm.trans (heq.symm.trans hself)) (hnew y hy')
    · exact hx'.trans hy'.symm

theorem taken_iff (h : Tracks m before seen s) (hb : ∀ k : Nat, b ≠ "%" ++ toString k) :
    0 < count s.taken b ↔ ∃ x ∈ before ++ seen, s.name? x = some b := by
  rw [h.taken]
  constructor
  · rintro ⟨x, hx, -, hn⟩
    exact ⟨x, hx, hn⟩
  · rintro ⟨x, hx, hn⟩
    refine ⟨x, hx, fun hbase => ?_, hn⟩
    obtain ⟨k, -, hk⟩ := h.numbered x hx hbase
    exact hb k (Option.some.inj (hn.symm.trans hk))

theorem uniqueName_ne (h : Tracks m before seen s) (hb : ∀ k : Nat, b ≠ "%" ++ toString k)
    (k : Nat) :
    uniqueName s.taken b ≠ "%" ++ toString k := by
  rcases uniqueName_cases h.tidy b with ⟨-, heq⟩ | ⟨-, j, -, heq, -⟩
  · rw [heq]
    exact hb k
  · rw [heq]
    exact numbered_ne_percent b j k

theorem uniqueName_new (h : Tracks m before seen s) (hb : ∀ k : Nat, b ≠ "%" ++ toString k) :
    ∀ x ∈ before ++ seen, s.name? x ≠ some (uniqueName s.taken b) := by
  intro x hx hn
  have hpos := (h.taken_iff (h.uniqueName_ne hb)).mpr ⟨x, hx, hn⟩
  rw [count_uniqueName h.tidy] at hpos
  exact absurd hpos (lt_irrefl 0)

theorem next_new (h : Tracks m before seen s) :
    ∀ x ∈ before ++ seen, s.name? x ≠ some ("%" ++ toString s.next) := by
  intro x hx hn
  by_cases hbase : m.baseName? x = none
  · obtain ⟨k, hk, hname⟩ := h.numbered x hx hbase
    exact absurd (append_number_injective "%" (Option.some.inj (hn.symm.trans hname)))
      (Nat.ne_of_gt hk)
  · exact h.worded x hx hbase _ hn

theorem again (h : Tracks m before seen s) (hbefore : ∀ x ∈ before, m.baseName? x ≠ none)
    (hid : id ∈ before ++ seen) :
    Tracks m before (seen ++ [id]) s := by
  have hmem {x : ValueId} : x ∈ before ++ (seen ++ [id]) ↔ x ∈ before ++ seen := by
    rw [← List.append_assoc, List.mem_append, List.mem_singleton]
    exact or_iff_left_of_imp fun heq => heq ▸ hid
  have hinsert : (seen ++ [id]).toFinset = insert id seen.toFinset := by
    ext x
    simp
  refine ⟨h.fits, fun x hx => h.named x (hmem.mp hx), fun n => ?_, h.tidy, ?_,
    fun x hx => h.numbered x (hmem.mp hx),
    fun x hx => h.worded x (hmem.mp hx), fun x hx y hy => h.distinct x (hmem.mp hx) y (hmem.mp hy)⟩
  · simp only [hmem]
    exact h.taken n
  · rw [h.next, hinsert, Finset.filter_insert]
    split
    · rename_i hbase
      have hseen : id ∈ seen := (List.mem_append.mp hid).resolve_left fun hmem =>
        hbefore id hmem hbase
      rw [Finset.insert_eq_of_mem (Finset.mem_filter.mpr ⟨List.mem_toFinset.mpr hseen, hbase⟩)]
    · rfl

theorem step (h : Tracks m before seen s) (hplain : m.Plain)
    (hbefore : ∀ x ∈ before, m.baseName? x ≠ none) (hid : id ≤ m.values.size)
    (hfresh : id ∉ before ++ seen → s.name? id = none) :
    Tracks m before (seen ++ [id]) (nameOf m id s).2 := by
  by_cases hmem : id ∈ before ++ seen
  · obtain ⟨n, hn⟩ := h.named id hmem
    rw [nameOf_again hn]
    exact h.again hbefore hmem
  · cases hbase : m.baseName? id with
    | some b =>
      have hb := hplain id b hbase
      rw [nameOf_new (hfresh hmem), hbase]
      refine h.extend hid hmem rfl (h.uniqueName_new hb) (fun n => ?_) (h.tidy.entered b)
        (by simp [hbase]) (by simp [hbase])
        fun _ => h.uniqueName_ne hb
      rw [count_entered_pos h.tidy]
      simp [hbase]
    | none =>
      rw [nameOf_new (hfresh hmem), hbase]
      exact h.extend hid hmem rfl h.next_new (by simp [hbase]) h.tidy (by simp [hbase])
        (fun _ => rfl) fun hne => absurd hbase hne

theorem nameAll (h : Tracks m before [] s) (hplain : m.Plain)
    (hbefore : ∀ x ∈ before, m.baseName? x ≠ none) (hids : ∀ id ∈ ids, id ≤ m.values.size)
    (hfresh : ∀ id ∈ ids, id ∉ before → s.name? id = none) :
    Tracks m before ids (nameAll m ids s) := by
  induction ids using List.reverseRecOn with
  | nil => exact h
  | append_singleton ids id ih =>
    have hids' : ∀ x ∈ ids, x ≤ m.values.size := fun x hx => hids x (List.mem_append_left _ hx)
    rw [nameAll_concat]
    refine (ih hids' fun x hx => hfresh x (List.mem_append_left _ hx)).step hplain hbefore
      (hids id (by simp)) fun hnot => ?_
    obtain ⟨hnot, hnot'⟩ := not_or.mp (List.mem_append.not.mp hnot)
    exact (name?_nameAll_of_notMem hids' h.fits hnot').trans (hfresh id (by simp) hnot)

/-- What the next name will be, in terms of the names so far. -/
theorem renamed (h : Tracks m before seen s) (hb : ∀ k : Nat, b ≠ "%" ++ toString k)
    (hν : ∀ x ∈ before ++ seen, s.name? x = some (ν x)) :
    Renamed ((before ++ seen).map ν) b (uniqueName s.taken b) := by
  have htaken {n : String} (hn : ∀ k : Nat, n ≠ "%" ++ toString k) : 0 < count s.taken n ↔
    n ∈ (before ++ seen).map ν := by
    rw [h.taken_iff hn, List.mem_map]
    constructor
    · rintro ⟨x, hx, hname⟩
      exact ⟨x, hx, Option.some.inj ((hν x hx).symm.trans hname)⟩
    · rintro ⟨x, hx, rfl⟩
      exact ⟨x, hx, hν x hx⟩
  exact renamed_uniqueName h.tidy (htaken hb) fun k => htaken (numbered_ne_percent b k)

theorem namedAll (h : Tracks m before [] s) (hplain : m.Plain)
    (hbefore : ∀ x ∈ before, m.baseName? x ≠ none) (hids : ∀ id ∈ ids, id ≤ m.values.size)
    (hfresh : ∀ id ∈ ids, id ∉ before → s.name? id = none)
    (hν : ∀ x ∈ before ++ ids, (Printer.nameAll m ids s).name? x = some (ν x)) :
    m.Named ν before ids := by
  rintro pre id post rfl hnot
  have hpre : ∀ x ∈ pre, x ≤ m.values.size := fun x hx => hids x (by simp [hx])
  have hid : id ≤ m.values.size := hids id (by simp)
  have hpost : ∀ x ∈ post, x ≤ m.values.size := fun x hx => hids x (by simp [hx])
  have htracks := h.nameAll hplain hbefore hpre fun x hx => hfresh x (by simp [hx])
  have hrest : Printer.nameAll m (pre ++ id :: post) s = Printer.nameAll m post
    (nameOf m id (Printer.nameAll m pre s)).2 :=
    nameAll_append ..
  obtain ⟨hnotBefore, hnotPre⟩ := not_or.mp (List.mem_append.not.mp hnot)
  have hnone : (Printer.nameAll m pre s).name? id = none :=
    (name?_nameAll_of_notMem hpre h.fits hnotPre).trans (hfresh id (by simp) hnotBefore)
  -- names stay as they are once they are given
  have hname := Prints.nameOf (m := m) hid
  have hfits := hname.fits _ htracks.fits
  have hsofar : ∀ x ∈ before ++ pre, (Printer.nameAll m pre s).name? x = some (ν x) := by
    intro x hx
    obtain ⟨n, hn⟩ := htracks.named x hx
    have hlast := name?_nameAll hpost hfits (hname.keeps _ htracks.fits x n hn)
    rw [← hrest, hν x (by simpa [or_assoc] using Or.inl (List.mem_append.mp hx))] at hlast
    rw [hn, hlast]
  have hgiven {n : String} (hn : (nameOf m id (Printer.nameAll m pre s)).2.name? id = some n) :
    ν id = n := by
    have hlast := name?_nameAll hpost hfits hn
    rw [← hrest, hν id (by simp)] at hlast
    exact Option.some.inj hlast
  have hroom := htracks.fits.lt hid
  refine ⟨fun b hbase => ?_, fun hbase => ?_⟩
  · rw [hgiven (by rw [nameOf_new hnone, hbase, name?_of_given rfl hroom, if_pos rfl])]
    exact htracks.renamed (hplain id b hbase) hsofar
  · rw [hgiven (by rw [nameOf_new hnone, hbase, name?_of_given rfl hroom, if_pos rfl]),
      htracks.next]

end Tracks

end Printer

end Sysy.Ir
