import Sysy.Proofs.Naming.Unique

/-!
Where names of different sorts meet in the text of a module. The labels of blocks and the names of
functions are printed as they are, and are not kept in mind when values are named. So a label is
also the name of a value exactly if a parameter is spelled like it, and a local or an argument may
be printed under the name of a function; but a global is not.
-/

namespace Sysy.Ir

open Lowering Printer

variable {m : Module} {ν : ValueId → String} {before ids more : List ValueId} {x y : ValueId}
  {b n : String} {k : Nat}

/-! The name of a value is the one that it asks for, or that one with a number. -/

theorem Printer.numbered_inj {b b' : String} {k k' : Nat} (h : numbered b k = numbered b' k') :
    b = b' ∧ k = k' := by
  have hlist := congrArg String.toList h
  simp only [numbered, String.toList_append, Nat.toString_eq_ofList_toDigits, String.toList_ofList,
    List.append_assoc] at hlist
  obtain ⟨hbase, -⟩ :=
    eq_and_eq_of_append_cons Nat.underscore_not_in_toDigits Nat.underscore_not_in_toDigits hlist
  obtain rfl := String.toList_inj.mp hbase
  exact ⟨rfl, numbered_injective b h⟩

theorem Printer.marked_numbered (h : b ≠ "") : Marked (numbered b k) ↔ Marked b := by
  have hne : b.toList ≠ [] := fun heq => h (String.toList_inj.mp heq)
  obtain ⟨c, cs, hb⟩ := List.exists_cons_of_ne_nil hne
  simp [Marked, numbered, String.toList_append, hb]

theorem Module.baseName?_ne_empty (h : m.baseName? x = some b) : b ≠ "" := by
  obtain ⟨v, -, hv⟩ := Option.bind_eq_some_iff.mp h
  unfold Value.baseName? at hv
  split at hv
  · rename_i hne
    exact Option.some.inj hv ▸ hne
  · split at hv
    · obtain rfl := Option.some.inj hv
      intro heq
      have hlist := congrArg String.toList heq
      simp [String.toList_append, toString] at hlist
    · cases hv

theorem Module.value?_of_marked (h : m.baseName? x = some b) (hb : Marked b) :
    ∃ v, m.value? x = some v ∧ v.name = b := by
  obtain ⟨v, hv, hbase⟩ := Option.bind_eq_some_iff.mp h
  unfold Value.baseName? at hbase
  split at hbase
  · exact ⟨v, hv, Option.some.inj hbase⟩
  · split at hbase
    · obtain rfl := Option.some.inj hbase
      simp [Marked, String.toList_append, toString] at hb
    · cases hbase

theorem Module.Named.of_append (h : m.Named ν before (ids ++ more)) : m.Named ν before ids := by
  rintro pre id post rfl hnot
  exact h pre id (post ++ more) (by simp) hnot

theorem Module.Named.cases (h : m.Named ν before ids) (hx : x ∈ ids) (hnot : x ∉ before) :
    (m.baseName? x = none ∧ ∃ k : Nat, ν x = "%" ++ toString k) ∨ ∃ b, m.baseName? x = some b ∧
      (ν x = b ∨ ∃ k, 1 ≤ k ∧ ν x = numbered b k ∧ ∃ y ∈ before ++ ids, y ≠ x ∧ ν y = b) := by
  obtain ⟨pre, post, rfl, hpre⟩ := List.eq_append_cons_of_mem hx
  obtain ⟨hbase, hnone⟩ := h pre x post rfl fun hmem => (List.mem_append.mp hmem).elim hnot hpre
  cases hb : m.baseName? x with
  | none => exact .inl ⟨rfl, _, hnone hb⟩
  | some b =>
    refine .inr ⟨b, rfl, ?_⟩
    rcases hbase b hb with ⟨-, heq⟩ | ⟨htaken, k, hk, heq, -⟩
    · exact .inl heq
    · obtain ⟨y, hy, hyb⟩ := List.mem_map.mp htaken
      refine .inr ⟨k, hk, heq, y, ?_, ?_, hyb⟩
      · simpa [or_assoc] using Or.inl (List.mem_append.mp hy)
      · rintro rfl
        exact (List.mem_append.mp hy).elim hnot hpre

theorem Module.Named.asked (h : m.Named ν before ids) (hx : x ∈ ids) (hnot : x ∉ before)
    (hb : m.baseName? x = some b) :
    ∃ y ∈ before ++ ids, ν y = b := by
  rcases h.cases hx hnot with ⟨hnone, -⟩ | ⟨b', hb', heq | ⟨k, -, -, y, hy, -, heq⟩⟩
  · cases hnone.symm.trans hb
  · obtain rfl := Option.some.inj (hb.symm.trans hb')
    exact ⟨x, List.mem_append_right _ hx, heq⟩
  · obtain rfl := Option.some.inj (hb.symm.trans hb')
    exact ⟨y, hy, heq⟩

/-- Values that ask for different names get the names that they ask for. -/
theorem Module.Named.eq_base (h : m.Named ν [] ids) (hsome : ∀ x ∈ ids, m.baseName? x ≠ none)
    (hinj : ∀ x ∈ ids, ∀ y ∈ ids, m.baseName? x = m.baseName? y → x = y) :
    ∀ x ∈ ids, m.baseName? x = some (ν x) := by
  induction ids using List.reverseRecOn with
  | nil => simp
  | append_singleton ids z ih =>
    have hold := ih h.of_append (fun x hx => hsome x (List.mem_append_left _ hx)) fun x hx y hy =>
      hinj x (List.mem_append_left _ hx) y (List.mem_append_left _ hy)
    intro x hx
    by_cases hmem : x ∈ ids
    · exact hold x hmem
    obtain rfl : x = z := by simpa [hmem] using hx
    obtain ⟨b, hb⟩ := Option.ne_none_iff_exists'.mp (hsome x hx)
    rcases (h ids x [] rfl (by simpa using hmem)).1 b hb with ⟨-, heq⟩ | ⟨htaken, -⟩
    · rw [hb, heq]
    · obtain ⟨y, hy, hyb⟩ := List.mem_map.mp htaken
      rw [List.nil_append] at hy
      have heq := hinj x hx y (List.mem_append_left _ hy) (by rw [hb, hold y hy, hyb])
      exact absurd (heq ▸ hy) hmem

theorem eq_of_countP_le_one {α : Type} {l : List α} {p : α → Bool} {i j : Nat} {a c : α}
    (h : l.countP p ≤ 1) (hi : l[i]? = some a) (hj : l[j]? = some c) (ha : p a = true)
    (hc : p c = true) : i = j := by
  by_contra hne
  wlog hlt : i < j generalizing i j a c
  · exact this hj hi hc ha (Ne.symm hne) (by omega)
  rw [← List.take_append_drop (i + 1) l, List.countP_append] at h
  have hfirst : a ∈ l.take (i + 1) :=
    List.mem_of_getElem? (i := i) (by rw [List.getElem?_take_of_lt (by omega), hi])
  have hsecond : c ∈ l.drop (i + 1) :=
    List.mem_of_getElem? (i :=
      j - (i + 1)) (by rw [List.getElem?_drop, Nat.add_sub_cancel' hlt, hj])
  have := List.countP_pos_iff.mpr ⟨a, hfirst, ha⟩
  have := List.countP_pos_iff.mpr ⟨c, hsecond, hc⟩
  omega

theorem Module.eq_of_slots {v w : Value} (hcount : ((m.slots v.func).map (·.2)).count v.name ≤ 1)
    (hmarked : Marked v.name) (hv : m.value? x = some v) (hw : m.value? y = some w)
    (hfunc : w.func = v.func) (hname : w.name = v.name) : x = y := by
  obtain ⟨hx, -⟩ := bounds_of_value? hv
  obtain ⟨hy, -⟩ := bounds_of_value? hw
  rw [value?_of_pos m hx, ← Array.getElem?_toList] at hv
  rw [value?_of_pos m hy, ← Array.getElem?_toList] at hw
  have hslots : (m.slots v.func).map (·.2) =
      (m.values.toList.filter fun w => w.func = v.func ∧ Marked w.name).map (·.name) := by
    rw [slots, List.map_map]
    rfl
  rw [hslots, List.count_eq_countP, List.countP_map, List.countP_filter] at hcount
  have := eq_of_countP_le_one hcount hv hw (by simp [hmarked]) (by simp [hfunc, hname, hmarked])
  lia

/-! Labels. The hint of a block ends in a letter, so a label is a hint with a number in one way
only. -/

def endsInDigit (name : String) : Bool := name.toList.getLast?.any Char.isDigit

theorem endsInDigit_append (name : String) (k : Nat) : endsInDigit (name ++ toString k) = true := by
  have hne : Nat.toDigits 10 k ≠ [] := Nat.toDigits_ne_nil
  rw [endsInDigit, String.toList_append, Nat.toString_eq_ofList_toDigits, String.toList_ofList,
    List.getLast?_append_of_ne_nil _ hne, List.getLast?_eq_some_getLast hne, Option.any_some]
  exact Nat.isDigit_of_mem_toDigits (by decide) (by decide) (List.getLast_mem hne)

theorem label_hints : ∀ hint ∈ "entry" :: "end" :: bodyHints, hint ≠ "ret" ∧
    endsInDigit ("%" ++ hint) = false := by
  decide

theorem exists_label {f : FuncId} {fn : Func} {bb : BlockId} (hfin : Coded m f fn)
    (hbb : bb ∈ fn.layout.toList) :
    ∃ hint ∈ "entry" :: "end" :: bodyHints, "%" ++ fn.blockName bb = numbered ("%" ++ hint) bb := by
  obtain ⟨hpos, hsize⟩ := hfin.bounds bb hbb
  obtain ⟨b, hb⟩ := Func.exists_block? hpos hsize
  obtain ⟨h₁, h₂, h₃⟩ := hfin.hints bb b hb
  refine ⟨b.name, ?_, ?_⟩
  · rcases Nat.lt_trichotomy bb 2 with hlt | heq | hlt
    · rw [h₁ (by lia)]
      exact List.mem_cons_self ..
    · rw [h₂ heq]
      exact List.mem_cons_of_mem _ (List.mem_cons_self ..)
    · exact List.mem_cons_of_mem _ (List.mem_cons_of_mem _ (h₃ hlt))
  · rw [Func.blockName, hb]
    simp [numbered, String.append_assoc, toString]

theorem Printer.baseName?_nameIn {scope : Scope Binding} (hready : Ready ⟨m, scope⟩)
    (hplain : m.Plain) :
    ∀ x ∈ m.globals.toList, m.baseName? x = some (nameIn m x) := by
  refine (named_globals hready.sound hplain).eq_base (globals_have_names hready)
    fun x hx y hy heq => ?_
  obtain ⟨name, c, hmem, hbase⟩ := baseName?_global hready hx
  obtain ⟨name', c', hmem', hbase'⟩ := baseName?_global hready hy
  obtain rfl :=
    (String.append_right_inj "@").mp (Option.some.inj (hbase.symm.trans (heq.trans hbase')))
  have hpair := List.inj_on_of_nodup_map hready.listed.nodup hmem hmem' rfl
  simp only [Prod.mk.injEq, Binding.var.injEq, true_and] at hpair
  exact hpair.1

theorem FuncDef.count_slots {d : FuncDef} (hnodup : (d.params.map (·.name)).Nodup)
    (hn : n ≠ "%ret") :
    (d.slots.map (·.2)).count n ≤ 1 := by
  have hret : ((if d.isVoid then [] else [((.alloc, "%ret") : Node × String)]).map (·.2)).count n =
    0 := by
    rw [List.count_eq_zero]
    split <;> simp [hn]
  have hparams : ((d.params.map (·.name)).map ("%" ++ ·)).Nodup := hnodup.map fun _ _ =>
    (String.append_right_inj "%").mp
  rw [List.map_map] at hparams
  rw [FuncDef.slots, List.map_append, List.count_append, hret, List.map_map, Nat.zero_add]
  exact List.nodup_iff_count_le_one.mp hparams n

theorem label_ne_ret {f : FuncId} {fn : Func} {bb : BlockId} (hfin : Coded m f fn)
    (hbb : bb ∈ fn.layout.toList) :
    "%" ++ fn.blockName bb ≠ "%ret" := by
  intro heq
  obtain ⟨hint, -, hlabel⟩ := exists_label hfin hbb
  have hmem := underscore_mem_numbered ("%" ++ hint) bb
  rw [← hlabel, heq] at hmem
  exact absurd hmem (by decide)

/-- Where the names of the values in the function `fn`, which was lowered from `d`, meet labels and
names of functions. -/
structure Meets (m : Module) (d : FuncDef) (fn : Func) : Prop where
  /-- Only a value that asks for the name of a label gets it, and it does. -/
  label : ∀ bb ∈ fn.layout, ∀ x ∈ m.globals.toList ++ fn.mentions m,
    nameIn m x = "%" ++ fn.blockName bb ↔ m.baseName? x = some ("%" ++ fn.blockName bb)
  /-- Such a value is defined exactly if a parameter is spelled like the label. -/
  slot : ∀ bb ∈ fn.layout, (∃ x ∈ fn.definitions m, nameIn m x = "%" ++ fn.blockName bb) ↔
    ∃ prm ∈ d.params, prm.name = fn.blockName bb
  /-- No global has the name of a function. -/
  global : ∀ g ∈ m.funcs, ∀ x ∈ m.globals, nameIn m x ≠ "@" ++ g.name
  /-- If a value asks for the name of a function, some value gets it. -/
  asked : ∀ g ∈ m.funcs, (∃ x ∈ fn.mentions m, m.baseName? x = some ("@" ++ g.name)) →
    ∃ x ∈ fn.mentions m, nameIn m x = "@" ++ g.name
  /-- A value that has the name of a function asks for it, or for a name that is taken and becomes
  it by a number. -/
  given : ∀ g ∈ m.funcs, ∀ x ∈ fn.mentions m, nameIn m x = "@" ++ g.name →
    ∃ b, m.baseName? x = some b ∧
    (b = "@" ++ g.name ∨ ∃ k, 1 ≤ k ∧ "@" ++ g.name = numbered b k ∧
      ∃ y ∈ m.globals.toList ++ fn.mentions m, y ≠ x ∧ nameIn m y = b)

section
variable {scope : Scope Binding} {f : FuncId} {fn : Func} {d : FuncDef} {bb : BlockId}

theorem exists_slot (hready : Ready ⟨m, scope⟩) (hfin : Finished m f fn)
    (hx : x ∈ m.globals.toList ++ fn.mentions m) (hb : m.baseName? x = some b)
    (hmarked : Marked b) :
    x ∈ fn.mentions m ∧ x ∉ m.globals.toList ∧ ∃ v, m.value? x = some v ∧ v.func = f ∧
    v.name = b := by
  have hlocal : x ∉ m.globals.toList := by
    intro hglobal
    obtain ⟨name, c, -, hbase⟩ := baseName?_global hready hglobal
    obtain rfl := Option.some.inj (hbase.symm.trans hb)
    exact not_marked_at name hmarked
  have hx := (List.mem_append.mp hx).resolve_left hlocal
  obtain ⟨v, hv, hfunc, -⟩ := (owned_of_mentions hready.sound hfin hx).resolve_left hlocal
  obtain ⟨w, hw, hname⟩ := Module.value?_of_marked hb hmarked
  obtain rfl := Option.some.inj (hv.symm.trans hw)
  exact ⟨hx, hlocal, v, hv, hfunc, hname⟩

theorem eq_of_marked (hready : Ready ⟨m, scope⟩) (hfin : Finished m f fn)
    (hslots : m.slots f = d.slots) (hnodup : (d.params.map (·.name)).Nodup) (hmarked : Marked b)
    (hret : b ≠ "%ret") (hx : x ∈ m.globals.toList ++ fn.mentions m)
    (hy : y ∈ m.globals.toList ++ fn.mentions m) (hxb : m.baseName? x = some b)
    (hyb : m.baseName? y = some b) : x = y := by
  obtain ⟨-, -, v, hv, rfl, rfl⟩ := exists_slot hready hfin hx hxb hmarked
  obtain ⟨-, -, w, hw, hfunc, hname⟩ := exists_slot hready hfin hy hyb hmarked
  exact Module.eq_of_slots (by rw [hslots]; exact FuncDef.count_slots hnodup hret) hmarked hv
    hw hfunc hname

/-- A value with a name that starts with a percent sign is local, and asks for none or for a marked
one. -/
theorem cases_of_marked (hready : Ready ⟨m, scope⟩) (hplain : m.Plain) (hfn : fn ∈ m.defined)
    (hx : x ∈ m.globals.toList ++ fn.mentions m) (hmarked : Marked (nameIn m x)) :
    (∃ k : Nat, nameIn m x = "%" ++ toString k) ∨ ∃ b, m.baseName? x = some b ∧ Marked b ∧
      (nameIn m x = b ∨ ∃ k, nameIn m x = numbered b k ∧
        ∃ y ∈ m.globals.toList ++ fn.mentions m, y ≠ x ∧ nameIn m y = b) := by
  have hlocal : x ∉ m.globals.toList := by
    intro hglobal
    obtain ⟨name, c, -, hbase⟩ := baseName?_global hready hglobal
    rw [Option.some.inj ((baseName?_nameIn hready hplain x hglobal).symm.trans hbase)] at hmarked
    exact not_marked_at name hmarked
  have hx := (List.mem_append.mp hx).resolve_left hlocal
  rcases (named_mentions hready hplain hfn).1.cases hx hlocal with ⟨-, hk⟩ | ⟨b, hb,
    heq | ⟨k, -, heq, hy⟩⟩
  · exact .inl hk
  · exact .inr ⟨b, hb, heq ▸ hmarked, .inl heq⟩
  · rw [heq] at hmarked
    exact .inr ⟨b, hb, (marked_numbered (Module.baseName?_ne_empty hb)).mp hmarked,
      .inr ⟨k, heq, hy⟩⟩

/-- A value has the name of a label exactly if it asks for it. -/
theorem nameIn_eq_label_iff (hready : Ready ⟨m, scope⟩) (hplain : m.Plain) (hfn : fn ∈ m.defined)
    (hfin : Finished m f fn) (hslots : m.slots f = d.slots) (hnodup : (d.params.map (·.name)).Nodup)
    (hbb : bb ∈ fn.layout.toList) (hx : x ∈ m.globals.toList ++ fn.mentions m) :
    nameIn m x = "%" ++ fn.blockName bb ↔ m.baseName? x = some ("%" ++ fn.blockName bb) := by
  obtain ⟨hint, hhint, hlabel⟩ := exists_label hfin.toCoded hbb
  obtain ⟨hret, hdigit⟩ := label_hints hint hhint
  have hmarked : Marked ("%" ++ fn.blockName bb) := marked_percent _
  have hnumber (name : String) (k : Nat) : "%" ++ hint ≠ name ++ toString k := by
    intro heq
    rw [heq, endsInDigit_append] at hdigit
    cases hdigit
  have hasks {x : ValueId} (hx : x ∈ m.globals.toList ++ fn.mentions m)
    (heq : nameIn m x = "%" ++ fn.blockName bb) :
      m.baseName? x = some ("%" ++ fn.blockName bb) := by
    rcases cases_of_marked hready hplain hfn hx (heq ▸ hmarked) with ⟨k, hk⟩ | ⟨b, hb, hbm,
      hself | ⟨k, hk, y, hy, hne, hyb⟩⟩
    · rw [heq, hlabel] at hk
      exact absurd hk (numbered_ne_percent _ bb k)
    · rw [hb, ← hself, heq]
    · -- then the hint alone would be the name of a second value that asks for it
      rw [heq, hlabel] at hk
      obtain ⟨rfl, rfl⟩ := numbered_inj hk
      rcases cases_of_marked hready hplain hfn hy (hyb ▸ hbm) with ⟨k, hk⟩ | ⟨b', hb', -,
        hself | ⟨k, hk, -⟩⟩
      · exact absurd (hyb.symm.trans hk) (hnumber "%" k)
      · rw [← hself, hyb] at hb'
        have hother : "%" ++ hint ≠ "%ret" := fun heq => hret ((String.append_right_inj "%").mp heq)
        exact absurd (eq_of_marked hready hfin hslots hnodup hbm hother hy hx hb' hb) hne
      · exact absurd (hyb.symm.trans hk) (hnumber (b' ++ "_") k)
  refine ⟨hasks hx, fun hb => ?_⟩
  obtain ⟨hmem, hlocal, -⟩ := exists_slot hready hfin hx hb hmarked
  obtain ⟨y, hy, hyb⟩ := (named_mentions hready hplain hfn).1.asked hmem hlocal hb
  rw [eq_of_marked hready hfin hslots hnodup hmarked (label_ne_ret hfin.toCoded hbb) hx hy hb
    (hasks hy hyb)]
  exact hyb

theorem exists_definition_iff (hfin : Finished m f fn) (hready : Ready ⟨m, scope⟩)
    (hslots : m.slots f = d.slots) (hbb : bb ∈ fn.layout.toList) :
    (∃ x ∈ fn.definitions m, m.baseName? x = some ("%" ++ fn.blockName bb)) ↔
      ∃ prm ∈ d.params, prm.name = fn.blockName bb := by
  constructor
  · rintro ⟨x, hx, hb⟩
    have hx :=
      List.mem_append_right m.globals.toList (mem_mentions_of_definitions hready.sound hfin hx)
    obtain ⟨-, -, v, hv, rfl, hname⟩ := exists_slot hready hfin hx hb (marked_percent _)
    have hmem := Module.mem_slots (Module.mem_values hv) (hname ▸ marked_percent _)
    rw [hslots, hname] at hmem
    rcases d.mem_slots hmem with ⟨-, hret⟩ | ⟨prm, hprm, heq⟩
    · exact absurd hret (label_ne_ret hfin.toCoded hbb)
    · exact ⟨prm, hprm, ((String.append_right_inj "%").mp heq).symm⟩
  · rintro ⟨prm, hprm, hname⟩
    have hmem : (.alloc, "%" ++ prm.name) ∈ m.slots f := by
      rw [hslots]
      exact List.mem_append_right _ (List.mem_map_of_mem hprm)
    obtain ⟨v, hv, heq⟩ := List.mem_map.mp hmem
    obtain ⟨hv, hfilter⟩ := List.mem_filter.mp hv
    obtain ⟨hnode, hvname⟩ := Prod.mk.inj heq
    obtain ⟨x, hx⟩ := Module.exists_value?_of_mem hv
    have hcode : x ∈ fn.code v.block :=
      hfin.own x v hx (of_decide_eq_true hfilter).1 (by simp [hnode])
    refine ⟨x,
      List.mem_append_right _ (List.mem_filter.mpr ⟨(Frame.mem_insts hfin).mpr ⟨_, hcode⟩, ?_⟩), ?_⟩
    · simp [hx, Value.isResult, hnode]
    · rw [← hname, ← hvname, Module.baseName?, hx]
      simp [Value.baseName?, hvname]

theorem nameIn_global_ne {g : Func} (hready : Ready ⟨m, scope⟩) (hplain : m.Plain)
    (hg : g ∈ m.funcs.toList) (hx : x ∈ m.globals.toList) : nameIn m x ≠ "@" ++ g.name := by
  intro heq
  obtain ⟨name, c, hmem, hbase⟩ := baseName?_global hready hx
  obtain ⟨i, hi⟩ := Module.exists_func?_of_mem hg
  rw [baseName?_nameIn hready hplain x hx, heq] at hbase
  obtain rfl := (String.append_right_inj "@").mp (Option.some.inj hbase)
  have hpair := List.inj_on_of_nodup_map hready.listed.nodup (hready.listed.funcs i g hi) hmem rfl
  simp at hpair

end

/-- A value has the name of a label of its function exactly if it is the slot of a parameter that is
spelled like the label. It has the name of a function only if it asks for it, or comes to it by a
number. -/
theorem names_meet {p : Program} (hp : p.Spelled) (hlower : p.lower = .ok m) :
    m.text = m.textUnder (nameIn m) ∧
    ∀ fn ∈ m.defined, ∃ span d, .func span d ∈ p.items ∧ d.name = fn.name ∧ Meets m d fn := by
  obtain ⟨scope, hready⟩ := ready_of_lower hlower
  have hplain := (spelled_of_lower hp hlower).plain
  refine ⟨text_eq_textUnder hready.sound, fun fn hfn => ?_⟩
  obtain ⟨f, hfin⟩ := Assembly.exists_finished hready.sound hfn
  obtain ⟨hnamed, -⟩ := named_mentions hready hplain hfn
  rcases slotted_of_lower hlower f with ⟨-, hempty⟩ | ⟨span, d, fn', hitem, hfound, hname,
    hslots, hnodup⟩
  · have hfirst := hfin.first
    rw [hempty fn hfin.found] at hfirst
    cases hfirst
  obtain rfl := Option.some.inj (hfin.found.symm.trans hfound)
  have hlabel (bb : BlockId) (hbb : bb ∈ fn.layout) (x : ValueId)
    (hx : x ∈ m.globals.toList ++ fn.mentions m) :
      nameIn m x = "%" ++ fn.blockName bb ↔ m.baseName? x = some ("%" ++ fn.blockName bb) :=
    nameIn_eq_label_iff hready hplain hfn hfin hslots hnodup (Array.mem_toList_iff.mpr hbb) hx
  have hglobal (g : Func) (hg : g ∈ m.funcs) (x : ValueId) (hx : x ∈ m.globals.toList) :
    nameIn m x ≠ "@" ++ g.name :=
    nameIn_global_ne hready hplain (Array.mem_toList_iff.mpr hg) hx
  refine ⟨span, d, hitem, hname.symm, hlabel, fun bb hbb => ?_, fun g hg x hx => hglobal g hg x
    (Array.mem_toList_iff.mpr hx),
    fun g hg => ?_, fun g hg x hx heq => ?_⟩
  · rw [← exists_definition_iff hfin hready hslots (Array.mem_toList_iff.mpr hbb)]
    refine exists_congr fun x => and_congr_right fun hx => hlabel bb hbb x ?_
    exact List.mem_append_right _ (mem_mentions_of_definitions hready.sound hfin hx)
  · rintro ⟨x, hx, hb⟩
    have hlocal : x ∉ m.globals.toList := fun hmem =>
      hglobal g hg x hmem (Option.some.inj ((baseName?_nameIn hready hplain x hmem).symm.trans hb))
    obtain ⟨y, hy, hyb⟩ := hnamed.asked hx hlocal hb
    exact ⟨y, (List.mem_append.mp hy).resolve_left fun hmem => hglobal g hg y hmem hyb, hyb⟩
  · rcases hnamed.cases hx (fun hmem => hglobal g hg x hmem heq) with ⟨-, k, hk⟩ | ⟨b, hb,
      hself | ⟨k, hk, hnumber, hy⟩⟩
    · have hmarked : Marked ("@" ++ g.name) := heq ▸ hk ▸ marked_percent _
      exact absurd hmarked (not_marked_at _)
    · exact ⟨b, hb, .inl (hself.symm.trans heq)⟩
    · exact ⟨b, hb, .inr ⟨k, hk, heq.symm.trans hnumber, hy⟩⟩

/-- A parameter is spelled like a label, and a local like a function. -/
def meetSample : Bytes := Bytes.ofString "int f(int bb_3) \x7b int f = 1; return bb_3; \x7d"

def itemParams : Item → List String
  | .func _ d => d.params.map (·.name)
  | .decl _ _ => []

theorem names_meet_meetSample : ∃ m, (parse 0 0 (lexemes 0 meetSample)).errors = 0 ∧
    (parse 0 0 (lexemes 0 meetSample)).program.lower = .ok m ∧
    m.defined.map (fun fn => fn.layout.toList.map fn.blockName) = [["entry_1", "bb_3", "end_2"]] ∧
    ∀ fn ∈ m.defined, ∃ d, Meets m d fn ∧ d.params.map (·.name) = ["bb_3"] := by
  have herrors : (parse 0 0 (lexemes 0 meetSample)).errors = 0 := by decide +kernel
  obtain ⟨m, hm⟩ : ∃ m, (parse 0 0 (lexemes 0 meetSample)).program.lower = .ok m :=
    exists_of_isOk (by decide +kernel)
  have hlabels : (parse 0 0 (lexemes 0 meetSample)).program.lower.toOption.map
      (·.defined.map fun fn => fn.layout.toList.map fn.blockName) =
        some [["entry_1", "bb_3", "end_2"]] := by decide +kernel
  have hparams : (parse 0 0 (lexemes 0 meetSample)).program.items.map itemParams = [["bb_3"]] :=
    by decide +kernel
  rw [hm] at hlabels
  obtain ⟨-, hfuncs⟩ := names_meet (Parser.spelled_of_parse herrors) hm
  refine ⟨m, herrors, hm, Option.some.inj hlabels, fun fn hfn => ?_⟩
  obtain ⟨span, d, hitem, -, hmeets⟩ := hfuncs fn hfn
  have hmem := List.mem_map_of_mem (f := itemParams) hitem
  rw [hparams] at hmem
  exact ⟨d, hmeets, List.mem_singleton.mp hmem⟩

def anyName (p : Module → Func → String → Bool) (content : Bytes) : Bool :=
  (parse 0 0 (lexemes 0 content)).program.lower.toOption.any fun m => m.defined.any fun fn =>
    (m.globals.toList ++ fn.definitions m).any fun x => p m fn (nameIn m x)

theorem of_anyName {p : Module → Func → String → Bool} {content : Bytes}
    (h : anyName p content = true) :
    ∃ m, (parse 0 0 (lexemes 0 content)).program.lower = .ok m ∧ ∃ fn ∈ m.defined,
      ∃ x ∈ m.globals.toList ++ fn.definitions m, p m fn (nameIn m x) = true := by
  unfold anyName at h
  cases hm : (parse 0 0 (lexemes 0 content)).program.lower with
  | error e =>
    rw [hm] at h
    cases h
  | ok m =>
    rw [hm] at h
    obtain ⟨fn, hfn, h⟩ := List.any_eq_true.mp h
    obtain ⟨x, hx, h⟩ := List.any_eq_true.mp h
    exact ⟨m, rfl, fn, hfn, x, hx, h⟩

/-- The name of a value may be that of a label of its function, and it may be that of a function. -/
theorem not_forall_names_apart :
    (¬ ∀ (content : Bytes) (m : Module), (parse 0 0 (lexemes 0 content)).errors = 0 →
      (parse 0 0 (lexemes 0 content)).program.lower = .ok m → ∀ fn ∈ m.defined, ∀ bb ∈ fn.layout,
        ∀ x ∈ m.globals.toList ++ fn.definitions m, nameIn m x ≠ "%" ++ fn.blockName bb) ∧
    ¬ ∀ (content : Bytes) (m : Module), (parse 0 0 (lexemes 0 content)).errors = 0 →
      (parse 0 0 (lexemes 0 content)).program.lower = .ok m → ∀ fn ∈ m.defined, ∀ g ∈ m.funcs,
        ∀ x ∈ m.globals.toList ++ fn.definitions m, nameIn m x ≠ "@" ++ g.name := by
  have herrors : (parse 0 0 (lexemes 0 meetSample)).errors = 0 := by decide +kernel
  constructor <;> intro hapart
  · have hany : anyName (fun _ fn n => fn.layout.any fun bb => n == "%" ++ fn.blockName bb)
      meetSample = true := by
      decide +kernel
    obtain ⟨m, hm, fn, hfn, x, hx, h⟩ := of_anyName hany
    obtain ⟨bb, hbb, h⟩ := Array.any_eq_true'.mp h
    exact hapart meetSample m herrors hm fn hfn bb hbb x hx (beq_iff_eq.mp h)
  · have hany : anyName (fun m _ n => m.funcs.any fun g => n == "@" ++ g.name) meetSample = true :=
      by decide +kernel
    obtain ⟨m, hm, fn, hfn, x, hx, h⟩ := of_anyName hany
    obtain ⟨g, hg, h⟩ := Array.any_eq_true'.mp h
    exact hapart meetSample m herrors hm fn hfn g hg x hx (beq_iff_eq.mp h)

end Sysy.Ir
