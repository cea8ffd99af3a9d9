import Sysy.Proofs.Ir.Extension
import Sysy.Proofs.Lowering.Constants

/-!
How the body of a function grows. `Step` lists all that lowering a statement or an expression ever
does to the module, with what holds when it does so, and `Body` is what every such step keeps.
-/

namespace Sysy.Lowering
open Ir

def bodyHints : List String :=
  ["bb", "then", "if_end", "else", "while_cond", "while_body", "while_end", "land_rhs", "land_end",
   "lor_rhs", "lor_end"]

inductive Step (f : FuncId) (m : Module) : Module → Prop
  /-- A constant belongs to no function. -/
  | constant (w : Word) : Step f m (m.add { node := .integer w, ty := .i32 }).2
  /-- Instructions go to the current block, and locals to the entry. -/
  | inst {fn : Func} {v : Value} (hf : m.func? f = some fn) (hfunc : v.func = f)
      (htakes : Build.Takes m f v.block) (hblock : v.block = fn.current ∨ v.node = .alloc)
      (hok : InstOk m f fn v.block v.node v.ty) : Step f m (m.close f v)
  | label {fn : Func} (hf : m.func? f = some fn) {name : String} (hname : name ∈ bodyHints) :
      Step f m (m.modifyFunc f fun fn => (fn.addBlock name).2)
  /-- A block is opened when the current one is finished. -/
  | start {fn : Func} {bb : BlockId} (hf : m.func? f = some fn)
      (hended : m.Ended (fn.code fn.current) = true)
      (hbb : 0 < bb) (hsize : bb ≤ fn.blocks.size) (hplaced : bb ∉ fn.layout.toList)
        (hexit : bb ≠ fn.exit) :
      Step f m (m.modifyFunc f (·.start bb))

abbrev Grows (f : FuncId) : Module → Module → Prop := Relation.ReflTransGen (Step f)

/-- The code of a function, as far as it is made: only blocks of the layout have code, everything in
them may stand there, and the jumps between them are recorded. -/
structure Coded (m : Module) (f : FuncId) (fn : Func) : Prop where
  found : m.func? f = some fn
  ident : fn.id = f
  entry : fn.entry = 1
  exit : fn.exit = 2
  blocks : 2 ≤ fn.blocks.size
  nodup : fn.layout.toList.Nodup
  first : fn.layout.toList.head? = some 1
  bounds : ∀ bb ∈ fn.layout.toList, 0 < bb ∧ bb ≤ fn.blocks.size
  empty : ∀ bb, bb ∉ fn.layout.toList → fn.code bb = []
  sorted : ∀ bb, (fn.code bb).Pairwise (· < ·)
  straight : ∀ bb, ∀ id ∈ (fn.code bb).dropLast, ∀ v, m.value? id = some v →
    v.node.isTerminator = false
  inst : ∀ bb, ∀ id ∈ fn.code bb, ∃ v, m.value? id = some v ∧ v.func = f ∧ v.block = bb ∧
    InstOk m f fn bb v.node v.ty
  own : ∀ id v, m.value? id = some v → v.func = f → (∀ i, v.node ≠ .arg i) → id ∈ fn.code v.block
  jumps : ∀ bb id, (bb, id) ∈ fn.jumps ↔ ∃ v b, m.value? id = some v ∧ id ∈ fn.code b ∧
    bb ∈ v.node.successors
  hints : ∀ bb b, fn.block? bb = some b →
    (bb = 1 → b.name = "entry") ∧ (bb = 2 → b.name = "end") ∧ (2 < bb → b.name ∈ bodyHints)

namespace Coded
variable {m m' : Module} {f bb : Nat} {fn : Func}

theorem defined (h : Coded m f fn) {id : Nat} (hid : id ∈ fn.code bb) :
    ∃ v, m.value? id = some v := by
  obtain ⟨v, hv, -⟩ := h.inst bb id hid
  exact ⟨v, hv⟩

theorem ended_eq (h : Coded m f fn) (he : Extends m m') (bb : Nat) :
    m'.Ended (fn.code bb) = m.Ended (fn.code bb) :=
  Module.ended_of_extends he fun _ hid => h.defined hid

theorem takes_iff (h : Coded m f fn) (hb : 0 < bb) (hsize : bb ≤ fn.blocks.size) :
    Build.Takes m f bb ↔ m.Ended (fn.code bb) = false := by
  obtain ⟨b, hb⟩ := Func.exists_block? hb hsize
  rw [Func.code_eq hb, ← Module.isTerminated_eq]
  constructor
  · rintro ⟨fn', b', hf, hb', ht⟩
    obtain rfl : fn = fn' := Option.some.inj (h.found.symm.trans hf)
    obtain rfl : b = b' := Option.some.inj (hb.symm.trans hb')
    exact ht
  · exact fun ht => ⟨fn, b, h.found, hb, ht⟩

/-- What is added later is not in the code. -/
theorem value_of_extends (h : Coded m f fn) (he : Extends m m') {id : Nat} {w : Value}
    (hid : id ∈ fn.code bb) (hw : m'.value? id = some w) : m.value? id = some w := by
  obtain ⟨w', hw'⟩ := h.defined hid
  rwa [hw', ← he.value hw']

theorem inst_extends (h : Coded m f fn) {fn' : Func} (he : Extends m m') (hb : fn.Before fn')
    {id : Nat} (hid : id ∈ fn.code bb) :
    ∃ v, m'.value? id = some v ∧ v.func = f ∧ v.block = bb ∧ InstOk m' f fn' bb v.node v.ty := by
  obtain ⟨v, hv, hfunc, hblock, hok⟩ := h.inst bb id hid
  exact ⟨v, he.value hv, hfunc, hblock, he.instOk hb hok⟩

theorem plain_of_open (h : Coded m f fn) (hopen : m.Ended (fn.code bb) = false) {id : Nat}
    {w : Value} (hid : id ∈ fn.code bb) (hw : m.value? id = some w) :
    w.node.isTerminator = false := by
  rcases List.eq_nil_or_concat (fn.code bb) with hnil | ⟨init, last, hcode⟩
  · rw [hnil] at hid
    cases hid
  · rw [List.concat_eq_append] at hcode
    have hinit : id ∈ init → w.node.isTerminator = false := fun hmem =>
      h.straight bb id (by rw [hcode, List.dropLast_concat]; exact hmem) w hw
    rw [hcode, List.mem_append, List.mem_singleton] at hid
    rcases hid with hid | rfl
    · exact hinit hid
    · rwa [hcode, Module.ended_append hw] at hopen

theorem elsewhere (h : Coded m f fn) (he : Extends m m') (hfound : m'.func? f = some fn)
    (hnew : ∀ id v, m'.value? id = some v → v.func = f → m.value? id = some v) : Coded m' f fn := by
  refine { h with
    found := hfound
    straight := fun bb id hid w hw =>
      h.straight bb id hid w (h.value_of_extends he (List.mem_of_mem_dropLast hid) hw)
    inst := fun bb id hid => h.inst_extends he (.refl _) hid
    own := fun id w hw hfunc harg => h.own id w (hnew id w hw hfunc) hfunc harg
    jumps := fun bb id => ?_ }
  rw [h.jumps]
  constructor
  · rintro ⟨w, b, hw, hid, hsucc⟩
    exact ⟨w, b, he.value hw, hid, hsucc⟩
  · rintro ⟨w, b, hw, hid, hsucc⟩
    exact ⟨w, b, h.value_of_extends he hid hw, hid, hsucc⟩

theorem add (h : Coded m f fn) {v : Value} (hv : v.func ≠ f) : Coded (m.add v).2 f fn := by
  refine h.elsewhere (Extends.add m v) h.found fun id w hw hfunc => ?_
  rw [Module.value?_add] at hw
  split at hw
  · obtain rfl := Option.some.inj hw
    exact absurd hfunc hv
  · exact hw

theorem label (h : Coded m f fn) {name : String} (hname : name ∈ bodyHints) :
    Coded (m.modifyFunc f fun fn => (fn.addBlock name).2) f (fn.addBlock name).2 := by
  have hb : fn.Before (fn.addBlock name).2 := Func.before_addBlock name
  have he : Extends m _ := Extends.modifyFunc h.found (fun fn => (fn.addBlock name).2) hb
  have hsize : (fn.addBlock name).2.blocks.size = fn.blocks.size + 1 := by simp [Func.addBlock]
  refine { h with
    found := by
      rw [Module.func?_modifyFunc _ _ (Module.bounds_of_func? h.found).1, if_pos rfl, h.found]
      rfl
    blocks := by have := h.blocks; lia
    bounds := fun bb hbb => by have := h.bounds bb hbb; lia
    empty := fun bb hbb => by rw [Func.code_addBlock]; exact h.empty bb hbb
    sorted := fun bb => by rw [Func.code_addBlock]; exact h.sorted bb
    straight := fun bb id hid => by rw [Func.code_addBlock] at hid; exact h.straight bb id hid
    inst := fun bb id hid => by rw [Func.code_addBlock] at hid; exact h.inst_extends he hb hid
    own := fun id w hw hfunc harg => by rw [Func.code_addBlock]; exact h.own id w hw hfunc harg
    jumps := fun bb id => ?_
    hints := fun bb b hbb => ?_ }
  · simp only [Func.code_addBlock]
    exact h.jumps bb id
  · rw [Func.block?_addBlock] at hbb
    have hblocks := h.blocks
    split at hbb
    · obtain rfl := Option.some.inj hbb
      exact ⟨fun _ => by lia, fun _ => by lia, fun _ => hname⟩
    · exact h.hints bb b hbb

theorem layout_start : (fn.start bb).layout.toList = fn.layout.toList ++ [bb] := by
  simp [Func.start, Func.place]

theorem start (h : Coded m f fn) (hbb : 0 < bb) (hsize : bb ≤ fn.blocks.size)
    (hplaced : bb ∉ fn.layout.toList) : Coded (m.modifyFunc f (·.start bb)) f (fn.start bb) := by
  have he : Extends m _ := Extends.modifyFunc h.found (·.start bb) Func.before_start
  refine { h with
    found := by
      rw [Module.func?_modifyFunc _ _ (Module.bounds_of_func? h.found).1, if_pos rfl, h.found]
      rfl
    nodup := by
      rw [layout_start]
      exact List.nodup_append.mpr ⟨h.nodup, by simp, by
        rintro x hx y hy rfl
        exact hplaced (List.mem_singleton.mp hy ▸ hx)⟩
    first := by rw [layout_start, List.head?_append, h.first]; rfl
    bounds := fun x hx => ?_
    empty := fun x hx => h.empty x fun hmem =>
      hx (by rw [layout_start]; exact List.mem_append_left _ hmem)
    inst := fun x id hid => h.inst_extends he Func.before_start hid }
  rw [layout_start, List.mem_append, List.mem_singleton] at hx
  rcases hx with hx | rfl
  · exact h.bounds x hx
  · exact ⟨hbb, hsize⟩

theorem code_close {v : Value} (id : Nat) (htakes : Build.Takes m f v.block)
    (h : m.func? f = some fn) (x : Nat) :
    ((fn.push v.block id).record v.node.successors id).code x =
      if x = v.block then fn.code x ++ [id] else fn.code x := by
  obtain ⟨fn', b, hf', hb, -⟩ := htakes
  obtain rfl := Option.some.inj (h.symm.trans hf')
  rw [Func.code_record, Func.code_push hb]

theorem mem_code_close {v : Value} {id new : Nat} (htakes : Build.Takes m f v.block)
    (h : m.func? f = some fn) (x : Nat) :
    id ∈ ((fn.push v.block new).record v.node.successors new).code x ↔ id ∈ fn.code x ∨
    x = v.block ∧ id = new := by
  rw [code_close new htakes h]
  split <;> simp [*]

/-- The heart of the growth: an instruction at the end of a block that takes it. -/
theorem close (h : Coded m f fn) {v : Value} (hfunc : v.func = f) (htakes : Build.Takes m f v.block)
    (hplaced : v.block ∈ fn.layout.toList) (hok : InstOk m f fn v.block v.node v.ty) :
    Coded (m.close f v) f
      ((fn.push v.block (m.values.size + 1)).record v.node.successors (m.values.size + 1)) := by
  have hcode (x : Nat) := code_close (m.values.size + 1) htakes h.found x
  have hmem {id : Nat} (x : Nat) : id ∈ Func.code _ x ↔ id ∈ fn.code x ∨ x = v.block ∧
    id = m.values.size + 1 :=
    mem_code_close htakes h.found x
  have hopen := (h.takes_iff (h.bounds _ hplaced).1 (h.bounds _ hplaced).2).mp htakes
  obtain ⟨fn', b, hf', hb, -⟩ := htakes
  obtain rfl : fn = fn' := Option.some.inj (h.found.symm.trans hf')
  have he : Extends m (m.close f v) := Extends.close h.found hb
  have hbefore : fn.Before ((fn.push v.block (m.values.size + 1)).record v.node.successors
      (m.values.size + 1)) := (Func.before_push hb).trans (Func.before_record _)
  have hnew : (m.close f v).value? (m.values.size + 1) = some v := by
    rw [Module.value?_close, if_pos rfl]
  refine { h with
    found := by rw [Module.func?_close _ _ h.found, if_pos rfl]
    blocks := by simpa [Func.record] using h.blocks
    bounds := fun x hx => by simpa [Func.record] using h.bounds x hx
    empty := fun x hx => ?_
    sorted := fun x => ?_
    straight := fun x id hid w hw => ?_
    inst := fun x id hid => ?_
    own := fun id w hw hwf harg => ?_
    jumps := fun x id => ?_
    hints := fun x c hc => ?_ }
  · have hne : x ≠ v.block := fun heq => hx (by rw [heq]; exact hplaced)
    rw [hcode, if_neg hne]
    exact h.empty x hx
  · rw [hcode]
    split
    · refine List.pairwise_append.mpr ⟨h.sorted x, List.pairwise_singleton _ _,
        fun id hid last hlast => ?_⟩
      obtain ⟨w, hw⟩ := h.defined hid
      have hbounds := Module.bounds_of_value? hw
      have hlast' := List.mem_singleton.mp hlast
      lia
    · exact h.sorted x
  · rw [hcode] at hid
    split at hid
    · rename_i heq
      rw [List.dropLast_concat] at hid
      exact h.plain_of_open (heq ▸ hopen) hid (h.value_of_extends he hid hw)
    · exact h.straight x id hid w (h.value_of_extends he (List.mem_of_mem_dropLast hid) hw)
  · rcases (hmem x).mp hid with hid | ⟨rfl, rfl⟩
    · exact h.inst_extends he hbefore hid
    · exact ⟨v, hnew, hfunc, rfl, he.instOk hbefore hok⟩
  · rw [hmem]
    rw [Module.value?_close] at hw
    split at hw
    · rename_i hid
      exact .inr ⟨congrArg Value.block (Option.some.inj hw).symm, hid⟩
    · exact .inl (h.own id w hw hwf harg)
  · have hjumps : (x, id) ∈ ((fn.push v.block (m.values.size + 1)).record v.node.successors
        (m.values.size + 1)).jumps ↔
          (x, id) ∈ fn.jumps ∨ x ∈ v.node.successors ∧ id = m.values.size + 1 := by
      simp [Func.record, Func.push, eq_comm]
    rw [hjumps, h.jumps]
    simp only [hmem]
    constructor
    · rintro (⟨w, y, hw, hid, hx⟩ | ⟨hx, rfl⟩)
      · exact ⟨w, y, he.value hw, .inl hid, hx⟩
      · exact ⟨v, v.block, hnew, .inr ⟨rfl, rfl⟩, hx⟩
    · rintro ⟨w, y, hw, hid | ⟨-, rfl⟩, hx⟩
      · exact .inl ⟨w, y, h.value_of_extends he hid hw, hid, hx⟩
      · obtain rfl := Option.some.inj (hnew.symm.trans hw)
        exact .inr ⟨hx, rfl⟩
  · rw [Func.block?_record, Func.block?_push _ _ (Func.bounds_of_block? hb).1] at hc
    split at hc
    · obtain ⟨c', hc', rfl⟩ := Option.map_eq_some_iff.mp hc
      exact h.hints x c' hc'
    · exact h.hints x c hc

end Coded

/-- The state of a function while its body is lowered. Every block of the layout is finished, other
than the entry and the current one. -/
structure Body (m : Module) (f : FuncId) (fn : Func) : Prop extends Coded m f fn where
  open_exit : 2 ∉ fn.layout.toList
  current : fn.current ∈ fn.layout.toList
  current_ne : fn.current ≠ 1
  closed : ∀ bb ∈ fn.layout.toList, bb ≠ 1 → bb ≠ fn.current → m.Ended (fn.code bb) = true
  entry_open : m.Ended (fn.code 1) = false

namespace Body
variable {m m' : Module} {f bb : Nat} {fn : Func}

theorem add (h : Body m f fn) {v : Value} (hv : v.func ≠ f) : Body (m.add v).2 f fn := by
  have he := Extends.add m v
  exact { h.toCoded.add hv with
    open_exit := h.open_exit
    current := h.current
    current_ne := h.current_ne
    closed := fun bb hbb hne hcur => by rw [h.ended_eq he]; exact h.closed bb hbb hne hcur
    entry_open := by rw [h.ended_eq he]; exact h.entry_open }

theorem label (h : Body m f fn) {name : String} (hname : name ∈ bodyHints) :
    Body (m.modifyFunc f fun fn => (fn.addBlock name).2) f (fn.addBlock name).2 := by
  have he : Extends m _ :=
    Extends.modifyFunc h.found (fun fn => (fn.addBlock name).2) (Func.before_addBlock name)
  exact { h.toCoded.label hname with
    open_exit := h.open_exit
    current := h.current
    current_ne := h.current_ne
    closed := fun bb hbb hne hcur => by
      rw [Func.code_addBlock, h.ended_eq he]
      exact h.closed bb hbb hne hcur
    entry_open := by rw [Func.code_addBlock, h.ended_eq he]; exact h.entry_open }

theorem start (h : Body m f fn) (hended : m.Ended (fn.code fn.current) = true) (hbb : 0 < bb)
    (hsize : bb ≤ fn.blocks.size) (hplaced : bb ∉ fn.layout.toList) (hexit : bb ≠ fn.exit) :
    Body (m.modifyFunc f (·.start bb)) f (fn.start bb) := by
  have hne : bb ≠ 1 := by
    rintro rfl
    exact hplaced (List.mem_of_mem_head? h.first)
  refine { h.toCoded.start hbb hsize hplaced with
    open_exit := ?_
    current :=
      by rw [Coded.layout_start]; exact List.mem_append_right _ (List.mem_singleton.mpr rfl)
    current_ne := hne
    closed := fun x hx hx1 hcur => ?_
    entry_open := h.entry_open }
  · rw [Coded.layout_start, List.mem_append, List.mem_singleton, ← h.exit]
    rintro (hmem | heq)
    · exact h.open_exit (h.exit ▸ hmem)
    · exact hexit heq.symm
  · rw [Coded.layout_start, List.mem_append, List.mem_singleton] at hx
    rcases hx with hx | rfl
    · by_cases hxc : x = fn.current
      · subst hxc
        exact hended
      · exact h.closed x hx hx1 hxc
    · exact absurd rfl hcur

theorem close (h : Body m f fn) {v : Value} (hfunc : v.func = f) (htakes : Build.Takes m f v.block)
    (hblock : v.block = fn.current ∨ v.node = .alloc) (hok : InstOk m f fn v.block v.node v.ty) :
    Body (m.close f v) f
      ((fn.push v.block (m.values.size + 1)).record v.node.successors (m.values.size + 1)) := by
  have hplaced : v.block ∈ fn.layout.toList := by
    rcases hblock with hcur | hnode
    · rw [hcur]; exact h.current
    · have hbb : v.block = fn.entry := (hnode ▸ hok).block_of_alloc
      rw [hbb, h.entry]
      exact List.mem_of_mem_head? h.first
  have hcode (x : Nat) := Coded.code_close (m.values.size + 1) htakes h.found x
  have hnew : (m.close f v).value? (m.values.size + 1) = some v := by
    rw [Module.value?_close, if_pos rfl]
  have he : Extends m (m.close f v) := by
    obtain ⟨fn', b, hf', hb, -⟩ := htakes
    exact Extends.close hf' hb
  refine { h.toCoded.close hfunc htakes hplaced hok with
    open_exit := h.open_exit
    current := h.current
    current_ne := h.current_ne
    closed := fun x hx hx1 hcur => ?_
    entry_open := ?_ }
  · rw [hcode]
    split
    · rename_i heq
      rcases hblock with hb' | hnode
      · exact absurd (heq.trans hb') hcur
      · exact absurd (heq.trans ((hnode ▸ hok).block_of_alloc.trans h.entry)) hx1
    · rw [h.ended_eq he]
      exact h.closed x hx hx1 hcur
  · rw [hcode]
    split
    · rename_i heq
      rw [Module.ended_append hnew]
      rcases hblock with hb' | hnode
      · exact absurd (hb'.symm.trans heq.symm) h.current_ne
      · rw [hnode]; rfl
    · rw [h.ended_eq he]
      exact h.entry_open

theorem step (h : Body m f fn) (hs : Step f m m') : ∃ fn', Body m' f fn' ∧ fn.Before fn' := by
  cases hs with
  | constant w => exact ⟨fn, h.add (Nat.ne_of_lt (Module.bounds_of_func? h.found).1), .refl _⟩
  | inst hf hfunc htakes hblock hok =>
    obtain rfl := Option.some.inj (h.found.symm.trans hf)
    have hb := h.close hfunc htakes hblock hok
    obtain ⟨_, b, hf', hb', -⟩ := htakes
    obtain rfl := Option.some.inj (hf.symm.trans hf')
    exact ⟨_, hb, (Func.before_push hb').trans (Func.before_record _)⟩
  | label hf hname => exact ⟨_, h.label hname, Func.before_addBlock _⟩
  | start hf hended hbb hsize hplaced hexit =>
    obtain rfl := Option.some.inj (h.found.symm.trans hf)
    exact ⟨_, h.start hended hbb hsize hplaced hexit, Func.before_start⟩

theorem grows (h : Body m f fn) (hg : Grows f m m') : ∃ fn', Body m' f fn' ∧ fn.Before fn' := by
  induction hg with
  | refl => exact ⟨fn, h, .refl _⟩
  | tail _ hs ih =>
    obtain ⟨fn₁, h₁, hb₁⟩ := ih
    obtain ⟨fn₂, h₂, hb₂⟩ := h₁.step hs
    exact ⟨fn₂, h₂, hb₁.trans hb₂⟩

end Body

theorem Step.extends {m m' : Module} {f : Nat} (hs : Step f m m') : Extends m m' := by
  cases hs with
  | constant w => exact Extends.add _ _
  | inst hf _ htakes _ _ =>
    obtain ⟨_, b, hf', hb, -⟩ := htakes
    exact Extends.close hf' hb
  | label hf _ => exact Extends.modifyFunc hf _ (Func.before_addBlock _)
  | start hf _ _ _ _ _ => exact Extends.modifyFunc hf _ Func.before_start

theorem Grows.extends {m m' : Module} {f : Nat} (hg : Grows f m m') : Extends m m' := by
  induction hg with
  | refl => exact Extends.refl _
  | tail _ hs ih => exact ih.trans hs.extends

end Sysy.Lowering
