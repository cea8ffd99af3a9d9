import Sysy.Proofs.Ir.Typing

/-!
Modules that grow. What is built stays: values keep their numbers, functions their signatures, and
blocks only get longer. So everything that was readable or well typed stays so.
-/

namespace Sysy.Ir

/-- The instructions of a block; a block that is not there has none. -/
def Func.code (fn : Func) (bb : BlockId) : List ValueId :=
  ((fn.block? bb).map (·.insts.toList)).getD []

def Module.Ended (m : Module) (ids : List ValueId) : Bool :=
  match ids.getLast? with
  | none => false
  | some id => ((m.node? id).map (·.isTerminator)).getD false

namespace Func
variable {fn : Func} {bb x id : Nat} {b : Block}

theorem code_eq (h : fn.block? bb = some b) : fn.code bb = b.insts.toList := by simp [code, h]

theorem code_push (h : fn.block? bb = some b) :
    (fn.push bb id).code x = if x = bb then fn.code x ++ [id] else fn.code x := by
  rw [code, block?_push _ _ (bounds_of_block? h).1]
  split
  · rename_i hx
    subst hx
    simp [code, h]
  · rfl

theorem code_addBlock (name : String) : (fn.addBlock name).2.code x = fn.code x := by
  rw [code, block?_addBlock]
  split
  · rename_i hx
    have hnone : fn.block? x = none := by
      rw [Option.eq_none_iff_forall_ne_some]
      intro b hb
      have := bounds_of_block? hb
      omega
    simp [code, hnone]
  · rfl

@[simp] theorem code_start : (fn.start bb).code x = fn.code x := rfl

@[simp] theorem code_record (targets : List BlockId) :
    (fn.record targets id).code x = fn.code x := rfl

/-- The same function later: with the same signature, and no code lost. -/
structure Before (fn fn' : Func) : Prop where
  id : fn'.id = fn.id
  name : fn'.name = fn.name
  params : fn'.params = fn.params
  ret : fn'.ret = fn.ret
  args : fn'.args = fn.args
  entry : fn'.entry = fn.entry
  exit : fn'.exit = fn.exit
  size : fn.blocks.size ≤ fn'.blocks.size
  code : ∀ bb, fn.code bb <+: fn'.code bb

theorem Before.refl (fn : Func) : fn.Before fn :=
  ⟨rfl, rfl, rfl, rfl, rfl, rfl, rfl, le_rfl, fun _ => List.prefix_rfl⟩

theorem Before.trans {fn₁ fn₂ fn₃ : Func} (h : fn₁.Before fn₂) (h' : fn₂.Before fn₃) :
    fn₁.Before fn₃ :=
  ⟨h'.id.trans h.id, h'.name.trans h.name, h'.params.trans h.params, h'.ret.trans h.ret,
    h'.args.trans h.args, h'.entry.trans h.entry, h'.exit.trans h.exit, h.size.trans h'.size,
    fun bb => (h.code bb).trans (h'.code bb)⟩

theorem before_push (h : fn.block? bb = some b) : fn.Before (fn.push bb id) := by
  refine ⟨rfl, rfl, rfl, rfl, rfl, rfl, rfl, by simp, fun x => ?_⟩
  rw [code_push h]
  split
  · exact List.prefix_append _ _
  · exact List.prefix_rfl

theorem before_addBlock (name : String) : fn.Before (fn.addBlock name).2 := by
  refine ⟨rfl, rfl, rfl, rfl, rfl, rfl, rfl, by simp [addBlock], fun x => ?_⟩
  rw [code_addBlock]

theorem before_start : fn.Before (fn.start bb) :=
  ⟨rfl, rfl, rfl, rfl, rfl, rfl, rfl, le_rfl, fun _ => List.prefix_rfl⟩

theorem before_record (targets : List BlockId) : fn.Before (fn.record targets id) :=
  ⟨rfl, rfl, rfl, rfl, rfl, rfl, rfl, le_rfl, fun _ => List.prefix_rfl⟩

end Func

structure Extends (m m' : Module) : Prop where
  value : ∀ {id v}, m.value? id = some v → m'.value? id = some v
  func : ∀ {g fn}, m.func? g = some fn → ∃ fn', m'.func? g = some fn' ∧ fn.Before fn'

namespace Extends
variable {m m' m'' : Module} {f id : Nat} {fn fn' : Func} {ty : Ty} {node : Node} {v : Value}

theorem refl (m : Module) : Extends m m := ⟨fun h => h, fun h => ⟨_, h, .refl _⟩⟩

theorem trans (h : Extends m m') (h' : Extends m' m'') : Extends m m'' where
  value hv := h'.value (h.value hv)
  func hf := by
    obtain ⟨fn₁, hf₁, hb₁⟩ := h.func hf
    obtain ⟨fn₂, hf₂, hb₂⟩ := h'.func hf₁
    exact ⟨fn₂, hf₂, hb₁.trans hb₂⟩

theorem node_eq (h : Extends m m') (hnode : m.node? id = some node) : m'.node? id = some node := by
  obtain ⟨v, hv, rfl⟩ := Option.map_eq_some_iff.mp hnode
  exact Module.node?_eq (h.value hv)

theorem add (m : Module) (v : Value) : Extends m (m.add v).2 where
  value {id w} h := by
    have := Module.bounds_of_value? h
    rw [Module.value?_add, if_neg (by lia)]
    exact h
  func h := ⟨_, h, .refl _⟩

theorem modifyFunc (hf : m.func? f = some fn) (change : Func → Func) (h : fn.Before (change fn)) :
    Extends m (m.modifyFunc f change) where
  value h := h
  func {g gn} hg := by
    rw [Module.func?_modifyFunc _ _ (Module.bounds_of_func? hf).1]
    split
    · rename_i heq
      subst heq
      obtain rfl : fn = gn := Option.some.inj (hf.symm.trans hg)
      exact ⟨_, by rw [hg]; rfl, h⟩
    · exact ⟨gn, hg, .refl _⟩

theorem append {b : Block} (hf : m.func? f = some fn) (hb : fn.block? v.block = some b) :
    Extends m (m.append f v) := by
  have hf' : (m.add v).2.func? f = some fn := hf
  exact (add m v).trans (modifyFunc hf' _ (Func.before_push hb))

theorem close {b : Block} (hf : m.func? f = some fn) (hb : fn.block? v.block = some b) :
    Extends m (m.close f v) := by
  have hfunc := m.func?_append v (g := f) hf
  rw [if_pos rfl] at hfunc
  exact (append hf hb).trans (modifyFunc hfunc _ (Func.before_record _))

theorem size_funcs (h : Extends m m') : m.funcs.size ≤ m'.funcs.size := by
  rcases Nat.eq_zero_or_pos m.funcs.size with hzero | hpos
  · omega
  · obtain ⟨fn', hf, -⟩ := h.func (g := m.funcs.size) (by
      rw [Module.func?_of_pos _ hpos]
      exact Array.getElem?_eq_getElem (by omega))
    exact (Module.bounds_of_func? hf).2

theorem readable (h : Extends m m') (hr : m.Readable f id ty) : m'.Readable f id ty := by
  obtain ⟨v, hv, hty, hread⟩ := hr
  exact ⟨v, h.value hv, hty, hread⟩

theorem typed (h : Extends m m') (ht : Typed m f node ty) : Typed m' f node ty := by
  cases ht with
  | load hsrc hty => exact .load (h.readable hsrc) hty
  | store hval hdest => exact .store (h.readable hval) (h.readable hdest)
  | getPtr hds hsrc hindex => exact .getPtr hds (h.readable hsrc) (h.readable hindex)
  | getElemPtr hds hsrc hindex => exact .getElemPtr hds (h.readable hsrc) (h.readable hindex)
  | binary hop hlhs hrhs => exact .binary hop (h.readable hlhs) (h.readable hrhs)
  | call hg hargs =>
    obtain ⟨callee', hg', hb⟩ := h.func hg
    rw [← hb.ret]
    refine .call hg' ?_
    rw [hb.params]
    exact hargs.imp fun _ _ => h.readable

theorem leaves (h : Extends m m') (hb : fn.Before fn') (hl : Leaves m f fn node) :
    Leaves m' f fn' node := by
  have hsize := hb.size
  have hentry := hb.entry
  cases hl with
  | jump h₁ h₂ => exact .jump (by lia) (by lia)
  | branch hcond h₁ h₂ h₃ h₄ => exact .branch (h.readable hcond) (by lia) (by lia) (by lia) (by lia)

theorem instOk {bb : Nat} (h : Extends m m') (hb : fn.Before fn') (ho : InstOk m f fn bb node ty) :
    InstOk m' f fn' bb node ty := by
  have hsize := hb.size
  have hentry := hb.entry
  have hexit := hb.exit
  cases ho with
  | alloc hbb hty => exact .alloc (by lia) hty
  | param hbb harg hnode hfunc hi hty hdest =>
    exact .param (by lia) (h.value harg) hnode hfunc (by rw [hb.params]; exact hi) hty
      (h.readable hdest)
  | enter hbb h₁ h₂ => exact .enter (by lia) (by lia) (by lia)
  | plain hbb ht => exact .plain (by lia) (h.typed ht)
  | leave hbb hl => exact .leave (by lia) (h.leaves hb hl)
  | ret hbb hret => exact .ret (by lia) (by rw [hb.ret]; exact hret)
  | retVal hbb hret hval => exact .retVal (by lia) (by rw [hb.ret]; exact hret) (h.readable hval)

end Extends

namespace Module
variable {m m' : Module} {ids : List ValueId} {b : Block} {id : Nat} {v : Value}

theorem isTerminated_eq (m : Module) (b : Block) : m.isTerminated b = m.Ended b.insts.toList := by
  rw [Ended, Array.getLast?_toList]
  rfl

theorem ended_append (h : m.value? id = some v) : m.Ended (ids ++ [id]) = v.node.isTerminator := by
  simp [Ended, node?_eq h]

theorem ended_of_extends (h : Extends m m') (hids : ∀ id ∈ ids, ∃ v, m.value? id = some v) :
    m'.Ended ids = m.Ended ids := by
  rcases List.eq_nil_or_concat ids with rfl | ⟨init, last, rfl⟩
  · rfl
  · obtain ⟨v, hv⟩ := hids last (by simp)
    rw [List.concat_eq_append, ended_append hv, ended_append (h.value hv)]

end Module

end Sysy.Ir
