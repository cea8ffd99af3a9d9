import Sysy.Proofs.Constancy.Globals
import Sysy.Proofs.Ir.Storage
import Sysy.Proofs.Lowering.Validity

/-!
What a run writes. An instruction writes to a region if it stores to a place in it, or lets the
library read an array into it. While no call hands over a place in `x`, its storage is secluded: no
word of the memory and no argument leads to it, and an activation has its places only in values that
are found from `x`. So only stores into `x` write there.
-/

namespace Sysy.Ir
open Lowering

variable {m : Module} {lib : Library} {fill : Nat → Nat → Word} {x id : ValueId} {a : Activation}
  {callers : List Activation} {s s' : Store} {cfg cfg' : Config} {r : Region} {K : Set Region}

/-- A place in `x` is passed to a function of the program, or to the function of the library that
reads an array. -/
def Module.Handed (m : Module) (x : ValueId) : Prop :=
  ∃ id g args callee y, m.node? id = some (.call g args) ∧ m.func? g = some callee ∧
    (callee.isDeclared = true → callee.name = "getarray") ∧ y ∈ args ∧ m.Rooted x y

/-- The state in which the next instruction is run: the locals that come before it are reserved. -/
def Config.settle (m : Module) (fill : Nat → Nat → Word) : Config → Config
  | .running a callers s =>
    .running (reserve m fill a.rest a s).1 callers (reserve m fill a.rest a s).2
  | .done result s => .done result s

/-- In a call that has not returned yet, `x` is the region. -/
def Config.Places (m : Module) (x : ValueId) (r : Region) : Config → Prop
  | .running top callers _ => ∃ a ∈ top :: callers, ∃ o, a.read m x = some (.addr r o)
  | .done _ _ => False

def Config.Writes (m : Module) (id : ValueId) (r : Region) : Config → Prop
  | .running a _ _ => a.rest.head? = some id ∧
      ((∃ val dest o, m.node? id = some (.store val dest) ∧ a.read m dest = some (.addr r o)) ∨
        ∃ g args callee y o, m.node? id = some (.call g args) ∧ m.func? g = some callee ∧
          callee.isDeclared = true ∧
          callee.name = "getarray" ∧ y ∈ args ∧ a.read m y = some (.addr r o))
  | .done _ _ => False

theorem step_settle : step m lib fill cfg = match cfg.settle m fill with
    | .running a callers s => match a.rest with
      | [] => none
      | id :: rest => do exec m lib id { a with rest } callers s (← m.node? id)
    | .done _ _ => none := by
  cases cfg <;> rfl

/-- What a step that is not stuck does: the locals that come next are reserved, and an instruction
is run. -/
theorem step_cases (h : step m lib fill cfg = some cfg') : ∃ a callers s id rest node,
    cfg.settle m fill = .running a callers s ∧ a.rest = id :: rest ∧ m.node? id = some node ∧
      exec m lib id { a with rest } callers s node = some cfg' := by
  rw [step_settle] at h
  split at h
  · rename_i a callers s hsettle
    split at h
    · cases h
    · rename_i id rest hrest
      obtain ⟨node, hnode, h⟩ := Option.bind_eq_some_iff.mp h
      exact ⟨a, callers, s, id, rest, node, hsettle, hrest, hnode, h⟩
  · cases h

/-! Only writes change memory. -/

theorem Store.mem_of_store {o : Int} {v : Val} {r' : Region} (h : s.store r o v = some s')
    (hne : r' ≠ r) :
    s'.mem r' = s.mem r' := by
  obtain ⟨cells, i, -, -, -, rfl⟩ := store_cases h
  exact Function.update_of_ne hne ..

theorem Store.mem_of_storeWords {r' : Region} (hne : r' ≠ r) (ws : List Word) :
    ∀ {o : Int} {s : Store},
    s.storeWords r o ws = some s' → s'.mem r' = s.mem r' := by
  induction ws with
  | nil =>
    intro o s h
    cases h
    rfl
  | cons w ws ih =>
    intro o s h
    obtain ⟨s₁, hs₁, h⟩ := Option.bind_eq_some_iff.mp h
    exact (ih h).trans (mem_of_store hs₁ hne)

theorem serve_cases {k : Service} {vs : List Val} {result : Option Val}
    (h : lib.serve s k vs = some (result, s')) :
    (∀ v, result = some v → ∃ w, v = .word w) ∧
      (s'.mem = s.mem ∨ k = .getarray ∧ ∃ r o ws s₁, vs = [.addr r o] ∧ s.storeWords r o ws =
        some s₁ ∧ s'.mem = s₁.mem) := by
  cases served_of_serve h with
  | number => exact ⟨fun v hv => ⟨_, (Option.some.inj hv).symm⟩, .inl rfl⟩
  | array _ hstore =>
    exact ⟨fun v hv => ⟨_, (Option.some.inj hv).symm⟩, .inr ⟨rfl, _, _, _, _, rfl, hstore, rfl⟩⟩
  | put | putArray | clock => exact ⟨by simp, .inl rfl⟩

theorem name_of_ofName? {name : String} {k : Service} (h : Service.ofName? name = some k) :
    name = k.name := by
  have hname := List.find?_some h
  exact (beq_iff_eq.mp hname).symm

theorem exists_of_mem_mapM {α β : Type} {f : α → Option β} {xs : List α} {y : β} :
    ∀ {ys : List β}, xs.mapM f = some ys →
    y ∈ ys → ∃ x ∈ xs, f x = some y := by
  induction xs with
  | nil =>
    intro ys h hy
    cases h
    cases hy
  | cons x xs ih =>
    intro ys h hy
    rw [List.mapM_cons] at h
    obtain ⟨z, hz, h⟩ := Option.bind_eq_some_iff.mp h
    obtain ⟨zs, hzs, h⟩ := Option.bind_eq_some_iff.mp h
    cases h
    rcases List.mem_cons.mp hy with rfl | hy
    · exact ⟨x, List.mem_cons_self .., hz⟩
    · obtain ⟨x', hx', hread⟩ := ih hzs hy
      exact ⟨x', List.mem_cons_of_mem _ hx', hread⟩

/-- What no instruction writes to stays as it is, until the call that it is a local of returns. -/
theorem mem_of_step (h : step m lib fill cfg = some cfg')
    (hno : ∀ id, ¬ (cfg.settle m fill).Writes m id r) :
    cfg'.store.mem r = (cfg.settle m fill).store.mem r ∨ (∃ n, r = .local n) ∧
    cfg'.store.mem r = none := by
  obtain ⟨a, callers, s, id, rest, node, hsettle, hrest, hnode, h⟩ := step_cases h
  rw [hsettle] at hno ⊢
  have hhead : a.rest.head? = some id := by rw [hrest]; rfl
  cases node with
  | load =>
    obtain ⟨r, o, y, -, -, rfl⟩ := exec_load h
    exact .inl rfl
  | store val dest =>
    obtain ⟨r', o, y, s', -, hdest, hs, rfl⟩ := exec_store h
    refine .inl (Store.mem_of_store hs ?_)
    rintro rfl
    exact hno id ⟨hhead, .inl ⟨val, dest, o, hnode, hdest⟩⟩
  | getPtr =>
    obtain ⟨r, o, i, -, -, rfl⟩ := exec_stride .whole h
    exact .inl rfl
  | getElemPtr =>
    obtain ⟨r, o, i, -, -, rfl⟩ := exec_stride .element h
    exact .inl rfl
  | binary =>
    obtain ⟨x, y, z, -, -, -, rfl⟩ := exec_binary h
    exact .inl rfl
  | jump =>
    obtain ⟨fn, -, rfl⟩ := exec_jump h
    exact .inl rfl
  | branch =>
    obtain ⟨w, fn, -, -, rfl⟩ := exec_branch h
    exact .inl rfl
  | call g args =>
    obtain ⟨vs, fn, hvs, hg, ⟨hdecl, k, result, s', hk, hserve, rfl⟩ | ⟨-, rfl⟩⟩ := exec_call h
    · obtain ⟨-, hmem | ⟨rfl, r', o, ws, s₁, rfl, hstore, hmem⟩⟩ := serve_cases hserve
      · exact .inl (congrFun hmem r)
      · refine .inl ((congrFun hmem r).trans (Store.mem_of_storeWords ?_ ws hstore))
        rintro rfl
        obtain ⟨y, hy, hread⟩ := exists_of_mem_mapM hvs (List.mem_singleton_self _)
        exact hno id ⟨hhead, .inr ⟨g, args, fn, y, o, hnode, hg, hdecl,
          name_of_ofName? hk, hy, hread⟩⟩
    · exact .inl rfl
  | ret =>
    have hfree : (s.free a.locals).mem r = s.mem r ∨ (∃ n, r = .local n) ∧
      (s.free a.locals).mem r = none := by
      cases r with
      | global => exact .inl rfl
      | «local» n =>
        by_cases hn : n ∈ a.locals
        · exact .inr ⟨⟨n, rfl⟩, if_pos hn⟩
        · exact .inl (if_neg hn)
    obtain ⟨result, -, ⟨-, rfl⟩ | ⟨c, outer, -, rfl⟩⟩ := exec_ret h
    · exact hfree
    · exact hfree
  | _ => cases h

theorem Store.mem_reserve_self (cells : List Val) :
    (s.reserve cells).mem (.local s.next) = some cells :=
  Function.update_self ..

theorem Store.mem_reserve_of_ne {cells : List Val} (h : r ≠ .local s.next) :
    (s.reserve cells).mem r = s.mem r :=
  Function.update_of_ne h ..

theorem mem_global_settle (y : ValueId) :
    (cfg.settle m fill).store.mem (.global y) = cfg.store.mem (.global y) := by
  have hreserve (ids : List ValueId) (a : Activation) (s : Store) :
      (reserve m fill ids a s).2.mem (.global y) = s.mem (.global y) := by
    induction ids generalizing a s with
    | nil => rfl
    | cons id ids ih =>
      rw [reserve]
      split
      · exact (ih _ _).trans (Store.mem_reserve_of_ne (by simp))
      · rfl
  cases cfg with
  | running a callers s => exact hreserve a.rest a s
  | done => rfl

/-! Storage that nothing leads to. -/

def Region.Made (next : Nat) : Region → Prop
  | .global _ => True
  | .local n => n < next

def Val.Outside (K : Set Region) (next : Nat) (v : Val) : Prop :=
  ∀ r o, v = .addr r o → r.Made next ∧ r ∉ K

structure Activation.Secludes (m : Module) (x : ValueId) (K : Set Region) (next : Nat)
    (a : Activation) : Prop where
  code : ∃ fn, Finished m a.func fn ∧ ∀ id ∈ a.rest, id ∈ fn.code a.block
  args : ∀ v ∈ a.args, v.Outside K next
  env : ∀ id r o, a.env id = some (.addr r o) → r.Made next ∧ (r ∈ K → m.Rooted x id)
  own : ∀ r o, a.env x = some (.addr r o) → r ∈ K

def Activation.Calling (m : Module) (a : Activation) : Prop :=
  ∃ id rest g args, a.rest = id :: rest ∧ m.node? id = some (.call g args)

structure Secluded (m : Module) (x : ValueId) (K : Set Region) (top : Activation)
    (callers : List Activation) (s : Store) :
    Prop where
  made : ∀ r ∈ K, r.Made s.next
  globals : ∀ y, .global y ∈ K ↔ y = x
  top : top.Secludes m x K s.next
  callers : ∀ a ∈ callers, a.Secludes m x K s.next ∧ a.Calling m
  cells : ∀ r cells, s.mem r = some cells → ∀ v ∈ cells, v.Outside K s.next

def Config.Secluded (m : Module) (x : ValueId) (K : Set Region) : Config → Prop
  | .running top callers s => Ir.Secluded m x K top callers s
  | .done _ _ => True

theorem Val.outside_word {next : Nat} (w : Word) : (Val.word w).Outside K next := by
  rintro r o ⟨⟩

theorem Activation.Secludes.rooted {next : Nat} {o : Int} (h : a.Secludes m x K next)
    (hglobals : ∀ y, .global y ∈ K ↔ y = x) (hread : a.read m id = some (.addr r o)) :
    r.Made next ∧ (r ∈ K → m.Rooted x id) := by
  obtain ⟨node, hnode, hread⟩ := Option.bind_eq_some_iff.mp hread
  cases node with
  | integer => cases hread
  | global init =>
    cases hread
    refine ⟨trivial, fun hr => ?_⟩
    obtain rfl := (hglobals _).mp hr
    exact .root
  | arg i =>
    obtain ⟨hmade, hout⟩ := h.args _ (List.mem_of_getElem? hread) r o rfl
    exact ⟨hmade, fun hr => (hout hr).elim⟩
  | _ => exact h.env id r o hread

theorem Activation.Secludes.outside {next : Nat} {v : Val} (h : a.Secludes m x K next)
    (hglobals : ∀ y, .global y ∈ K ↔ y = x) (hread : a.read m id = some v) (hid : ¬ m.Rooted x id) :
    v.Outside K next := by
  rintro r o rfl
  obtain ⟨hmade, hrooted⟩ := h.rooted hglobals hread
  exact ⟨hmade, fun hr => hid (hrooted hr)⟩

theorem Activation.Secludes.mem_of_read {next : Nat} {o : Int} (h : a.Secludes m x K next)
    (hglobals : ∀ y, .global y ∈ K ↔ y = x) (hx : m.IsStorage x)
    (hread : a.read m x = some (.addr r o)) : r ∈ K := by
  rcases hx with hx | ⟨init, hx⟩
  · have henv : a.env x = some (.addr r o) := by simpa [read, hx] using hread
    exact h.own r o henv
  · have hregion : Region.global x = r := by
      have : some (Val.addr (.global x) 0) = some (.addr r o) := by simpa [read, hx] using hread
      cases this
      rfl
    exact hregion ▸ (hglobals x).mpr rfl

/-! A new local: if it is for `x`, its region belongs to `x` from now on. -/

section
variable {next : Nat} {K' : Set Region}

theorem Region.Made.succ (h : r.Made next) : r.Made (next + 1) := by
  cases r with
  | global => trivial
  | «local» n => exact Nat.lt_succ_of_lt h

theorem Region.Made.mem_of_mem (h : r.Made next) (hK : K' ⊆ insert (.local next) K)
    (hr : r ∈ K') : r ∈ K := by
  rcases hK hr with rfl | hr
  · exact (Nat.lt_irrefl next h).elim
  · exact hr

theorem Val.Outside.succ {v : Val} (h : v.Outside K next) (hK : K' ⊆ insert (.local next) K) :
    v.Outside K' (next + 1) := by
  intro r o hv
  obtain ⟨hmade, hout⟩ := h r o hv
  exact ⟨hmade.succ, fun hr => hout (hmade.mem_of_mem hK hr)⟩

theorem Activation.Secludes.succ (h : a.Secludes m x K next) (hsub : K ⊆ K')
    (hK : K' ⊆ insert (.local next) K) :
    a.Secludes m x K' (next + 1) where
  code := h.code
  args v hv := (h.args v hv).succ hK
  env id r o hid := by
    obtain ⟨hmade, hrooted⟩ := h.env id r o hid
    exact ⟨hmade.succ, fun hr => hrooted (hmade.mem_of_mem hK hr)⟩
  own r o hx := hsub (h.own r o hx)

theorem Activation.Secludes.reserved (h : a.Secludes m x K next) (hsub : K ⊆ K')
    (hK : K' ⊆ insert (.local next) K) (hid : .local next ∈ K' ↔ id = x) :
    (a.own id next).Secludes m x K' (next + 1) := by
  have h' := h.succ hsub hK
  refine ⟨h'.code, h'.args, fun y r o hy => ?_, fun r o hx => ?_⟩
  · by_cases hne : y = id
    · subst hne
      obtain ⟨rfl, -⟩ := Val.addr.inj (Option.some.inj ((env_set_self a y _).symm.trans hy))
      exact ⟨Nat.lt_succ_self next, fun hr => hid.mp hr ▸ .root⟩
    · exact h'.env y r o ((env_set_of_ne a _ hne).symm.trans hy)
  · by_cases hne : x = id
    · subst hne
      obtain ⟨rfl, -⟩ := Val.addr.inj (Option.some.inj ((env_set_self a x _).symm.trans hx))
      exact hid.mpr rfl
    · exact h'.own r o ((env_set_of_ne a _ hne).symm.trans hx)

end

theorem Secluded.reserve (ids : List ValueId) : ∀ {K : Set Region} {a : Activation} {s : Store},
    Secluded m x K { a with rest := ids } callers s →
    ∃ K', Secluded m x K' (reserve m fill ids a s).1 callers (reserve m fill ids a s).2 := by
  induction ids with
  | nil => exact fun h => ⟨_, h⟩
  | cons id ids ih =>
    intro K a s h
    rw [Ir.reserve]
    split
    · obtain ⟨K', hsub, hK, hid⟩ : ∃ K', K ⊆ K' ∧ K' ⊆ insert (.local s.next) K ∧
        (.local s.next ∈ K' ↔ id = x) := by
        by_cases hx : id = x
        · exact ⟨insert (.local s.next) K, Set.subset_insert .., subset_rfl, by simp [hx]⟩
        · refine ⟨K, subset_rfl, Set.subset_insert .., ?_⟩
          simp only [hx, iff_false]
          exact fun hr => Nat.lt_irrefl _ (h.made _ hr)
      obtain ⟨fn, hfin, hcode⟩ := h.top.code
      have htop : Activation.Secludes m x K s.next { a with rest := ids } :=
        { h.top with code := ⟨fn, hfin, fun y hy => hcode y (List.mem_cons_of_mem _ hy)⟩ }
      refine ih (K := K') ⟨fun r hr => ?_, fun y => ?_, htop.reserved hsub hK hid, fun c hc => ?_,
        fun r cells hr v hv => ?_⟩
      · rcases hK hr with rfl | hr
        · exact Nat.lt_succ_self s.next
        · exact (h.made r hr).succ
      · refine ⟨fun hy => (h.globals y).mp ?_, fun hy => hsub ((h.globals y).mpr hy)⟩
        rcases hK hy with heq | hy
        · cases heq
        · exact hy
      · exact ⟨(h.callers c hc).1.succ hsub hK, (h.callers c hc).2⟩
      · by_cases hr' : r = .local s.next
        · rw [hr', Store.mem_reserve_self] at hr
          obtain rfl := Option.some.inj hr
          obtain ⟨i, -, rfl⟩ := List.mem_map.mp hv
          exact Val.outside_word _
        · rw [Store.mem_reserve_of_ne hr'] at hr
          exact (h.cells r cells hr v hv).succ hK
    · exact ⟨K, h⟩

theorem Config.Secluded.settle (h : cfg.Secluded m x K) (fill : Nat → Nat → Word) :
    ∃ K', (cfg.settle m fill).Secluded m x K' := by
  cases cfg with
  | running a callers s => exact Ir.Secluded.reserve a.rest h
  | done => exact ⟨K, trivial⟩

/-! One instruction. -/

theorem InstOk.ty_of_place {f : FuncId} {fn : Func} {bb : BlockId} {node : Node} {ty : Ty}
    (h : InstOk m f fn bb node ty) (hplace : node.IsPlace) : ∃ ty', ty = .ptr ty' := by
  cases h with
  | alloc => exact ⟨_, rfl⟩
  | plain _ ht =>
    cases ht with
    | getPtr | getElemPtr => exact ⟨_, rfl⟩
    | _ => cases hplace
  | leave _ hl => cases hl <;> cases hplace
  | _ => cases hplace

theorem Module.IsStorage.ne_of_node {node : Node} (hx : m.IsStorage x)
    (hnode : m.node? id = some node) (hne : node ≠ .alloc) (hne' : ∀ init, node ≠ .global init) :
    id ≠ x := by
  rintro rfl
  rcases hx with hx | ⟨init, hx⟩
  · exact hne (Option.some.inj (hnode.symm.trans hx))
  · exact hne' init (Option.some.inj (hnode.symm.trans hx))

theorem not_rooted_of_readable {g : FuncId} {gn : Func} {y : ValueId} (hs : Sound m)
    (hfin : Finished m g gn) (hx : m.IsStorage x) (hread : m.Readable g y .i32) :
    ¬ m.Rooted x y := by
  intro hrooted
  obtain ⟨v, hv, hty, hreadable⟩ := hread
  have hplace := hrooted.isPlace hx (Module.node?_eq hv)
  have hptr : ∃ ty', v.ty = .ptr ty' := by
    rcases hreadable.cases with ⟨w, hnode⟩ | ⟨init, hnode⟩ | ⟨hfunc, harg⟩
    · rw [hnode] at hplace
      cases hplace
    · obtain ⟨v', init', ds, ws, hv', -, hty', -⟩ := hs.globals y (hs.listed y v init hv hnode)
      obtain rfl := Option.some.inj (hv.symm.trans hv')
      exact ⟨_, hty'⟩
    · obtain ⟨v', hv', -, -, hok⟩ := hfin.inst _ y (hfin.own y v hv hfunc harg)
      obtain rfl := Option.some.inj (hv.symm.trans hv')
      exact hok.ty_of_place hplace
  obtain ⟨ty', hptr⟩ := hptr
  cases hty.symm.trans hptr

namespace Activation.Secludes
variable {next : Nat} {v : Val}

theorem set (h : a.Secludes m x K next) (hne : id ≠ x)
    (hv : ∀ r o, v = .addr r o → r.Made next ∧ (r ∈ K → m.Rooted x id)) :
    (a.set id v).Secludes m x K next := by
  refine ⟨h.code, h.args, fun y r o hy => ?_, fun r o hy =>
    h.own r o ((env_set_of_ne a v hne.symm).symm.trans hy)⟩
  by_cases heq : y = id
  · subst heq
    exact hv r o (Option.some.inj ((env_set_self a y v).symm.trans hy))
  · exact h.env y r o ((env_set_of_ne a v heq).symm.trans hy)

theorem give {result : Option Val} (h : a.Secludes m x K next) (hne : id ≠ x)
    (hv : ∀ v, result = some v → v.Outside K next) :
    (a.give id result).Secludes m x K next := by
  cases result with
  | none => exact h
  | some v => exact h.set hne fun r o heq =>
    ⟨(hv v rfl r o heq).1, fun hr => ((hv v rfl r o heq).2 hr).elim⟩

theorem past {rest : List ValueId} (h : a.Secludes m x K next) (hrest : a.rest = id :: rest) :
    Secludes m x K next { a with rest } := by
  obtain ⟨fn, hfin, hcode⟩ := h.code
  exact { h with code := ⟨fn, hfin, fun y hy => hcode y (hrest ▸ List.mem_cons_of_mem _ hy)⟩ }

theorem goTo {fn : Func} {bb : BlockId} (h : a.Secludes m x K next)
    (hfn : m.func? a.func = some fn) :
    Secludes m x K next { a with block := bb, rest := fn.code bb } := by
  obtain ⟨fn', hfin, -⟩ := h.code
  obtain rfl := Option.some.inj (hfn.symm.trans hfin.found)
  exact { h with code := ⟨fn, hfin, fun _ hy => hy⟩ }

theorem enter {g : FuncId} {fn : Func} {vs : List Val} (hfin : Finished m g fn)
    (hvs : ∀ v ∈ vs, v.Outside K next) :
    (Activation.enter fn vs).Secludes m x K next := by
  refine ⟨⟨fn, ?_, fun _ hy => hy⟩, hvs, by simp [Activation.enter], by simp [Activation.enter]⟩
  change Finished m fn.id fn
  rw [hfin.ident]
  exact hfin

theorem resume {result : Option Val} (h : a.Secludes m x K next) (hcall : a.Calling m)
    (hx : m.IsStorage x) (hv : ∀ v, result = some v → v.Outside K next) :
    (a.resume result).Secludes m x K next := by
  obtain ⟨id, rest, g, args, hrest, hnode⟩ := hcall
  have hgiven := (h.past hrest).give (hx.ne_of_node hnode (by simp) (by simp)) hv
  rw [Activation.resume, hrest]
  cases result <;> exact hgiven

end Activation.Secludes

def Store.Outside (K : Set Region) (next : Nat) (s : Store) : Prop :=
  ∀ r cells, s.mem r = some cells → ∀ v ∈ cells, v.Outside K next

namespace Store.Outside
variable {next : Nat} {o : Int}

theorem load {v : Val} (h : s.Outside K next) (hv : s.load r o = some v) : v.Outside K next := by
  obtain ⟨cells, i, hcells, -, hi⟩ := load_cases hv
  exact h r cells hcells v (List.mem_of_getElem? hi)

theorem store {v : Val} (h : s.Outside K next) (hs : s.store r o v = some s')
    (hv : v.Outside K next) : s'.Outside K next := by
  obtain ⟨cells, i, hcells, -, -, rfl⟩ := store_cases hs
  intro r' cells' hr' w hw
  dsimp only at hr'
  by_cases heq : r' = r
  · subst heq
    rw [Function.update_self] at hr'
    obtain rfl := Option.some.inj hr'
    rcases List.mem_or_eq_of_mem_set hw with hw | rfl
    · exact h r' cells hcells w hw
    · exact hv
  · rw [Function.update_of_ne heq] at hr'
    exact h r' cells' hr' w hw

theorem storeWords (ws : List Word) :
    ∀ {o : Int} {s : Store}, s.Outside K next → s.storeWords r o ws = some s' →
    s'.Outside K next := by
  induction ws with
  | nil =>
    intro o s h hs
    cases hs
    exact h
  | cons w ws ih =>
    intro o s h hs
    obtain ⟨s₁, hs₁, hs⟩ := Option.bind_eq_some_iff.mp hs
    exact ih (h.store hs₁ (Val.outside_word w)) hs

theorem serve {k : Service} {vs : List Val} {result : Option Val} (h : s.Outside K next)
    (hs : lib.serve s k vs = some (result, s')) : s'.Outside K next := by
  obtain ⟨-, hmem | ⟨-, r, o, ws, s₁, -, hstore, hmem⟩⟩ := serve_cases hs
  · intro r cells hr
    exact h r cells (hmem ▸ hr)
  · intro r' cells hr
    exact h.storeWords ws hstore r' cells (hmem ▸ hr)

theorem free (h : s.Outside K next) (locals : List Nat) : (s.free locals).Outside K next :=
  fun r cells hr => h r cells (mem_free hr)

end Store.Outside

theorem Secluded.call {rest : List ValueId} {g : FuncId} {args : List ValueId} (hs : Sound m)
    (hx : m.IsStorage x) (hnot : ¬ m.Handed x) (h : Secluded m x K a callers s)
    (hrest : a.rest = id :: rest) (hnode : m.node? id = some (.call g args))
    (hexec : exec m lib id { a with rest } callers s (.call g args) = some cfg) :
    cfg.Secluded m x K := by
  have htop := h.top.past hrest
  obtain ⟨vs, callee, hvs, hg, ⟨hdecl, k, result, s', hk, hserve, rfl⟩ | ⟨hdecl, rfl⟩⟩ :=
    exec_call hexec
  · have hnext := next_of_serve hserve
    have hresult (v : Val) (hv : result = some v) : v.Outside K s.next := by
      obtain ⟨w, rfl⟩ := (serve_cases hserve).1 v hv
      exact Val.outside_word w
    have hgiven := htop.give (hx.ne_of_node hnode (by simp) (by simp)) hresult
    have hcells := Store.Outside.serve h.cells hserve
    exact ⟨hnext ▸ h.made, h.globals, hnext ▸ hgiven, hnext ▸ h.callers, hnext ▸ hcells⟩
  · have hout : ∀ v ∈ vs, v.Outside K s.next := by
      intro v hv
      obtain ⟨y, hy, hread⟩ := exists_of_mem_mapM hvs hv
      exact htop.outside h.globals hread fun hrooted =>
        hnot ⟨id, g, args, callee, y, hnode, hg, by simp [hdecl], hy, hrooted⟩
    obtain ⟨-, -, ⟨hlayout, -⟩ | hcallee⟩ := hs.funcs g callee hg
    · simp [Func.isDeclared, hlayout] at hdecl
    refine { h with top := .enter hcallee hout, callers := fun c hc => ?_ }
    rcases List.mem_cons.mp hc with rfl | hc
    · rw [← hrest]
      exact ⟨h.top, id, rest, g, args, hrest, hnode⟩
    · exact h.callers c hc

theorem Secluded.exec {rest : List ValueId} {node : Node} (hs : Sound m) (hx : m.IsStorage x)
    (hnot : ¬ m.Handed x) (h : Secluded m x K a callers s) (hrest : a.rest = id :: rest)
    (hnode : m.node? id = some node)
    (hexec : exec m lib id { a with rest } callers s node = some cfg) : cfg.Secluded m x K := by
  obtain ⟨fn, hfin, hcode⟩ := h.top.code
  obtain ⟨v, hv, -, -, hok⟩ := hfin.inst _ id (hcode id (hrest ▸ List.mem_cons_self ..))
  rw [Option.some.inj ((Module.node?_eq hv).symm.trans hnode)] at hok
  have htop := h.top.past hrest
  -- an instruction without a place in `x` as its result
  have hset {y : Val} (hne : node ≠ .alloc) (hne' : ∀ init, node ≠ .global init)
      (hy : ∀ r o, y = .addr r o → r.Made s.next ∧ (r ∈ K → m.Rooted x id)) :
      Config.Secluded m x K (.running (Activation.set { a with rest } id y) callers s) :=
    { h with top := htop.set (hx.ne_of_node hnode hne hne') hy }
  cases node with
  | load src =>
    obtain ⟨r, o, y, -, hload, rfl⟩ := exec_load hexec
    have hout := Store.Outside.load h.cells hload
    exact hset (by simp) (by simp) fun r o heq =>
      ⟨(hout r o heq).1, fun hr => ((hout r o heq).2 hr).elim⟩
  | store val dest =>
    obtain ⟨r, o, y, s', hy, -, hstore, rfl⟩ := exec_store hexec
    -- what is stored is a word, or an argument of a pointer type: no place in `x` gets into memory
    have hval : ¬ m.Rooted x val := by
      obtain ⟨hval | ⟨i, hval⟩, -⟩ := hok.store_cases
      · exact not_rooted_of_readable hs hfin hx hval
      · exact fun hrooted => hrooted.isPlace hx hval
    have hcells := Store.Outside.store h.cells hstore (htop.outside h.globals hy hval)
    have hnext := Store.next_of_store hstore
    exact ⟨hnext ▸ h.made, h.globals, hnext ▸ htop, hnext ▸ h.callers, hnext ▸ hcells⟩
  | getPtr src index =>
    obtain ⟨r, o, i, hsrc, -, rfl⟩ := exec_stride .whole hexec
    obtain ⟨hmade, hrooted⟩ := htop.rooted h.globals hsrc
    refine hset (by simp) (by simp) ?_
    rintro r' o' ⟨⟩
    exact ⟨hmade, fun hr => .ptr hnode (hrooted hr)⟩
  | getElemPtr src index =>
    obtain ⟨r, o, i, hsrc, -, rfl⟩ := exec_stride .element hexec
    obtain ⟨hmade, hrooted⟩ := htop.rooted h.globals hsrc
    refine hset (by simp) (by simp) ?_
    rintro r' o' ⟨⟩
    exact ⟨hmade, fun hr => .elem hnode (hrooted hr)⟩
  | binary op lhs rhs =>
    obtain ⟨_, _, z, -, -, -, rfl⟩ := exec_binary hexec
    exact hset (by simp) (by simp) (by rintro r o ⟨⟩)
  | jump target =>
    obtain ⟨fn', hfn', rfl⟩ := exec_jump hexec
    exact { h with top := htop.goTo hfn' }
  | branch cond yes no =>
    obtain ⟨w, fn', -, hfn', rfl⟩ := exec_branch hexec
    exact { h with top := htop.goTo hfn' }
  | call g args => exact h.call hs hx hnot hrest hnode hexec
  | ret val =>
    obtain ⟨result, hresult, ⟨-, rfl⟩ | ⟨c, outer, rfl, rfl⟩⟩ := exec_ret hexec
    · trivial
    -- a word is given back, so the caller learns of no place in `x`
    have hout (v : Val) (hv : result = some v) : v.Outside K s.next := by
      subst hv
      cases val with
      | none => cases hresult
      | some y =>
        have hread : Activation.read m { a with rest } y = some v := by simpa using hresult
        exact htop.outside h.globals hread (not_rooted_of_readable hs hfin hx
          (hok.ret_cases.1 y rfl))
    obtain ⟨hc, hcalling⟩ := h.callers c (List.mem_cons_self ..)
    exact ⟨h.made, h.globals, hc.resume hcalling hx hout, fun c' hc' =>
      h.callers c' (List.mem_cons_of_mem _ hc'),
      Store.Outside.free h.cells a.locals⟩
  | _ => cases hexec

/-! Whole runs. -/

/-- A state of a run that begins with the call of a function of the program with numbers. -/
def Module.Reached (m : Module) (lib : Library) (fill : Nat → Nat → Word) (cfg : Config) : Prop :=
  ∃ fn ∈ m.funcs.toList, fn.isDeclared = false ∧ ∃ ws : List Word, ∃ n,
    runs m lib fill n (.running (.enter fn (ws.map .word)) [] (.start m)) = some cfg

theorem Config.Secluded.step (hs : Sound m) (hx : m.IsStorage x) (hnot : ¬ m.Handed x)
    (h : cfg.Secluded m x K) (hstep : step m lib fill cfg = some cfg') :
    ∃ K', cfg'.Secluded m x K' := by
  obtain ⟨K', hsecluded⟩ := h.settle fill
  obtain ⟨a, callers, s, id, rest, node, hsettle, hrest, hnode, hexec⟩ := step_cases hstep
  rw [hsettle] at hsecluded
  exact ⟨K', Ir.Secluded.exec hs hx hnot hsecluded hrest hnode hexec⟩

/-- Storage that is not handed over is secluded all along a run. -/
theorem Module.Reached.secluded (hs : Sound m) (hx : m.IsStorage x) (hnot : ¬ m.Handed x)
    (h : m.Reached lib fill cfg) :
    ∃ K, cfg.Secluded m x K := by
  obtain ⟨fn, hfn, hcode, ws, n, hrun⟩ := h
  induction n generalizing cfg with
  | zero =>
    cases hrun
    obtain ⟨g, hfin⟩ := hs.finished hfn hcode
    have hword (v : Val) (l : List Word) (hv : v ∈ l.map .word) :
      v.Outside {Region.global x} 0 := by
      obtain ⟨w, -, rfl⟩ := List.mem_map.mp hv
      exact Val.outside_word w
    refine ⟨{.global x}, ?_, by
      simp, .enter hfin fun v hv => hword v ws hv, by simp, fun r cells hr v hv => ?_⟩
    · rintro r rfl
      trivial
    · cases r with
      | global y =>
        dsimp only [Store.start] at hr
        split at hr
        · obtain rfl := Option.some.inj hr
          exact hword v _ hv
        · cases hr
      | «local» k => cases hr
  | succ n ih =>
    obtain ⟨c, hc, hstep⟩ := Option.bind_eq_some_iff.mp hrun
    obtain ⟨K, hsecluded⟩ := ih hc
    exact hsecluded.step hs hx hnot hstep

theorem places_global {init : ValueId} (h : cfg.Writes m id r)
    (hx : m.node? x = some (.global init)) :
    cfg.Places m x (.global x) := by
  cases cfg with
  | running top callers s => exact ⟨top, List.mem_cons_self .., 0, by simp [Activation.read, hx]⟩
  | done => cases h

/-- What writes to storage that is not handed over is a store into it. -/
theorem Config.Secluded.store_of_writes (h : cfg.Secluded m x K) (hx : m.IsStorage x)
    (hnot : ¬ m.Handed x) (hplace : cfg.Places m x r) (hwrites : cfg.Writes m id r) :
    ∃ fn ∈ m.funcs.toList, fn.isDeclared = false ∧
      ∃ bb, id ∈ fn.code bb ∧ ∃ val dest, m.node? id = some (.store val dest) ∧
      m.Rooted x dest := by
  cases cfg with
  | done => cases hplace
  | running top callers s =>
    obtain ⟨a, ha, o, hread⟩ := hplace
    have hr : r ∈ K := by
      rcases List.mem_cons.mp ha with rfl | ha
      · exact h.top.mem_of_read h.globals hx hread
      · exact (h.callers a ha).1.mem_of_read h.globals hx hread
    obtain ⟨fn, hfin, hcode⟩ := h.top.code
    obtain ⟨hhead, ⟨val, dest, o', hnode, hdest⟩ | ⟨g, args, callee, y, o', hnode, hg, -, hname, hy,
      harg⟩⟩ := hwrites
    · exact ⟨fn, Module.mem_funcs hfin.found, hfin.isDeclared, top.block,
        hcode id (List.mem_of_head? hhead), val, dest, hnode,
        (h.top.rooted h.globals hdest).2 hr⟩
    · exact (hnot ⟨id, g, args, callee, y, hnode, hg, fun _ => hname, hy,
        (h.top.rooted h.globals harg).2 hr⟩).elim

end Sysy.Ir
