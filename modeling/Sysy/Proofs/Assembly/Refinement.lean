import Sysy.Proofs.Assembly.Calls
import Sysy.Proofs.Assembly.Names
import Sysy.Proofs.Ir.Storage
import Sysy.Proofs.Lowering.WellTyped

/-!
The main result about assembly: what the machine does is a run of the intermediate code.
-/

namespace Sysy.Assembly
open Ir Lowering

variable {b : Board} {m : Module} {img : Image} {lib : Library}

section
variable {top : Activation} {outer : List Activation} {s : Store} {place : Region → Option Int}
  {links : List Word} {n : Nat} {c : Core} {id : ValueId} {rest : List ValueId}

def slotWords (μ : Int → Word) (sp : Int) (fr : Frame) (id : ValueId) (i : Nat) : Word :=
  match fr.slot? id with
  | some slot => μ (sp + slot.offset + 4 * i)
  | none => 0

theorem Framed.size_slot {f : FuncId} {fn : Func} {fr : Frame} (hf : Framed m f fn fr)
    (halloc : m.node? id = some .alloc) {slot : Slot} (hslot : fr.slot? id = some slot) :
    slot.size = 4 * ((m.tyOf id).elem.size / 4).toNat := by
  obtain ⟨-, -, -, -, v, hv, hsize, hpos, hfour⟩ := hf.fits.slot id slot hslot
  have hnode : v.node = .alloc := by
    rw [Module.node?_eq hv] at halloc
    exact Option.some.inj halloc
  have hneed : Frame.need .rv32 v = v.ty.elem.size := by
    rw [Frame.need, hnode]
    rfl
  rw [Module.tyOf_eq hv, ← hneed, hsize]
  omega

theorem Active.mono {a : Activation} {x : Int} {next next' : Nat} {place' : Region → Option Int}
    (h : Active m place next x a) (hplace : ∀ r x, place r = some x → place' r = some x)
    (hnext : next ≤ next') :
    Active m place' next' x a := by
  refine ⟨h.code, fun id y hnode hy => ?_, h.untouched⟩
  obtain ⟨k, hk, rfl, hlt, hslot⟩ := h.alloc id y hnode hy
  exact ⟨k, hk, rfl, by omega, fun fr slot hfr hs => hplace _ _ (hslot fr slot hfr hs)⟩

theorem Active.own {a : Activation} {x : Int} {next : Nat} {place' : Region → Option Int}
    (h : Active m place next x a) (hrest : a.rest = id :: rest) (hnotin : id ∉ rest)
    (hplace : ∀ r x, place r = some x → place' r = some x)
    (hnew : ∀ fr slot, frameOf m a.func = some fr → fr.slot? id = some slot → place' (.local next) =
      some (x + slot.offset)) : Active m place' (next + 1) x { a.own id next with rest } := by
  have h' := h.mono hplace (Nat.le_succ next)
  obtain ⟨fn, hfin, hcode⟩ := h.code
  rw [hrest] at hcode
  refine ⟨⟨fn, hfin, (List.suffix_cons _ _).trans hcode⟩, fun y z hnode hz => ?_, fun hb y hy => ?_⟩
  · by_cases hy : y = id
    · subst hy
      obtain rfl : Val.addr (.local next) 0 = z :=
        Option.some.inj ((a.env_set_self ..).symm.trans hz)
      exact ⟨next, List.mem_cons_self .., rfl, Nat.lt_succ_self _, hnew⟩
    · obtain ⟨k, hk, hrest⟩ := h'.alloc y z hnode ((a.env_set_of_ne _ hy).symm.trans hz)
      exact ⟨k, List.mem_cons_of_mem _ hk, hrest⟩
  · have hne : y ≠ id := fun heq => hnotin (heq ▸ hy)
    refine (a.env_set_of_ne _ hne).trans (h.untouched hb y ?_)
    rw [hrest]
    exact List.mem_cons_of_mem _ hy

theorem Running.reserve_one (hi : Installed b m img)
    (h : Running b m img top outer s place links n c) (hrest : top.rest = id :: rest)
    (halloc : m.node? id = some .alloc) : ∃ words : Nat → Word, ∃ place',
      Running b m img { top.own id s.next with rest } outer
        (s.reserve ((List.range ((m.tyOf id).elem.size / 4).toNat).map fun i => .word (words i)))
          place' links n c := by
  obtain ⟨fn, fr, u, code₁, code₂, hf, hfr, hu, hok, hid, hsuffix, hcode₁, hcode₂, hat⟩ :=
    h.next hi hrest
  have hnode : u.node = .alloc := by
    rw [Module.node?_eq hu] at halloc
    exact Option.some.inj halloc
  have hblock : top.block = 1 := by
    rw [hnode] at hok
    exact hok.block_of_alloc.trans hf.finished.entry
  have hactive := h.staged.active _ _ _ frameAt?_self
  -- locals are reserved in the entry, which is run once: none of those still to come has a region
  have huntouched : ∀ x ∈ id :: rest, top.env x = none := by
    rw [← hrest]
    exact hactive.untouched hblock
  have hnotin : id ∉ rest := by
    obtain ⟨fn', hfin, hcode⟩ := hactive.code
    rw [hrest] at hcode
    have hnodup : (id :: rest).Nodup :=
      ((hfin.sorted top.block).imp Nat.ne_of_lt).sublist hcode.sublist
    exact (List.nodup_cons.mp hnodup).1
  obtain ⟨-, hfresh⟩ := h.staged.fresh s.next le_rfl
  obtain rfl : code₁ = [] := by
    simpa only [emitInst, halloc, Except.ok.injEq, eq_comm] using hcode₁
  -- the region is filled with what the machine happens to have there
  obtain ⟨cells, hcells⟩ : ∃ cells, cells =
    (List.range ((m.tyOf id).elem.size / 4).toNat).map fun i =>
      Val.word (slotWords c.mem (stackPointer b m (top :: outer)) fr id i) := ⟨_, rfl⟩
  obtain ⟨x?, hx⟩ : ∃ x?, x? = (fr.slot? id).map fun slot =>
    stackPointer b m (top :: outer) + slot.offset := ⟨_, rfl⟩
  have hsize : ∀ slot, fr.slot? id = some slot → slot.size = 4 * cells.length := by
    intro slot hslot
    rw [hf.size_slot halloc hslot, hcells, List.length_map, List.length_range]
  have hwords : ∀ slot (i : Nat) y, fr.slot? id = some slot → cells[i]? = some y →
      y = Val.word (c.mem (stackPointer b m (top :: outer) + slot.offset + 4 * i)) := by
    intro slot i y hslot hy
    rw [hcells, List.getElem?_map] at hy
    obtain ⟨j, hj, rfl⟩ := Option.map_eq_some_iff.mp hy
    obtain ⟨hlt, hj⟩ := List.getElem?_eq_some_iff.mp hj
    obtain rfl : i = j := by simpa using hj
    simp only [slotWords, hslot]
  have hlaid :=
    h.staged.laid.reserve (n := s.next) hfr halloc (huntouched id (List.mem_cons_self ..)) hsize hx
  have hagree := h.held.agree.reserve halloc hfresh hwords hx
  have hmono := place_update x? hfresh
  have hnew : ∀ fr' slot, frameOf m top.func = some fr' → fr'.slot? id = some slot →
      Function.update place (.local s.next) x? (.local s.next) =
        some (stackPointer b m (top :: outer) + slot.offset) := by
    intro fr' slot hfr' hslot
    obtain rfl := Option.some.inj (hfr.symm.trans hfr')
    rw [Function.update_self, hx, hslot]
    rfl
  refine ⟨slotWords c.mem (stackPointer b m (top :: outer)) fr id,
    Function.update place (.local s.next) x?, ?_⟩
  rw [← hcells]
  refine ⟨⟨?_, fun k hk => ?_, fun d a x ha => ?_⟩, ?_, h.chain.top rfl, h.suspended, h.link,
    fun hb i y hi hy => (h.args hb i y hi hy).mono hmono, h.stackArgs, fr, code₂, hfr, hcode₂, hat⟩
  · exact hlaid.advance rfl fun _ _ => rfl
  · have hne : Region.local k ≠ .local s.next := by
      rintro ⟨⟩
      exact absurd hk (Nat.not_succ_le_self _)
    obtain ⟨hnone, hplace⟩ := h.staged.fresh k (Nat.le_of_succ_le hk)
    exact ⟨(Function.update_of_ne hne ..).trans hnone, (Function.update_of_ne hne ..).trans hplace⟩
  · rcases frameAt?_cons.mp ha with ⟨-, rfl, rfl⟩ | ⟨hlt, ha⟩
    · exact hactive.own hrest hnotin hmono hnew
    · exact (h.staged.active d a x (frameAt?_cons.mpr (.inr ⟨hlt, ha⟩))).mono hmono (Nat.le_succ _)
  · exact Held.advance (v := ⟨[], _, _, links⟩) ⟨hagree, h.held.sp⟩ rfl rfl fun hb => ⟨hb, rfl⟩

theorem reserve_rest (fill : Nat → Nat → Word) (ids ids' : List ValueId) (a : Activation)
    (s : Store) :
    Ir.reserve m fill ids { a with rest := ids' } s = Ir.reserve m fill ids a s := by
  induction ids generalizing a s with
  | nil => rfl
  | cons id ids ih =>
    rw [Ir.reserve, Ir.reserve]
    split
    · exact ih (a.own id s.next) _
    · rfl

/-- The locals that come next get their regions, and hold what their slots held before. -/
theorem Running.reserves (hi : Installed b m img) (ids : List ValueId) :
    ∀ {top : Activation} {s : Store}
    {place : Region → Option Int}, Running b m img top outer s place links n c → top.rest = ids →
    ∃ fill place',
      Running b m img (Ir.reserve m fill ids top s).1 outer (Ir.reserve m fill ids top s).2 place'
        links n c := by
  induction ids with
  | nil =>
    intro top s place h hrest
    have hself : { top with rest := [] } = top := by
      cases top
      cases hrest
      rfl
    refine ⟨fun _ _ => 0, place, ?_⟩
    rw [Ir.reserve, hself]
    exact h
  | cons id ids ih =>
    intro top s place h hrest
    by_cases halloc : m.node? id = some .alloc
    · obtain ⟨words, place₁, h₁⟩ := h.reserve_one hi hrest halloc
      obtain ⟨fill, place', h'⟩ := ih h₁ rfl
      refine ⟨Function.update fill s.next words, place', ?_⟩
      have hsame (a : Activation) (cells : List Val) :
        Ir.reserve m (Function.update fill s.next words) ids a
          (s.reserve cells) = Ir.reserve m fill ids a (s.reserve cells) := by
        refine reserve_congr ids a _ fun k hk _ => Function.update_of_ne ?_ ..
        rintro rfl
        exact Nat.not_succ_le_self _ hk
      rw [Ir.reserve, if_pos halloc, Function.update_self, hsame]
      rw [reserve_rest] at h'
      exact h'
    · refine ⟨fun _ _ => 0, place, ?_⟩
      rw [Ir.reserve, if_neg halloc, top.rest_self hrest]
      exact h

end

/-- Every step of a run is one or more steps of the machine, if new storage holds what the machine
has there. -/
theorem Match.step (lib : Library) (hi : Installed b m img) {cfg : Config} {σ : State}
    (h : Match b m img cfg σ) : ∃ fill, ∀ cfg',
    Ir.step m lib fill cfg = some cfg' → Roomy b m img cfg' →
    ∃ σ', GoesFar b img lib σ σ' ∧ Match b m img cfg' σ' := by
  cases h with
  | done => exact ⟨fun _ _ => 0, by rintro cfg' ⟨⟩⟩
  | @running top outer s place links n c h =>
    obtain ⟨fill, place', h'⟩ := h.reserves hi top.rest rfl
    refine ⟨fill, fun cfg' hstep hroom => ?_⟩
    have htrace : (Ir.reserve m fill top.rest top s).2.trace = s.trace := trace_reserve ..
    rw [Ir.step] at hstep
    dsimp only at hstep
    split at hstep
    · cases hstep
    · rename_i id rest hrest
      obtain ⟨node, hnode, hexec⟩ := Option.bind_eq_some_iff.mp hstep
      rw [← htrace]
      exact h'.executes hi hrest hnode hexec hroom

/-! The start of a program. -/

def globalPlace (m : Module) (img : Image) : Region → Option Int
  | .global id => globalAddr m img id
  | .local _ => none

theorem start_mem {id : ValueId} {cells : List Val}
    (h : (Store.start m).mem (.global id) = some cells) :
    id ∈ m.globals ∧ cells = (globalWords m id).map .word := by
  dsimp only [Store.start] at h
  split at h
  · exact ⟨‹_›, (Option.some.inj h).symm⟩
  · cases h

theorem Stored.laid (h : Stored b m img) (hroom : img.dataEnd b ≤ b.top) :
    Laid b m img ⟨[], (Store.start m).mem, globalPlace m img, []⟩ := by
  refine ⟨by simp [Staffed], hroom, fun id _ => rfl, fun id cells hmem => ?_,
    fun id id' cells cells' x x' hmem hmem' hx hx' hne => ?_, fun n cells x hmem => by cases hmem⟩
  · obtain ⟨hid, rfl⟩ := start_mem hmem
    obtain ⟨o, haddr, -, hlen⟩ := h.global id hid
    have := b.base_aligned
    refine ⟨_, haddr, by omega, by omega, ?_⟩
    rw [Image.dataEnd, List.length_map]
    omega
  · obtain ⟨hid, rfl⟩ := start_mem hmem
    obtain ⟨hid', rfl⟩ := start_mem hmem'
    obtain ⟨o, haddr, -⟩ := h.global id hid
    obtain ⟨o', haddr', -⟩ := h.global id' hid'
    obtain rfl := Option.some.inj (haddr.symm.trans hx)
    obtain rfl := Option.some.inj (haddr'.symm.trans hx')
    have := h.apart id hid id' hid' hne o o' haddr haddr'
    rw [List.length_map, List.length_map]
    omega

theorem boot_cases {σ : State} (h : boot b img = some σ) : ∃ (n : Nat) (c : Core), σ = ⟨n, c, []⟩ ∧
    img.code.length < 0x80000000 ∧ img.labels.lookup "main" = some n ∧
    c.regs .sp = BitVec.ofInt 32 b.top ∧
      c.regs .ra = -1 ∧ ∀ o : Nat, c.mem (b.base + 4 * o) = img.data.getD o 0 := by
  rw [boot] at h
  split at h
  · obtain ⟨n, hn, rfl⟩ := Option.map_eq_some_iff.mp h
    refine ⟨n, _, rfl, ‹_›, hn, rfl, rfl, fun o => ?_⟩
    dsimp only
    rw [if_pos (by omega), show ((b.base + 4 * o - b.base) / 4).toNat = o by omega]
  · cases h

theorem Stored.held (h : Stored b m img) {c : Core} (hsp : c.regs .sp = BitVec.ofInt 32 b.top)
    (hmem : ∀ o : Nat, c.mem (b.base + 4 * o) = img.data.getD o 0) :
    Held b m ⟨[], (Store.start m).mem, globalPlace m img, []⟩ c := by
  refine ⟨fun p x y hp hy => ?_, hsp⟩
  cases hy with
  | @cell r cells i _ hcells hy =>
    obtain ⟨_, x₀, hcells', hplace, hi, rfl⟩ := hp.of_cell
    obtain rfl := Option.some.inj (hcells.symm.trans hcells')
    cases r with
    | «local» k => cases hplace
    | «global» id =>
      obtain ⟨hid, rfl⟩ := start_mem hcells
      obtain ⟨o, haddr, hwords, -⟩ := h.global id hid
      obtain rfl := Option.some.inj (haddr.symm.trans hplace)
      rw [List.getElem?_map] at hy
      obtain ⟨w, hw, rfl⟩ := Option.map_eq_some_iff.mp hy
      have hdata : img.data[o + i]? = some w := by
        obtain ⟨rest, hrest⟩ := hwords
        rw [← List.getElem?_drop, ← hrest,
          List.getElem?_append_left (List.getElem?_eq_some_iff.mp hw).1, hw]
      have hcell : c.mem (b.base + 4 * o + 4 * i) = w := by
        rw [Int.add_assoc, ← Int.mul_add, ← Nat.cast_add, hmem, List.getD_eq_getElem?_getD, hdata]
        rfl
      exact hcell
  | slot ha => cases ha
  | link hacts => exact absurd hacts (by simp)
  | out hacts => cases hacts

theorem match_start (hi : Installed b m img) (hs : Stored b m img) {σ : State}
    (hboot : boot b img = some σ) {cfg : Config} (hstart : start m = some cfg)
    (hroom : Roomy b m img cfg) :
    ∃ σ', GoesOn b img lib σ σ' ∧ Match b m img cfg σ' := by
  obtain ⟨n, c, rfl, -, hmain, hsp, hra, hmem⟩ := boot_cases hboot
  obtain ⟨fn, hfn, hcfg⟩ := Option.bind_eq_some_iff.mp hstart
  obtain rfl := Option.some.inj hcfg
  have hname : fn.name = "main" := by simpa using Array.find?_some hfn
  obtain ⟨f, hf⟩ : ∃ f, m.func? f = some fn := by
    obtain ⟨i, hi, rfl⟩ := Array.getElem_of_mem (Array.mem_of_find?_eq_some hfn)
    exact ⟨i + 1, func?_succ (by simpa using hi)⟩
  have hfin : Finished m f fn := by
    obtain ⟨-, -, ⟨-, hlib⟩ | hfin⟩ := hi.sound.funcs f fn hf
    · simp [Build.libraryFuncs, hname] at hlib
    · exact hfin
  have hend : img.dataEnd b ≤ b.top := by
    obtain ⟨fr, hfr, hframed⟩ := hi.framed hfin
    have hfunc : (Activation.enter fn []).func = f := hfin.ident
    have hstaffed : Staffed m [Activation.enter fn []] :=
      Staffed.cons (by simp [Staffed]) (by rw [hfunc]; exact hframed) (by rw [hfunc]; exact hfr)
    exact le_trans hroom (hstaffed.stackPointer (b := b)).1
  have hstaged : Staged b m img ⟨[], (Store.start m).mem, globalPlace m img, []⟩
    (Store.start m).next :=
    ⟨hs.laid hend, fun k _ => ⟨rfl, rfl⟩, fun d a x ha => by cases ha⟩
  obtain ⟨k, hlookup, -, σ', hgo, hmatch⟩ :=
    enters lib hi hfin hstaged (hs.held hsp hmem) (.bottom _) rfl (by simp) hra hroom
    (by simp) (by simp) (by simp)
  rw [hname, hmain] at hlookup
  obtain rfl := Option.some.inj hlookup
  exact ⟨σ', hgo, hmatch⟩

/-- What memory holds for the activations of a run: in every frame the slot of a local is its
storage, the slot of any other value that has been computed holds it, and a function that calls
others keeps its return address, which leads behind the call. -/
structure Frames (b : Board) (m : Module) (img : Image) (acts : List Activation)
    (c : Core) : Prop where
  sp : c.regs .sp = BitVec.ofInt 32 (stackPointer b m acts)
  slots : ∃ place : Region → Option Int, ∀ d a x fr id slot y, frameAt? b m acts d = some (a, x) →
    frameOf m a.func = some fr → fr.slot? id = some slot → a.env id = some y →
    (m.node? id = some .alloc → ∃ k, y = .addr (.local k) 0 ∧
      place (.local k) = some (x + slot.offset)) ∧
    (m.node? id ≠ some .alloc → Rep place y (c.mem (x + slot.offset)))
  links : ∃ links, Chain m img acts links ∧ ∀ a outer w ws x fr, (a :: outer) <:+ acts →
    (w :: ws) <:+ links →
    ws.length = outer.length → frameAt? b m acts outer.length = some (a, x) →
      frameOf m a.func = some fr →
    fr.hasCall = true → c.mem (x + fr.raOffset) = w

theorem Match.frames {top : Activation} {outer : List Activation} {s : Store} {σ : State}
    (h : Match b m img (.running top outer s) σ) : Frames b m img (top :: outer) σ.core := by
  cases h with
  | @running _ _ _ place links _ _ h =>
    refine ⟨h.held.sp, ⟨place, fun d a x fr id slot y ha hfr hslot hy => ⟨fun hnode => ?_,
      fun hnode => ?_⟩⟩,
      links, h.chain, fun a outer' w ws x fr hacts hlinks hlen ha hfr hcall => ?_⟩
    · obtain ⟨k, -, hk, -, hplace⟩ := (h.staged.active d a x ha).alloc id y hnode hy
      exact ⟨k, hk, hplace fr slot hfr hslot⟩
    · exact h.held.agree _ _ _ (.slot ha hfr hslot hnode) (.slot ha hy)
    · exact h.held.agree _ _ _ (.link ha hfr hcall) (.link hacts hlinks rfl hlen)

/-- What the relation says of a run that is over: the machine has stopped with the stack empty, has
the result and holds the words of the globals. -/
theorem Match.result {result : Option Val} {s : Store} {σ : State}
    (h : Match b m img (.done result s) σ) :
    σ.pc = -1 ∧ σ.core.regs .sp = BitVec.ofInt 32 b.top ∧ (∀ w, result = some (.word w) →
      σ.core.regs (.a 0) = w) ∧
      ∀ id ∈ m.globals, ∀ x cells, globalAddr m img id = some x → s.mem (.global id) = some cells →
        ∀ (i : Nat) w, cells[i]? = some (.word w) → σ.core.mem (x + 4 * i) = w := by
  cases h with
  | done hlaid hheld hresult =>
    refine ⟨rfl, hheld.sp, fun w hw => hresult _ hw, fun id hid x cells hx hcells i w hw => ?_⟩
    have hplace := (hlaid.symbol id hid).trans hx
    exact hheld.agree _ _ _ (.cell hcells hplace (List.getElem?_eq_some_iff.mp hw).1)
      (.cell hcells hw)

theorem Match.trace {cfg : Config} {σ : State} (h : Match b m img cfg σ) :
    σ.trace = cfg.store.trace := by
  cases h <;> rfl

/-- The machine simulates the intermediate code. Every step of a run is one or more steps of the
machine, as long as the stack does not reach the data, so the machine makes the same calls and stops
with the same result and globals. -/
theorem machine_simulates :
    (∀ file content, (parse file 0 (lexemes file content)).errors = 0 →
      (parse file 0 (lexemes file content)).program.Named) ∧
    ∀ (p : Program) (m : Module) (ls : List Line), p.Named → p.lower = .ok m →
      emit .rv32 m = .ok ls →
      ∀ (b : Board) (lib : Library) (σ₀ : State), boot b (.ofLines b ls) = some σ₀ →
        (∀ top outer s σ, Match b m (.ofLines b ls) (.running top outer s) σ →
          Frames b m (.ofLines b ls) (top :: outer) σ.core) ∧
        (∀ cfg σ, Match b m (.ofLines b ls) cfg σ → ∃ fill, ∀ cfg',
          Ir.step m lib fill cfg = some cfg' → Roomy b m (.ofLines b ls) cfg' →
            ∃ σ', GoesFar b (.ofLines b ls) lib σ σ' ∧ Match b m (.ofLines b ls) cfg' σ') ∧
        ∃ c₀, start m = some c₀ ∧ ∃ fill, ∀ n,
          (∀ k ≤ n, ∀ c, runs m lib fill k c₀ = some c → Roomy b m (.ofLines b ls) c) →
          ∀ c, runs m lib fill n c₀ = some c → ∃ σ, GoesOn b (.ofLines b ls) lib σ₀ σ ∧
            Match b m (.ofLines b ls) c σ ∧ σ.trace = c.store.trace ∧
            ∀ result s, c = .done result s →
              σ.pc = -1 ∧ σ.core.regs .sp = BitVec.ofInt 32 b.top ∧
              (∀ w, result = some (.word w) → σ.core.regs (.a 0) = w) ∧
              ∀ id ∈ m.globals, ∀ x cells, globalAddr m (.ofLines b ls) id = some x →
                s.mem (.global id) = some cells →
                ∀ (i : Nat) w, cells[i]? = some (.word w) → σ.core.mem (x + 4 * i) = w := by
  refine ⟨fun _ _ => Parser.named_of_parse, fun p m ls hn hp hls b lib σ₀ hboot => ?_⟩
  obtain ⟨n, c, -, hshort, hmain, -⟩ := boot_cases hboot
  have hi := installed (b := b) hp hls (named_of_lower hp hn) hshort
  have hs := stored (b := b) hp hls
  refine ⟨fun _ _ _ _ h => h.frames, fun cfg σ h => h.step lib hi, ?_⟩
  obtain ⟨fn, hfn⟩ := exists_of_label hp hls (by decide) hmain
  have hstart : start m = some (.running (.enter fn []) [] (.start m)) := by
    rw [start, hfn]
    rfl
  refine ⟨_, hstart, ?_⟩
  by_cases hroom : Roomy b m (.ofLines b ls) (.running (.enter fn []) [] (.start m))
  · obtain ⟨fill, hfill⟩ := exists_fill lib (m := m) (R := Roomy b m (.ofLines b ls))
      (P := fun c => ∃ σ, GoesOn b (.ofLines b ls) lib σ₀ σ ∧ Match b m (.ofLines b ls) c σ)
      (match_start hi hs hboot hstart hroom) fun c ⟨σ, hgo, h⟩ => by
        obtain ⟨fill, hfill⟩ := h.step lib hi
        refine ⟨fill, fun c' hc' hroom' => ?_⟩
        obtain ⟨σ', hgo', h'⟩ := hfill c' hc' hroom'
        exact ⟨σ', hgo.trans hgo'.to_reflTransGen, h'⟩
    refine ⟨fill, fun n hrooms c hc => ?_⟩
    obtain ⟨σ, hgo, h⟩ := hfill n hrooms c hc
    refine ⟨σ, hgo, h, h.trace, ?_⟩
    rintro result s rfl
    exact h.result
  · exact ⟨fun _ _ => 0, fun n hrooms => absurd (hrooms 0 (Nat.zero_le n) _ rfl) hroom⟩

def loads (b : Board) (p : Program) : Bool :=
  match p.lower with
  | .error _ => false
  | .ok m =>
    match emit .rv32 m with
    | .error _ => false
    | .ok ls => (boot b (.ofLines b ls)).isSome

theorem exists_boot {p : Program} (h : loads b p = true) :
    ∃ m ls σ₀, p.lower = .ok m ∧ emit .rv32 m = .ok ls ∧
    boot b (.ofLines b ls) = some σ₀ := by
  rw [loads] at h
  cases hm : p.lower with
  | error => simp [hm] at h
  | ok m =>
    rw [hm] at h
    dsimp only at h
    cases hls : emit .rv32 m with
    | error => simp [hls] at h
    | ok ls =>
      rw [hls] at h
      obtain ⟨σ₀, hσ₀⟩ := Option.isSome_iff_exists.mp h
      exact ⟨m, ls, σ₀, rfl, hls, hσ₀⟩

def silent : Library := ⟨fun _ => none, fun _ => none, fun _ => none⟩

theorem machine_simulates_gridSample : ∃ m ls σ₀, gridSample.lower = .ok m ∧ emit .rv32 m = .ok ls ∧
    boot .small (.ofLines .small ls) = some σ₀ ∧ ∃ c₀, start m = some c₀ ∧ ∃ fill, ∀ n,
      (∀ k ≤ n, ∀ c, runs m silent fill k c₀ = some c → Roomy .small m (.ofLines .small ls) c) →
      ∀ c, runs m silent fill n c₀ = some c → ∃ σ, GoesOn .small (.ofLines .small ls) silent σ₀ σ ∧
        σ.trace = c.store.trace := by
  obtain ⟨m, ls, σ₀, hm, hls, hσ₀⟩ :=
    exists_boot (b := .small) (p := gridSample) (by decide +kernel)
  have hnamed : gridSample.Named := by
    intro span d hmem
    simp only [gridSample, List.mem_cons, List.not_mem_nil, or_false, reduceCtorEq, false_or,
      Item.func.injEq] at hmem
    rcases hmem with ⟨-, rfl⟩ | ⟨-, rfl⟩ <;> decide
  obtain ⟨-, -, c₀, hc₀, fill, h⟩ := machine_simulates.2 _ m ls hnamed hm hls .small silent σ₀ hσ₀
  refine ⟨m, ls, σ₀, hm, hls, hσ₀, c₀, hc₀, fill, fun n hrooms c hc => ?_⟩
  obtain ⟨σ, hgo, -, htrace, -⟩ := h n hrooms c hc
  exact ⟨σ, hgo, htrace⟩

end Sysy.Assembly
