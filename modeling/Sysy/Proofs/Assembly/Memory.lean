import Sysy.Proofs.Assembly.Places

/-!
What memory holds while a program runs. A view puts together the activations and regions of a run
with the addresses of the regions and the return addresses; memory agrees with it when every place
that has contents represents them.
-/

namespace Sysy.Assembly
open Ir Lowering

variable {b : Board} {m : Module} {img : Image}

def Rep (place : Region → Option Int) : Val → Word → Prop
  | .word w, w' => w' = w
  | .addr r o, w' => ∃ x, place r = some x ∧ w' = BitVec.ofInt 32 (x + o)

structure View where
  /-- The activations, the latest first. -/
  acts : List Activation
  mem : Region → Option (List Val)
  place : Region → Option Int
  /-- The return address of each activation. -/
  links : List Word

inductive Place where
  | cell (r : Region) (i : Nat)
  | slot (depth : Nat) (id : ValueId)
  | link (depth : Nat)
  /-- A word of the arguments that are passed on the stack from the activation at a depth. -/
  | out (depth : Nat) (i : Nat)

inductive Located (b : Board) (m : Module) (v : View) : Place → Int → Prop
  | cell {r : Region} {cells : List Val} {x : Int} {i : Nat} (hmem : v.mem r = some cells)
      (hplace : v.place r = some x) (hi : i < cells.length) : Located b m v (.cell r i) (x + 4 * i)
  | slot {d : Nat} {a : Activation} {s : Int} {fr : Frame} {id : ValueId} {slot : Slot}
      (ha : frameAt? b m v.acts d = some (a, s)) (hfr : frameOf m a.func = some fr)
      (hslot : fr.slot? id = some slot) (hnode : m.node? id ≠ some .alloc) :
      Located b m v (.slot d id) (s + slot.offset)
  | link {d : Nat} {a : Activation} {s : Int} {fr : Frame}
      (ha : frameAt? b m v.acts d = some (a, s))
      (hfr : frameOf m a.func = some fr) (hcall : fr.hasCall = true) : Located b m v (.link d)
        (s + fr.raOffset)
  | out {d : Nat} {a : Activation} {s : Int} {fr : Frame} {i : Nat}
      (ha : frameAt? b m v.acts d = some (a, s))
      (hfr : frameOf m a.func = some fr) (hi : 4 * (i : Int) < fr.outArgs) :
        Located b m v (.out d i) (s + 4 * i)

theorem Located.of_cell {v : View} {r : Region} {i : Nat} {x : Int}
    (h : Located b m v (.cell r i) x) :
    ∃ cells x₀, v.mem r = some cells ∧ v.place r = some x₀ ∧ i < cells.length ∧ x = x₀ + 4 * i := by
  cases h with
  | cell hmem hplace hi => exact ⟨_, _, hmem, hplace, hi, rfl⟩

/-- What a place holds. Arguments stay on the stack until the called function has left its entry. -/
inductive Content (b : Board) (m : Module) (v : View) : Place → Val → Prop
  | cell {r : Region} {cells : List Val} {i : Nat} {x : Val} (hmem : v.mem r = some cells)
      (hx : cells[i]? = some x) : Content b m v (.cell r i) x
  | slot {d : Nat} {a : Activation} {s : Int} {id : ValueId} {x : Val}
      (ha : frameAt? b m v.acts d = some (a, s)) (hx : a.env id = some x) :
        Content b m v (.slot d id) x
  | link {a : Activation} {outer : List Activation} {w : Word} {ws : List Word} {d : Nat}
      (hacts : (a :: outer) <:+ v.acts) (hlinks : (w :: ws) <:+ v.links) (hd : outer.length = d)
      (hws : ws.length = d) : Content b m v (.link d) (.word w)
  | out {a : Activation} {outer : List Activation} {d i : Nat} {x : Val}
      (hacts : v.acts = a :: outer)
      (hd : outer.length = d + 1) (hblock : a.block = 1) (hx : a.args[8 + i]? = some x) :
      Content b m v (.out d i) x

def globalAddr (m : Module) (img : Image) (id : ValueId) : Option Int :=
  (m.value? id).bind fun v => img.symbols.lookup (symbol v.name)

/-- Regions lie where they belong: globals in the data, locals in the slots of their activations. -/
structure Laid (b : Board) (m : Module) (img : Image) (v : View) : Prop where
  staffed : Staffed m v.acts
  room : img.dataEnd b ≤ stackPointer b m v.acts
  symbol : ∀ id ∈ m.globals, v.place (.global id) = globalAddr m img id
  global : ∀ id cells, v.mem (.global id) = some cells → ∃ x, v.place (.global id) = some x ∧
    b.base ≤ x ∧
    4 ∣ x ∧ x + 4 * cells.length ≤ img.dataEnd b
  apart : ∀ id id' cells cells' x x', v.mem (.global id) = some cells → v.mem (.global id') =
    some cells' →
    v.place (.global id) = some x → v.place (.global id') = some x' → id ≠ id' →
    x + 4 * cells.length ≤ x' ∨ x' + 4 * cells'.length ≤ x
  owner : ∀ n cells x, v.mem (.local n) = some cells → v.place (.local n) = some x →
    ∃ d a s fr id slot,
    frameAt? b m v.acts d = some (a, s) ∧ frameOf m a.func = some fr ∧ fr.slot? id = some slot ∧
      m.node? id = some .alloc ∧ a.env id = some (.addr (.local n) 0) ∧ x = s + slot.offset ∧
      slot.size = 4 * cells.length

inductive Stands (b : Board) (m : Module) (v : View) : Place → (depth : Nat) → Frame.Part → Prop
  | cell {n i : Nat} {d : Nat} {a : Activation} {s : Int} {id : ValueId}
      (ha : frameAt? b m v.acts d = some (a, s)) (hnode : m.node? id = some .alloc)
      (henv : a.env id = some (.addr (.local n) 0)) : Stands b m v (.cell (.local n) i) d (.slot id)
  | slot {d : Nat} {id : ValueId} (hnode : m.node? id ≠ some .alloc) :
      Stands b m v (.slot d id) d (.slot id)
  | link {d : Nat} : Stands b m v (.link d) d .link
  | out {d i : Nat} : Stands b m v (.out d i) d (.out i)

namespace Laid
variable {v : View} {p q : Place} {x y : Int}

theorem cases (h : Laid b m img v) (hp : Located b m v p x) :
    (∃ id i cells x₀, p = .cell (.global id) i ∧ v.mem (.global id) = some cells ∧
      v.place (.global id) = some x₀ ∧ x = x₀ + 4 * i ∧ i < cells.length) ∨
    ∃ d part, Stands b m v p d part ∧ Covers b m v.acts d part x := by
  cases hp with
  | @cell r cells x₀ i hmem hplace hi =>
    cases r with
    | global id => exact .inl ⟨id, i, cells, x₀, rfl, hmem, hplace, rfl, hi⟩
    | «local» n =>
      obtain ⟨d, a, s, fr, id, slot, ha, hfr, hslot, hnode, henv, rfl, hsize⟩ :=
        h.owner n cells _ hmem hplace
      exact .inr ⟨d, _, .cell ha hnode henv, a, s, fr, _, _, ha, hfr, .slot hslot, by
        omega, by omega⟩
  | slot ha hfr hslot hnode =>
    obtain ⟨fn, hframed⟩ := h.staffed.framed (mem_of_frameAt? ha) hfr
    obtain ⟨-, -, -, -, w, -, hsize, hpos, -⟩ := hframed.fits.slot _ _ hslot
    exact .inr ⟨_, _, .slot hnode, _, _, _, _, _, ha, hfr, .slot hslot, by omega, by omega⟩
  | link ha hfr hcall =>
    exact .inr ⟨_, _, .link, _, _, _, _, _, ha, hfr, .link hcall, by omega, by omega⟩
  | out ha hfr hi => exact .inr ⟨_, _, .out, _, _, _, _, _, ha, hfr, .out hi, by omega, by omega⟩

theorem has (h : Laid b m img v) (hp : Located b m v p x) : b.Has x := by
  have hroom := h.room
  have hend : b.base ≤ img.dataEnd b := by rw [Image.dataEnd]; omega
  have htop := (h.staffed.stackPointer (b := b)).1
  have haligned : 4 ∣ x := by
    cases hp with
    | @cell r cells x₀ i hmem hplace hi =>
      cases r with
      | global id =>
        obtain ⟨x₁, hx₁, -, h4, -⟩ := h.global id cells hmem
        obtain rfl := Option.some.inj (hx₁.symm.trans hplace)
        omega
      | «local» n =>
        obtain ⟨d, a, s, fr, id, slot, ha, hfr, hslot, -, -, rfl, -⟩ :=
          h.owner n cells _ hmem hplace
        have := h.staffed.word_aligned ha hfr (.slot hslot)
        omega
    | slot ha hfr hslot hnode => exact h.staffed.word_aligned ha hfr (.slot hslot)
    | link ha hfr hcall => exact h.staffed.word_aligned ha hfr (.link hcall)
    | out ha hfr hi =>
      have := h.staffed.frameAt? ha
      omega
  have htop4 := b.top_aligned
  rcases h.cases hp with ⟨id, i, cells, x₀, rfl, hmem, hplace, rfl, hi⟩ | ⟨d, part, -, hcov⟩
  · obtain ⟨x₁, hx₁, h₁, -, h₂⟩ := h.global id cells hmem
    obtain rfl := Option.some.inj (hx₁.symm.trans hplace)
    exact ⟨by omega, by omega, haligned⟩
  · have := hcov.bounds h.staffed
    exact ⟨by omega, by omega, haligned⟩

theorem functional (hp : Located b m v p x) (hp' : Located b m v p y) : x = y := by
  cases hp with
  | cell hmem hplace =>
    cases hp' with
    | cell hmem' hplace' =>
      obtain rfl := Option.some.inj (hplace.symm.trans hplace')
      rfl
  | slot ha hfr hslot =>
    cases hp' with
    | slot ha' hfr' hslot' =>
      obtain ⟨rfl, rfl⟩ := Prod.mk.inj (Option.some.inj (ha.symm.trans ha'))
      obtain rfl := Option.some.inj (hfr.symm.trans hfr')
      obtain rfl := Option.some.inj (hslot.symm.trans hslot')
      rfl
  | link ha hfr =>
    cases hp' with
    | link ha' hfr' =>
      obtain ⟨rfl, rfl⟩ := Prod.mk.inj (Option.some.inj (ha.symm.trans ha'))
      obtain rfl := Option.some.inj (hfr.symm.trans hfr')
      rfl
  | out ha hfr =>
    cases hp' with
    | out ha' hfr' =>
      obtain ⟨rfl, rfl⟩ := Prod.mk.inj (Option.some.inj (ha.symm.trans ha'))
      rfl

theorem injective (h : Laid b m img v) (hp : Located b m v p x)
    (hq : Located b m v q x) : p = q := by
  have hroom := h.room
  rcases h.cases hp with ⟨id, i, cells, x₀, rfl, hmem, hplace, rfl, hi⟩ | ⟨d, part, hstands, hcov⟩
  · obtain ⟨x₁, hx₁, h₁, -, h₂⟩ := h.global id cells hmem
    obtain rfl := Option.some.inj (hx₁.symm.trans hplace)
    rcases h.cases hq with ⟨id', i', cells', x₀', rfl, hmem', hplace', heq, hi'⟩ | ⟨d',
      part', -, hcov'⟩
    · by_cases hid : id = id'
      · subst hid
        obtain rfl := Option.some.inj (hplace.symm.trans hplace')
        congr 1
        omega
      · have := h.apart id id' cells cells' _ _ hmem hmem' hplace hplace' hid
        omega
    · have := hcov'.bounds h.staffed
      omega
  · rcases h.cases hq with ⟨id', i', cells', x₀', rfl, hmem', hplace', heq, hi'⟩ | ⟨d', part',
      hstands', hcov'⟩
    · obtain ⟨x₁, hx₁, h₁, -, h₂⟩ := h.global id' cells' hmem'
      obtain rfl := Option.some.inj (hx₁.symm.trans hplace')
      have := hcov.bounds h.staffed
      omega
    · -- both stand in a frame: parts of frames do not overlap, so it is one part
      obtain ⟨rfl, rfl⟩ := hcov.unique h.staffed hcov'
      cases hstands with
      | cell ha hnode henv =>
        cases hstands' with
        | cell ha' _ henv' =>
          obtain ⟨rfl, rfl⟩ := Prod.mk.inj (Option.some.inj (ha.symm.trans ha'))
          cases henv.symm.trans henv'
          obtain ⟨_, x₀, -, hplace, -, rfl⟩ := hp.of_cell
          obtain ⟨_, x₁, -, hplace', -, heq⟩ := hq.of_cell
          obtain rfl := Option.some.inj (hplace.symm.trans hplace')
          congr 1
          omega
        | slot hnode' => exact absurd hnode hnode'
      | slot hnode =>
        cases hstands' with
        | cell _ hnode' => exact absurd hnode' hnode
        | slot => rfl
      | link =>
        cases hstands'
        rfl
      | out =>
        cases hstands'
        rfl

end Laid

def Agree (b : Board) (m : Module) (v : View) (mem : Int → Word) : Prop :=
  ∀ p x y, Located b m v p x → Content b m v p y → Rep v.place y (mem x)

section
variable {v v' : View} {mem : Int → Word}

theorem Agree.keep (h : Agree b m v mem) (hplace : v'.place = v.place)
    (hkeep : ∀ p x y, Located b m v' p x → Content b m v' p y → Located b m v p x ∧
      Content b m v p y) : Agree b m v' mem := by
  intro p x y hp hy
  obtain ⟨hp', hy'⟩ := hkeep p x y hp hy
  rw [hplace]
  exact h p x y hp' hy'

theorem Agree.write (p₀ : Place) {x₀ : Int} {y₀ : Val} {w : Word} (h : Agree b m v mem)
    (hl : Laid b m img v) (hloc : ∀ p x, Located b m v' p x → Located b m v p x)
    (hcont : ∀ p y, Content b m v' p y → p = p₀ ∧ y = y₀ ∨ p ≠ p₀ ∧ Content b m v p y)
    (hplace : v'.place = v.place) (h₀ : Located b m v p₀ x₀) (hrep : Rep v.place y₀ w) :
    Agree b m v' (Function.update mem x₀ w) := by
  intro p x y hp hy
  rw [hplace]
  rcases hcont p y hy with ⟨rfl, rfl⟩ | ⟨hne, hy⟩
  · rw [Laid.functional (hloc _ _ hp) h₀, Function.update_self]
    exact hrep
  · have hx : x ≠ x₀ := by
      rintro rfl
      exact hne (hl.injective (hloc _ _ hp) h₀)
    rw [Function.update_of_ne hx]
    exact h p x y (hloc _ _ hp) hy

theorem Agree.scratch (h : Agree b m v mem) (hl : Laid b m img v) {p₀ : Place} {x₀ : Int} {w : Word}
    (h₀ : Located b m v p₀ x₀) (hnone : ∀ y, ¬ Content b m v p₀ y) :
    Agree b m v (Function.update mem x₀ w) := by
  intro p x y hp hy
  have hx : x ≠ x₀ := by
    rintro rfl
    obtain rfl := hl.injective hp h₀
    exact hnone y hy
  rw [Function.update_of_ne hx]
  exact h p x y hp hy

end

/-! The latest activation goes on. -/

section
variable {top top' : Activation} {outer : List Activation} {mem : Region → Option (List Val)}
  {place : Region → Option Int} {links : List Word} {d : Nat} {a : Activation} {s : Int}

theorem stackPointer_top (hf : top'.func = top.func) :
    stackPointer b m (top' :: outer) = stackPointer b m (top :: outer) := by
  rw [stackPointer, stackPointer, hf]

theorem frameAt?_top (hf : top'.func = top.func)
    (h : frameAt? b m (top' :: outer) d = some (a, s)) :
    d = outer.length ∧ a = top' ∧ frameAt? b m (top :: outer) d = some (top, s) ∨
      d < outer.length ∧ frameAt? b m (top :: outer) d = some (a, s) := by
  rcases frameAt?_cons.mp h with ⟨rfl, rfl, rfl⟩ | ⟨hd, h⟩
  · exact .inl ⟨rfl, rfl, frameAt?_cons.mpr (.inl ⟨rfl, rfl, stackPointer_top hf⟩)⟩
  · exact .inr ⟨hd, frameAt?_cons.mpr (.inr ⟨hd, h⟩)⟩

theorem Staffed.advance (h : Staffed m (top :: outer)) (hf : top'.func = top.func) :
    Staffed m (top' :: outer) := by
  intro x hx
  rcases List.mem_cons.mp hx with rfl | hx
  · rw [hf]
    exact h top (List.mem_cons_self ..)
  · exact h x (List.mem_cons_of_mem _ hx)

theorem Laid.advance (h : Laid b m img ⟨top :: outer, mem, place, links⟩)
    (hf : top'.func = top.func) (henv : ∀ id, m.node? id = some .alloc → top'.env id = top.env id) :
    Laid b m img ⟨top' :: outer, mem, place, links⟩ := by
  refine ⟨h.staffed.advance hf, ?_, h.symbol, h.global, h.apart, fun n cells x hmem hplace => ?_⟩
  · have := h.room
    dsimp only at this ⊢
    rwa [stackPointer_top hf]
  · obtain ⟨d, a, s, fr, id, slot, ha, hfr, hslot, hnode, henv', hx, hsize⟩ :=
      h.owner n cells x hmem hplace
    rcases frameAt?_top hf.symm ha with ⟨hd, rfl, ha₀⟩ | ⟨hd, ha⟩
    · exact ⟨d, top', s, fr, id, slot, ha₀, by
        rw [hf]; exact hfr, hslot, hnode, by rw [henv id hnode]; exact henv',
        hx, hsize⟩
    · exact ⟨d, a, s, fr, id, slot, ha, hfr, hslot, hnode, henv', hx, hsize⟩

theorem Located.advance {p : Place} {x : Int} (hf : top'.func = top.func)
    (h : Located b m ⟨top' :: outer, mem, place, links⟩ p x) :
    Located b m ⟨top :: outer, mem, place, links⟩ p x := by
  have hat {d : Nat} {a : Activation} {s : Int} {fr : Frame} (ha : frameAt? b m (top' :: outer) d =
    some (a, s))
      (hfr : frameOf m a.func = some fr) :
      ∃ a₀, frameAt? b m (top :: outer) d = some (a₀, s) ∧ frameOf m a₀.func = some fr := by
    rcases frameAt?_top hf ha with ⟨hd, rfl, ha₀⟩ | ⟨hd, ha⟩
    · exact ⟨top, ha₀, by rw [← hf]; exact hfr⟩
    · exact ⟨a, ha, hfr⟩
  cases h with
  | cell hmem hplace hi => exact .cell hmem hplace hi
  | slot ha hfr hslot hnode =>
    obtain ⟨a₀, ha₀, hfr₀⟩ := hat ha hfr
    exact .slot ha₀ hfr₀ hslot hnode
  | link ha hfr hcall =>
    obtain ⟨a₀, ha₀, hfr₀⟩ := hat ha hfr
    exact .link ha₀ hfr₀ hcall
  | out ha hfr hi =>
    obtain ⟨a₀, ha₀, hfr₀⟩ := hat ha hfr
    exact .out ha₀ hfr₀ hi

/-- What the latest activation still holds after it has changed in a way that only touches `id`. -/
theorem Content.advance {p : Place} {y : Val} (hf : top'.func = top.func) (id : ValueId)
    (henv : ∀ id', id' ≠ id → top'.env id' = top.env id')
    (hargs : top'.block = 1 → top.block = 1 ∧ top'.args = top.args)
    (h : Content b m ⟨top' :: outer, mem, place, links⟩ p y) :
    p = .slot outer.length id ∧ top'.env id = some y ∨
      p ≠ .slot outer.length id ∧ Content b m ⟨top :: outer, mem, place, links⟩ p y := by
  cases h with
  | cell hmem hx => exact .inr ⟨by simp, .cell hmem hx⟩
  | @slot d a s id' _ ha hx =>
    rcases frameAt?_top hf ha with ⟨rfl, rfl, ha₀⟩ | ⟨hd, ha⟩
    · by_cases hid : id' = id
      · subst hid
        exact .inl ⟨rfl, hx⟩
      · exact .inr ⟨by simp [hid], .slot ha₀ (by rw [← henv id' hid]; exact hx)⟩
    · exact .inr ⟨by simp only [ne_eq, Place.slot.injEq]; omega, .slot ha hx⟩
  | link hacts hlinks hd hws =>
    refine .inr ⟨by simp, ?_⟩
    rcases List.suffix_cons_iff.mp hacts with heq | hacts
    · cases heq
      exact .link List.suffix_rfl hlinks hd hws
    · exact .link (hacts.trans (List.suffix_cons _ _)) hlinks hd hws
  | out hacts hd hblock hx =>
    cases hacts
    obtain ⟨hblock', hargs'⟩ := hargs hblock
    exact .inr ⟨by simp, .out rfl hd hblock' (by rw [← hargs']; exact hx)⟩

theorem Agree.advance {μ : Int → Word} (h : Agree b m ⟨top :: outer, mem, place, links⟩ μ)
    (hf : top'.func = top.func) (henv : top'.env = top.env)
    (hargs : top'.block = 1 → top.block = 1 ∧ top'.args = top.args) :
    Agree b m ⟨top' :: outer, mem, place, links⟩ μ := by
  refine h.keep rfl fun p x y hp hy => ⟨hp.advance hf, ?_⟩
  rcases hy.advance hf 0 (fun _ _ => by rw [henv]) hargs with ⟨rfl, hy'⟩ | ⟨-, hy'⟩
  · cases hy with
    | slot ha hx =>
      rcases frameAt?_top hf ha with ⟨-, rfl, ha₀⟩ | ⟨hd, ha⟩
      · exact .slot ha₀ (by rw [← henv]; exact hx)
      · exact .slot ha hx
  · exact hy'

end

/-! Regions are written, made and dropped. -/

section
variable {top : Activation} {acts outer : List Activation} {mem mem' : Region → Option (List Val)}
  {place : Region → Option Int} {links : List Word} {μ : Int → Word}

/-- Regions may change as long as they keep their sizes, and may go away. -/
theorem Laid.resized (h : Laid b m img ⟨acts, mem, place, links⟩)
    (hsize : ∀ r cells', mem' r = some cells' → ∃ cells, mem r = some cells ∧
      cells.length = cells'.length) : Laid b m img ⟨acts, mem', place, links⟩ := by
  refine ⟨h.staffed, h.room, h.symbol, fun id cells' hmem => ?_,
    fun id id' cells' cells₁' x x' hmem hmem₁ => ?_,
    fun n cells' x hmem hplace => ?_⟩
  · obtain ⟨cells, hcells, hlen⟩ := hsize _ _ hmem
    rw [← hlen]
    exact h.global id cells hcells
  · obtain ⟨cells, hcells, hlen⟩ := hsize _ _ hmem
    obtain ⟨cells₁, hcells₁, hlen₁⟩ := hsize _ _ hmem₁
    rw [← hlen, ← hlen₁]
    exact h.apart id id' cells cells₁ x x' hcells hcells₁
  · obtain ⟨cells, hcells, hlen⟩ := hsize _ _ hmem
    rw [← hlen]
    exact h.owner n cells x hcells hplace

theorem size_update {r : Region} {cells new : List Val} (hmem : mem r = some cells)
    (hlen : new.length = cells.length) :
    ∀ r' cells', Function.update mem r (some new) r' = some cells' →
      ∃ cells, mem r' = some cells ∧ cells.length = cells'.length := by
  intro r' cells' h
  by_cases hr : r' = r
  · subst hr
    rw [Function.update_self] at h
    obtain rfl := Option.some.inj h
    exact ⟨cells, hmem, hlen.symm⟩
  · rw [Function.update_of_ne hr] at h
    exact ⟨cells', h, rfl⟩

theorem Located.resized {p : Place} {x : Int}
    (hsize : ∀ r cells', mem' r = some cells' → ∃ cells, mem r = some cells ∧
      cells.length = cells'.length) (h : Located b m ⟨acts, mem', place, links⟩ p x) :
    Located b m ⟨acts, mem, place, links⟩ p x := by
  cases h with
  | cell hmem hplace hi =>
    obtain ⟨cells, hcells, hlen⟩ := hsize _ _ hmem
    exact .cell hcells hplace (by omega)
  | slot ha hfr hslot hnode => exact .slot ha hfr hslot hnode
  | link ha hfr hcall => exact .link ha hfr hcall
  | out ha hfr hi => exact .out ha hfr hi

theorem Agree.store (h : Agree b m ⟨acts, mem, place, links⟩ μ)
    (hl : Laid b m img ⟨acts, mem, place, links⟩) {r : Region} {cells : List Val} {i : Nat}
    {x : Int} {y : Val} {w : Word} (hmem : mem r = some cells) (hplace : place r = some x)
    (hi : i < cells.length) (hrep : Rep place y w) :
    Agree b m ⟨acts, Function.update mem r (some (cells.set i y)), place, links⟩
      (Function.update μ (x + 4 * i) w) := by
  have hsize := size_update hmem (show (cells.set i y).length = cells.length from List.length_set)
  refine h.write (.cell r i) hl (fun p x hp => hp.resized hsize) (fun p y' hy => ?_) rfl
    (.cell hmem hplace hi) hrep
  cases hy with
  | @cell r' cells' i' _ hmem' hx =>
    dsimp only at hmem'
    by_cases hr : r' = r
    · subst hr
      rw [Function.update_self] at hmem'
      obtain rfl := Option.some.inj hmem'
      by_cases hii : i' = i
      · subst hii
        rw [List.getElem?_set_self hi] at hx
        exact .inl ⟨rfl, (Option.some.inj hx).symm⟩
      · rw [List.getElem?_set_ne (Ne.symm hii)] at hx
        exact .inr ⟨by simp [hii], .cell hmem hx⟩
    · rw [Function.update_of_ne hr] at hmem'
      exact .inr ⟨by simp [hr], .cell hmem' hx⟩
  | slot ha hx => exact .inr ⟨by simp, .slot ha hx⟩
  | link hacts hlinks hd hws => exact .inr ⟨by simp, .link hacts hlinks hd hws⟩
  | out hacts hd hblock hx => exact .inr ⟨by simp, .out hacts hd hblock hx⟩

theorem Rep.mono {place' : Region → Option Int} {y : Val} {w : Word} (h : Rep place y w)
    (hplace : ∀ r x, place r = some x → place' r = some x) : Rep place' y w := by
  cases y with
  | word => exact h
  | addr r o =>
    obtain ⟨x, hx, hw⟩ := h
    exact ⟨x, hplace r x hx, hw⟩

theorem Agree.set {id : ValueId} {y : Val} {fr : Frame} {slot : Slot} {w : Word}
    (h : Agree b m ⟨top :: outer, mem, place, links⟩ μ)
    (hl : Laid b m img ⟨top :: outer, mem, place, links⟩) (hfr : frameOf m top.func = some fr)
    (hslot : fr.slot? id = some slot) (hnode : m.node? id ≠ some .alloc) (hrep : Rep place y w) :
    Agree b m ⟨top.set id y :: outer, mem, place, links⟩
      (Function.update μ (stackPointer b m (top :: outer) + slot.offset) w) := by
  refine h.write (.slot outer.length id) hl (fun p x hp => hp.advance (top.func_set ..))
    (fun p y' hy => ?_) rfl ?_ hrep
  · rcases hy.advance (top.func_set ..) id (fun id' hne => top.env_set_of_ne _ hne)
      (fun hb => ⟨hb, rfl⟩) with ⟨rfl, hy'⟩ | hy'
    · rw [Activation.env_set_self] at hy'
      exact .inl ⟨rfl, (Option.some.inj hy').symm⟩
    · exact .inr hy'
  · exact .slot (frameAt?_cons.mpr (.inl ⟨rfl, rfl, rfl⟩)) hfr hslot hnode

theorem Agree.drop {id : ValueId} {y : Val} {fr : Frame}
    (h : Agree b m ⟨top :: outer, mem, place, links⟩ μ) (hfr : frameOf m top.func = some fr)
    (hslot : fr.slot? id = none) :
    Agree b m ⟨top.set id y :: outer, mem, place, links⟩ μ := by
  refine h.keep rfl fun p x y' hp hy => ⟨hp.advance (top.func_set ..), ?_⟩
  rcases hy.advance (top.func_set ..) id (fun id' hne => top.env_set_of_ne _ hne)
    (fun hb => ⟨hb, rfl⟩) with ⟨rfl, -⟩ | ⟨-, hy⟩
  · cases hp with
    | slot ha hfr' hslot' =>
      rcases frameAt?_cons.mp ha with ⟨-, rfl, -⟩ | ⟨hlt, -⟩
      · obtain rfl := Option.some.inj (hfr.symm.trans hfr')
        rw [hslot] at hslot'
        cases hslot'
      · omega
  · exact hy

theorem place_update {n : Nat} (x? : Option Int) (hplace : place (.local n) = none) :
    ∀ r x, place r = some x → Function.update place (.local n) x? r = some x := by
  intro r x hr
  have hne : r ≠ .local n := by
    rintro rfl
    cases hplace.symm.trans hr
  rwa [Function.update_of_ne hne]

theorem Located.of_reserve {n : Nat} {cells : List Val} {x? : Option Int} {p : Place} {x : Int}
    (h : Located b m ⟨acts, Function.update mem (.local n) (some cells),
      Function.update place (.local n) x?, links⟩ p x)
    (hne : ∀ i, p ≠ .cell (.local n) i) : Located b m ⟨acts, mem, place, links⟩ p x := by
  cases h with
  | @cell r _ _ i hmem hplace hi =>
    have hr : r ≠ .local n := fun hr => hne i (by rw [hr])
    dsimp only at hmem hplace
    rw [Function.update_of_ne hr] at hmem hplace
    exact .cell hmem hplace hi
  | slot ha hfr hslot hnode => exact .slot ha hfr hslot hnode
  | link ha hfr hcall => exact .link ha hfr hcall
  | out ha hfr hi => exact .out ha hfr hi

theorem Content.of_reserve {n : Nat} {cells : List Val} {place' : Region → Option Int} {p : Place}
    {y : Val}
    (h : Content b m ⟨acts, Function.update mem (.local n) (some cells), place', links⟩ p y)
    (hne : ∀ i, p ≠ .cell (.local n) i) : Content b m ⟨acts, mem, place, links⟩ p y := by
  cases h with
  | @cell r _ i _ hmem hy =>
    have hr : r ≠ .local n := fun hr => hne i (by rw [hr])
    dsimp only at hmem
    rw [Function.update_of_ne hr] at hmem
    exact .cell hmem hy
  | slot ha hx => exact .slot ha hx
  | link hacts hlinks hd hws => exact .link hacts hlinks hd hws
  | out hacts hd hblock hx => exact .out hacts hd hblock hx

theorem Laid.reserve {id : ValueId} {n : Nat} {fr : Frame} {cells : List Val} {x? : Option Int}
    (hl : Laid b m img ⟨top :: outer, mem, place, links⟩) (hfr : frameOf m top.func = some fr)
    (hnode : m.node? id = some .alloc) (henv : top.env id = none)
    (hsize : ∀ s, fr.slot? id = some s → s.size = 4 * cells.length)
    (hx : x? = (fr.slot? id).map fun s => stackPointer b m (top :: outer) + s.offset) :
    Laid b m img ⟨top.own id n :: outer, Function.update mem (.local n) (some cells),
      Function.update place (.local n) x?, links⟩ := by
  have hglobal (g : ValueId) : Region.global g ≠ .local n := by simp
  refine ⟨hl.staffed.advance (top.func_own id n), ?_, fun g hg => ?_, fun g cells' hmem => ?_,
    fun g g' c c' x x' hm hm' hp hp' => ?_, fun n' cells' x hmem hpl => ?_⟩
  · have := hl.room
    rwa [stackPointer_top (top.func_own id n)]
  · dsimp only
    rw [Function.update_of_ne (hglobal g)]
    exact hl.symbol g hg
  · dsimp only at hmem ⊢
    rw [Function.update_of_ne (hglobal g)] at hmem ⊢
    exact hl.global g cells' hmem
  · dsimp only at hm hm' hp hp'
    rw [Function.update_of_ne (hglobal g)] at hm hp
    rw [Function.update_of_ne (hglobal g')] at hm' hp'
    exact hl.apart g g' c c' x x' hm hm' hp hp'
  · dsimp only at hmem hpl
    by_cases hn : n' = n
    · subst hn
      rw [Function.update_self] at hmem hpl
      obtain rfl := Option.some.inj hmem
      rw [hx] at hpl
      obtain ⟨slot, hslot, rfl⟩ := Option.map_eq_some_iff.mp hpl
      exact ⟨outer.length, top.own id n', _, fr, id, slot, frameAt?_cons.mpr (.inl ⟨rfl, rfl, rfl⟩),
        hfr, hslot,
        hnode, top.env_set_self .., rfl, hsize slot hslot⟩
    · -- an older region is owned as before, as `id` had none until now
      have hlocal : Region.local n' ≠ .local n := by simpa using hn
      rw [Function.update_of_ne hlocal] at hmem hpl
      obtain ⟨d, a, s, fr', id', slot, ha, hfr', hslot, hnode', henv', hx', hsize'⟩ :=
        hl.owner n' cells' x hmem hpl
      rcases frameAt?_top (top.func_own id n).symm ha with ⟨hd, rfl, ha₀⟩ | ⟨hd, ha⟩
      · have hne : id' ≠ id := by
          rintro rfl
          rw [henv] at henv'
          cases henv'
        exact ⟨d, a.own id n, s, fr', id', slot, ha₀, hfr', hslot, hnode',
          (a.env_set_of_ne _ hne).trans henv', hx', hsize'⟩
      · exact ⟨d, a, s, fr', id', slot, ha, hfr', hslot, hnode', henv', hx', hsize'⟩

theorem Agree.reserve {id : ValueId} {n : Nat} {fr : Frame} {cells : List Val} {x? : Option Int}
    (h : Agree b m ⟨top :: outer, mem, place, links⟩ μ) (hnode : m.node? id = some .alloc)
    (hplace : place (.local n) = none)
    (hcells : ∀ s (i : Nat) y, fr.slot? id = some s → cells[i]? = some y →
      y = Val.word (μ (stackPointer b m (top :: outer) + s.offset + 4 * i)))
    (hx : x? = (fr.slot? id).map fun s => stackPointer b m (top :: outer) + s.offset) :
    Agree b m ⟨top.own id n :: outer, Function.update mem (.local n) (some cells),
      Function.update place (.local n) x?, links⟩ μ := by
  intro p x y hp hy
  by_cases hcell : ∃ i, p = .cell (.local n) i
  · obtain ⟨i, rfl⟩ := hcell
    obtain ⟨_, x₀, hmem, hpl, hi, rfl⟩ := hp.of_cell
    cases hy with
    | cell hmem' hy =>
      dsimp only at hmem hpl hmem'
      rw [Function.update_self] at hmem hpl hmem'
      obtain rfl := Option.some.inj hmem'
      rw [hx] at hpl
      obtain ⟨slot, hslot, rfl⟩ := Option.map_eq_some_iff.mp hpl
      obtain rfl := hcells slot i y hslot hy
      exact rfl
  · rw [not_exists] at hcell
    have hp₀ := (hp.of_reserve hcell).advance (top.func_own id n)
    refine (h p x y hp₀ ?_).mono (place_update x? hplace)
    rcases (hy.of_reserve hcell).advance (top.func_own id n) id
      (fun id' hne => top.env_set_of_ne _ hne)
      (fun hb => ⟨hb, rfl⟩) with ⟨rfl, -⟩ | ⟨-, hy⟩
    · cases hp₀ with
      | slot _ _ _ hnot => exact absurd hnode hnot
    · exact hy

end

/-! Activations come and go. -/

section
variable {top : Activation} {outer : List Activation} {mem mem' : Region → Option (List Val)}
  {place : Region → Option Int} {links : List Word} {μ : Int → Word} {w : Word}

theorem Agree.below {v : View} (h : Agree b m v μ) (hl : Laid b m img v) {x : Int}
    (hlow : img.dataEnd b ≤ x) (hhigh : x < stackPointer b m v.acts) :
    Agree b m v (Function.update μ x w) := by
  intro p x' y hp hy
  have hx : x' ≠ x := by
    rintro rfl
    rcases hl.cases hp with ⟨id, i, cells, x₀, rfl, hmem, hplace, rfl, hi⟩ | ⟨d, part, -, hcov⟩
    · obtain ⟨x₁, hx₁, -, -, hend⟩ := hl.global id cells hmem
      obtain rfl := Option.some.inj (hx₁.symm.trans hplace)
      omega
    · have := hcov.bounds hl.staffed
      omega
  rw [Function.update_of_ne hx]
  exact h p x' y hp hy

theorem Located.pop {p : Place} {x : Int}
    (h : Located b m ⟨outer, mem, place, links⟩ p x) :
    Located b m ⟨top :: outer, mem, place, w :: links⟩ p x := by
  have hat {d : Nat} {a : Activation} {s : Int} (ha : frameAt? b m outer d = some (a, s)) :
      frameAt? b m (top :: outer) d = some (a, s) :=
        frameAt?_cons.mpr (.inr ⟨lt_of_frameAt? ha, ha⟩)
  cases h with
  | cell hmem hplace hi => exact .cell hmem hplace hi
  | slot ha hfr hslot hnode => exact .slot (hat ha) hfr hslot hnode
  | link ha hfr hcall => exact .link (hat ha) hfr hcall
  | out ha hfr hi => exact .out (hat ha) hfr hi

theorem Laid.push (h : Laid b m img ⟨outer, mem, place, links⟩)
    (hstaffed : Staffed m (top :: outer))
    (hroom : img.dataEnd b ≤ stackPointer b m (top :: outer)) :
    Laid b m img ⟨top :: outer, mem, place, w :: links⟩ := by
  refine ⟨hstaffed, hroom, h.symbol, h.global, h.apart, fun n cells x hmem hplace => ?_⟩
  obtain ⟨d, a, s, fr, id, slot, ha, hrest⟩ := h.owner n cells x hmem hplace
  exact ⟨d, a, s, fr, id, slot, frameAt?_cons.mpr (.inr ⟨lt_of_frameAt? ha, ha⟩), hrest⟩

theorem Agree.push {fr : Frame} (h : Agree b m ⟨outer, mem, place, links⟩ μ)
    (hfr : frameOf m top.func = some fr) (henv : ∀ id, top.env id = none)
    (hlen : links.length = outer.length)
    (hargs : ∀ (i : Nat) y, top.args[8 + i]? = some y →
      Rep place y (μ (stackPointer b m outer + 4 * i)))
    (hlink : fr.hasCall = true → μ (stackPointer b m (top :: outer) + fr.raOffset) = w) :
    Agree b m ⟨top :: outer, mem, place, w :: links⟩ μ := by
  intro p x y hp hy
  cases hy with
  | cell hmem hy =>
    obtain ⟨cells, x₀, hmem', hplace, hi, rfl⟩ := hp.of_cell
    exact h _ _ _ (.cell hmem' hplace hi) (.cell hmem hy)
  | slot ha hy =>
    rcases frameAt?_cons.mp ha with ⟨-, rfl, -⟩ | ⟨hd, ha⟩
    · rw [henv] at hy
      cases hy
    · cases hp with
      | slot ha' hfr' hslot hnode =>
        rcases frameAt?_cons.mp ha' with ⟨heq, -⟩ | ⟨-, ha'⟩
        · omega
        · exact h _ _ _ (.slot ha' hfr' hslot hnode) (.slot ha hy)
  | link hacts hlinks hd hws =>
    cases hp with
    | link ha hfr' hcall =>
      rcases frameAt?_cons.mp ha with ⟨rfl, rfl, rfl⟩ | ⟨hlt, ha⟩
      · obtain rfl := Option.some.inj (hfr.symm.trans hfr')
        rcases List.suffix_cons_iff.mp hlinks with heq | hlinks
        · cases heq
          exact hlink hcall
        · have := hlinks.length_le
          rw [List.length_cons] at this
          omega
      · rcases List.suffix_cons_iff.mp hacts with heq | hacts
        · cases heq
          omega
        · rcases List.suffix_cons_iff.mp hlinks with heq | hlinks
          · cases heq
            omega
          · exact h _ _ _ (.link ha hfr' hcall) (.link hacts hlinks hd hws)
  | out hacts hd hblock hy =>
    cases hacts
    cases hp with
    | out ha hfr' hi =>
      rcases frameAt?_cons.mp ha with ⟨heq, -⟩ | ⟨-, ha⟩
      · omega
      · cases outer with
        | nil => cases hd
        | cons c rest =>
          rcases frameAt?_cons.mp ha with ⟨-, -, rfl⟩ | ⟨hlt, -⟩
          · exact hargs _ _ hy
          · rw [List.length_cons] at hd
            omega

theorem Laid.pop (h : Laid b m img ⟨top :: outer, mem, place, w :: links⟩)
    (hkeep : ∀ r cells, mem' r = some cells → mem r = some cells)
    (hfree : ∀ id n, m.node? id = some .alloc → top.env id = some (.addr (.local n) 0) →
      mem' (.local n) = none) : Laid b m img ⟨outer, mem', place, links⟩ := by
  refine ⟨h.staffed.tail, ?_, h.symbol, fun id cells hmem => h.global id cells (hkeep _ _ hmem),
    fun id id' c c' x x' hm hm' => h.apart id id' c c' x x' (hkeep _ _ hm) (hkeep _ _ hm'),
    fun n cells x hmem hplace => ?_⟩
  · have hroom := h.room
    have hsize := h.staffed.size (List.mem_cons_self ..)
    dsimp only at hroom ⊢
    rw [stackPointer] at hroom
    omega
  · obtain ⟨d, a, s, fr, id, slot, ha, hfr, hslot, hnode, henv, hrest⟩ :=
      h.owner n cells x (hkeep _ _ hmem) hplace
    rcases frameAt?_cons.mp ha with ⟨-, rfl, -⟩ | ⟨-, ha⟩
    · have hmem' : mem' (.local n) = some cells := hmem
      rw [hfree id n hnode henv] at hmem'
      cases hmem'
    · exact ⟨d, a, s, fr, id, slot, ha, hfr, hslot, hnode, henv, hrest⟩

theorem Agree.pop (h : Agree b m ⟨top :: outer, mem, place, w :: links⟩ μ)
    (hblock : ∀ a ∈ outer, a.block ≠ 1)
    (hkeep : ∀ r cells, mem' r = some cells → mem r = some cells) :
    Agree b m ⟨outer, mem', place, links⟩ μ := by
  refine h.keep rfl fun p x y hp hy => ⟨?_, ?_⟩
  · exact (hp.resized fun r cells hmem => ⟨cells, hkeep r cells hmem, rfl⟩).pop
  · cases hy with
    | cell hmem hy => exact .cell (hkeep _ _ hmem) hy
    | slot ha hy => exact .slot (frameAt?_cons.mpr (.inr ⟨lt_of_frameAt? ha, ha⟩)) hy
    | link hacts hlinks hd hws =>
      exact .link (hacts.trans (List.suffix_cons _ _)) (hlinks.trans (List.suffix_cons _ _)) hd hws
    | out hacts _ hb =>
      cases hacts
      exact absurd hb (hblock _ (List.mem_cons_self ..))

end

end Sysy.Assembly
