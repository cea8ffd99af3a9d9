import Mathlib.Data.List.Forall2
import Mathlib.Data.List.Induction
import Sysy.Scope

/-!
What a name means is settled by what happened before.

A history is a list of operations on scopes. `IsOpen` says which frames it leaves open, by counting:
a frame is closed by the first exit behind it that no later frame needs. `Binds` says what a frame
gives for a name, the first definition made while the frame was innermost. Main statement: after any
history a name means what the innermost open frame gives that gives anything, and nothing that
happened in a frame matters once it is closed.
-/

namespace Sysy.Scope
variable {β : Type}

inductive Op (β : Type) where
  | enter (kind : ScopeKind)
  | exit
  | define (name : String) (b : β)
  | resolve (name : String)

/-- A definition that fails changes nothing, and neither does looking up a name. -/
def step (s : Scope β) : Op β → Scope β
  | .enter kind => s.enter kind
  | .exit => s.exit
  | .define name b => match s.define name b with
    | .ok s' => s'
    | .error _ => s
  | .resolve _ => s

/-- The scopes after a history that begins with the global frame alone. -/
def after (ops : List (Op β)) : Scope β := ops.foldl step {}

/-! What a history says, without any scopes. -/

namespace Op

def change : Op β → Int
  | enter _ => 1
  | exit => -1
  | _ => 0

def balance : List (Op β) → Int
  | [] => 0
  | op :: ops => op.change + balance ops

/-- No exit is left over, wherever one stops: none of the operations leaves a frame that was entered
before them. -/
def Stays (ops : List (Op β)) : Prop := ∀ front, front <+: ops → 0 ≤ balance front

def WellNested (ops : List (Op β)) : Prop := Stays ops ∧ balance ops = 0

/-- The frames that a history leaves open. Frame `0` is the global one, and frame `i + 1` is entered
by the operation with the number `i`. -/
def IsOpen (ops : List (Op β)) : Nat → Prop
  | 0 => True
  | i + 1 => (∃ kind, ops[i]? = some (enter kind)) ∧ Stays (ops.drop (i + 1))

def Innermost (ops : List (Op β)) (f : Nat) : Prop := IsOpen ops f ∧ ∀ g, IsOpen ops g → g ≤ f

/-- The operation with the number `i` defines a name in frame `f`, or tries to. -/
def Defines (ops : List (Op β)) (f : Nat) (name : String) (b : β) (i : Nat) : Prop :=
  ops[i]? = some (define name b) ∧ Innermost (ops.take i) f

/-- What frame `f` gives for a name: its first definition there. -/
def Binds (ops : List (Op β)) (f : Nat) (name : String) (b : β) : Prop :=
  ∃ i, Defines ops f name b i ∧ ∀ j < i, ∀ b', ¬ Defines ops f name b' j

def Means (ops : List (Op β)) (name : String) (b : β) : Prop :=
  ∃ f, IsOpen ops f ∧ Binds ops f name b ∧ ∀ g, IsOpen ops g → f < g → ∀ b', ¬ Binds ops g name b'

variable {ops : List (Op β)} {op : Op β} {f i : Nat} {name : String} {b : β}

@[simp] theorem balance_nil : balance ([] : List (Op β)) = 0 := rfl

@[simp] theorem balance_append (ops ops' : List (Op β)) :
    balance (ops ++ ops') = balance ops + balance ops' := by
  induction ops with
  | nil => exact (Int.zero_add _).symm
  | cons op ops ih =>
    show op.change + balance (ops ++ ops') = op.change + balance ops + balance ops'
    rw [ih, Int.add_assoc]

@[simp] theorem balance_singleton (op : Op β) : balance [op] = op.change := Int.add_zero _

theorem stays_nil : Stays ([] : List (Op β)) := by
  intro front hfront
  rw [List.prefix_nil.mp hfront]
  exact Int.le_refl 0

theorem stays_concat : Stays (ops ++ [op]) ↔ Stays ops ∧ 0 ≤ balance ops + op.change := by
  constructor
  · intro h
    refine ⟨fun front hfront => h front (hfront.trans (List.prefix_append ops [op])), ?_⟩
    have hall := h _ (List.prefix_refl _)
    rwa [balance_append, balance_singleton] at hall
  · rintro ⟨h, hlast⟩ front hfront
    rcases List.prefix_concat_iff.mp hfront with rfl | hfront
    · rwa [balance_append, balance_singleton]
    · exact h front hfront

theorem isOpen_succ : IsOpen ops (i + 1) ↔ (∃ kind, ops[i]? = some (enter kind)) ∧
    Stays (ops.drop (i + 1)) := Iff.rfl

theorem IsOpen.le (h : IsOpen ops f) : f ≤ ops.length := by
  cases f with
  | zero => exact Nat.zero_le _
  | succ i =>
    obtain ⟨⟨kind, hkind⟩, -⟩ := h
    exact (List.getElem?_eq_some_iff.mp hkind).1

theorem isOpen_concat (hle : f ≤ ops.length) :
    IsOpen (ops ++ [op]) f ↔ IsOpen ops f ∧ (f = 0 ∨ 0 ≤ balance (ops.drop f) + op.change) := by
  cases f with
  | zero => exact iff_of_true trivial ⟨trivial, .inl rfl⟩
  | succ i =>
    rw [isOpen_succ, isOpen_succ, List.getElem?_append_left hle, List.drop_append_of_le_length hle,
      stays_concat]
    constructor
    · rintro ⟨henter, hstays, hlast⟩
      exact ⟨⟨henter, hstays⟩, .inr hlast⟩
    · rintro ⟨⟨henter, hstays⟩, hlast⟩
      exact ⟨henter, hstays, hlast.resolve_left (Nat.succ_ne_zero i)⟩

theorem isOpen_new : IsOpen (ops ++ [op]) (ops.length + 1) ↔ ∃ kind, op = enter kind := by
  rw [isOpen_succ, List.getElem?_concat_length, List.drop_of_length_le (by simp)]
  simp [stays_nil]

theorem defines_concat (hi : i < ops.length) : Defines (ops ++ [op]) f name b i ↔
    Defines ops f name b i := by
  unfold Defines
  rw [List.getElem?_append_left hi, List.take_append_of_le_length (Nat.le_of_lt hi)]

theorem defines_new : Defines (ops ++ [op]) f name b ops.length ↔ op = define name b ∧
    Innermost ops f := by
  unfold Defines
  rw [List.getElem?_concat_length, List.take_left, Option.some.injEq]

theorem Defines.lt (h : Defines ops f name b i) : i < ops.length :=
  (List.getElem?_eq_some_iff.mp h.1).1

theorem Defines.exists_binds (h : Defines ops f name b i) : ∃ b', Binds ops f name b' := by
  induction i using Nat.strongRecOn generalizing b with
  | ind i ih =>
    by_cases hfirst : ∀ j < i, ∀ b', ¬ Defines ops f name b' j
    · exact ⟨b, i, h, hfirst⟩
    · push Not at hfirst
      obtain ⟨j, hj, b', hdefines⟩ := hfirst
      exact ih j hj hdefines

theorem binds_concat : Binds (ops ++ [op]) f name b ↔
    Binds ops f name b ∨ op = define name b ∧ Innermost ops f ∧ ∀ b', ¬ Binds ops f name b' := by
  constructor
  · rintro ⟨i, hdefines, hfirst⟩
    have hi : i < ops.length + 1 := by simpa using hdefines.lt
    rcases Nat.lt_succ_iff_lt_or_eq.mp hi with hi | rfl
    · exact .inl ⟨i, (defines_concat hi).mp hdefines, fun j hj b' h =>
        hfirst j hj b' ((defines_concat (Nat.lt_trans hj hi)).mpr h)⟩
    · obtain ⟨hop, hinnermost⟩ := defines_new.mp hdefines
      refine .inr ⟨hop, hinnermost, fun b' hbinds => ?_⟩
      obtain ⟨j, hj, -⟩ := hbinds
      exact hfirst j hj.lt b' ((defines_concat hj.lt).mpr hj)
  · rintro (⟨i, hdefines, hfirst⟩ | ⟨hop, hinnermost, hnew⟩)
    · have hi := hdefines.lt
      exact ⟨i, (defines_concat hi).mpr hdefines, fun j hj b' h =>
        hfirst j hj b' ((defines_concat (Nat.lt_trans hj hi)).mp h)⟩
    · refine ⟨ops.length, defines_new.mpr ⟨hop, hinnermost⟩, fun j hj b' h => ?_⟩
      obtain ⟨b'', hbinds⟩ := ((defines_concat hj).mp h).exists_binds
      exact hnew b'' hbinds

theorem Binds.le (h : Binds ops f name b) : f ≤ ops.length := by
  obtain ⟨i, hdefines, -⟩ := h
  exact Nat.le_trans hdefines.2.1.le (List.length_take_le' i ops)

end Op

/-! Scopes as a list of frames, the innermost first and the global one last. -/

section Frames
variable {s : Scope β} {top : List (String × β)} {below : List (List (String × β))}
  {name : String} {b : β}

def frames (s : Scope β) : List (List (String × β)) := s.inner.map (·.2) ++ [s.outermost]

theorem length_frames (s : Scope β) : s.frames.length = s.depth := by simp [frames, depth]

theorem exit_of_frames (h : s.frames = [top]) : s.exit = s := by
  obtain ⟨_ | ⟨frame, inner⟩, outermost⟩ := s
  · rfl
  · simp [frames] at h

theorem frames_exit (h : s.frames = top :: below) (hbelow : below ≠ []) :
    s.exit.frames = below := by
  obtain ⟨_ | ⟨frame, inner⟩, outermost⟩ := s
  · exact absurd (List.cons.inj h).2.symm hbelow
  · exact (List.cons.inj h).2

theorem define_known (h : s.frames = top :: below) (hknown : (top.lookup name).isSome = true) :
    s.define name b = .error (.duplicate name) := by
  obtain ⟨_ | ⟨⟨kind, names⟩, inner⟩, outermost⟩ := s
  · obtain rfl : outermost = top := (List.cons.inj h).1
    simp only [define]
    rw [if_pos hknown]
  · obtain rfl : names = top := (List.cons.inj h).1
    simp only [define]
    rw [if_pos hknown]

theorem define_new (h : s.frames = top :: below) (hnew : top.lookup name = none) :
    ∃ s', s.define name b = .ok s' ∧ s'.frames = ((name, b) :: top) :: below := by
  have hnone : ¬ (top.lookup name).isSome = true := by rw [hnew]; exact Bool.false_ne_true
  obtain ⟨_ | ⟨⟨kind, names⟩, inner⟩, outermost⟩ := s
  · obtain ⟨rfl, rfl⟩ : outermost = top ∧ [] = below := List.cons.inj h
    refine ⟨{ outermost := (name, b) :: outermost }, ?_, rfl⟩
    simp only [define]
    rw [if_neg hnone]
  · obtain ⟨rfl, rfl⟩ : names = top ∧ frames { inner, outermost } = below := List.cons.inj h
    refine ⟨{ inner := (kind, (name, b) :: names) :: inner, outermost }, ?_, rfl⟩
    simp only [define]
    rw [if_neg hnone]

theorem resolve_eq (s : Scope β) (name : String) :
    s.resolve name = match s.frames.findSome? (·.lookup name) with
    | some b => .ok b
    | none => .error (.notFound name) := by
  have hfind : s.frames.findSome? (·.lookup name) =
      (s.inner.findSome? fun f => f.2.lookup name).or (s.outermost.lookup name) := by
    rw [frames, List.findSome?_append, List.findSome?_map, List.findSome?_singleton]
    rfl
  rw [hfind]
  rfl

end Frames

namespace Op
variable {ops : List (Op β)} {op : Op β} {frames : List (List (String × β))} {opens : List Nat}
  {top : List (String × β)} {below : List (List (String × β))} {f : Nat} {rest : List Nat}
    {name : String} {b : β}

structure Follows (ops : List (Op β)) (frames : List (List (String × β)))
    (opens : List Nat) : Prop where
  opened : ∀ f, IsOpen ops f ↔ f ∈ opens
  sorted : opens.Pairwise (· > ·)
  /-- Behind the entry of a frame as many more frames are entered than left as are open inside
  it. -/
  above : ∀ (k f : Nat), opens[k]? = some f → f ≠ 0 → balance (ops.drop f) = k
  names : List.Forall₂ (fun names f => ∀ name b, names.lookup name = some b ↔ Binds ops f name b)
    frames opens

theorem not_binds_nil : ¬ Binds ([] : List (Op β)) f name b := by
  rintro ⟨i, hdefines, -⟩
  exact Nat.not_lt_zero i hdefines.lt

theorem follows_nil : Follows ([] : List (Op β)) [[]] [0] where
  opened f := by
    cases f with
    | zero => exact iff_of_true trivial (List.mem_singleton_self 0)
    | succ i => exact iff_of_false (fun h => Nat.not_succ_le_zero i h.le) (by simp)
  sorted := List.pairwise_singleton ..
  above k f hk hf := by
    obtain rfl : f = 0 := by simpa using List.mem_of_getElem? hk
    exact absurd rfl hf
  names := .cons (fun name b => iff_of_false (by simp) not_binds_nil) .nil

theorem Follows.innermost (h : Follows ops frames (f :: rest)) {g : Nat} :
    Innermost ops g ↔ g = f := by
  have hfirst : ∀ g, IsOpen ops g → g ≤ f := by
    intro g hg
    rcases List.mem_cons.mp ((h.opened g).mp hg) with rfl | hg
    · exact Nat.le_refl g
    · exact Nat.le_of_lt (List.rel_of_pairwise_cons h.sorted hg)
  have hopen : IsOpen ops f := (h.opened f).mpr (List.mem_cons_self ..)
  constructor
  · rintro ⟨hg, hlast⟩
    exact Nat.le_antisymm (hfirst g hg) (hlast f hopen)
  · rintro rfl
    exact ⟨hopen, hfirst⟩

theorem binds_concat_of_ne (hop : ∀ name b, op ≠ define name b) : Binds (ops ++ [op]) f name b ↔
    Binds ops f name b := by
  rw [binds_concat]
  exact or_iff_left fun h => hop name b h.1

theorem binds_enter (kind : ScopeKind) :
    Binds (ops ++ [.enter kind]) f name b ↔ Binds ops f name b :=
  binds_concat_of_ne fun _ _ h => nomatch h

theorem binds_exit : Binds (ops ++ [.exit]) f name b ↔ Binds ops f name b :=
  binds_concat_of_ne fun _ _ h => nomatch h

theorem binds_resolve (asked : String) :
    Binds (ops ++ [.resolve asked]) f name b ↔ Binds ops f name b :=
  binds_concat_of_ne fun _ _ h => nomatch h

theorem isOpen_quiet (hop : op.change = 0) : IsOpen (ops ++ [op]) f ↔ IsOpen ops f := by
  by_cases hf : f ≤ ops.length
  · rw [isOpen_concat hf, hop, Int.add_zero]
    refine and_iff_left_of_imp fun h => ?_
    cases f with
    | zero => exact .inl rfl
    | succ i => exact .inr (h.2 _ (List.prefix_refl _))
  · refine iff_of_false (fun h => ?_) fun h => hf h.le
    have hle : f ≤ ops.length + 1 := by simpa using h.le
    obtain rfl : f = ops.length + 1 := by omega
    obtain ⟨kind, rfl⟩ := isOpen_new.mp h
    cases hop

theorem Follows.quiet {frames' : List (List (String × β))} (h : Follows ops frames opens)
    (hchange : op.change = 0)
    (hnames : List.Forall₂ (fun names f => ∀ name b, names.lookup name = some b ↔
      Binds (ops ++ [op]) f name b) frames' opens) :
    Follows (ops ++ [op]) frames' opens where
  opened f := (isOpen_quiet hchange).trans (h.opened f)
  sorted := h.sorted
  above k f hk hf := by
    have hle := ((h.opened f).mpr (List.mem_of_getElem? hk)).le
    rw [List.drop_append_of_le_length hle, balance_append, balance_singleton, hchange, Int.add_zero]
    exact h.above k f hk hf
  names := hnames

theorem Follows.enter (h : Follows ops frames opens) (kind : ScopeKind) :
    Follows (ops ++ [.enter kind]) ([] :: frames) ((ops.length + 1) :: opens) where
  opened f := by
    by_cases hf : f ≤ ops.length
    · rw [isOpen_concat hf, List.mem_cons, ← h.opened f]
      constructor
      · exact fun h => .inr h.1
      · rintro (rfl | hopen)
        · omega
        · refine ⟨hopen, ?_⟩
          cases f with
          | zero => exact .inl rfl
          | succ i =>
            exact .inr (Int.add_nonneg (hopen.2 _ (List.prefix_refl _)) (by decide : (0 : Int) ≤ 1))
    · constructor
      · intro hopen
        have hle : f ≤ ops.length + 1 := by simpa using hopen.le
        obtain rfl : f = ops.length + 1 := by omega
        exact List.mem_cons_self ..
      · intro hmem
        rcases List.mem_cons.mp hmem with rfl | hmem
        · exact isOpen_new.mpr ⟨kind, rfl⟩
        · exact absurd ((h.opened f).mpr hmem).le hf
  sorted := .cons (fun f hf => Nat.lt_succ_of_le ((h.opened f).mpr hf).le) h.sorted
  above k f hk hf := by
    cases k with
    | zero =>
      obtain rfl : ops.length + 1 = f := Option.some.inj hk
      rw [List.drop_of_length_le (by simp)]
      rfl
    | succ k =>
      rw [List.getElem?_cons_succ] at hk
      have hle := ((h.opened f).mpr (List.mem_of_getElem? hk)).le
      rw [List.drop_append_of_le_length hle, balance_append, balance_singleton, h.above k f hk hf]
      rfl
  names := by
    refine .cons (fun name b => iff_of_false (by simp) fun hbinds => ?_)
      (h.names.imp fun names f hnames name b => ?_)
    · -- a frame that was not open before has no names yet
      exact Nat.not_succ_le_self _ ((binds_enter kind).mp hbinds).le
    · exact (hnames name b).trans (binds_enter kind).symm

/-- An exit closes a frame that is not the global one and has no open frame inside it. -/
theorem isOpen_exit : IsOpen (ops ++ [.exit]) f ↔ IsOpen ops f ∧
    (f = 0 ∨ 1 ≤ balance (ops.drop f)) := by
  by_cases hf : f ≤ ops.length
  · have hcount : 0 ≤ balance (ops.drop f) + (Op.exit (β := β)).change ↔
      1 ≤ balance (ops.drop f) := by
      show 0 ≤ balance (ops.drop f) + -1 ↔ _
      omega
    rw [isOpen_concat hf, hcount]
  · refine iff_of_false (fun h => ?_) fun h => hf h.1.le
    have hle : f ≤ ops.length + 1 := by simpa using h.le
    obtain rfl : f = ops.length + 1 := by omega
    obtain ⟨kind, hkind⟩ := isOpen_new.mp h
    cases hkind

theorem Follows.exit (h : Follows ops (top :: below) (f :: rest)) (hrest : rest ≠ []) :
    Follows (ops ++ [.exit]) below rest where
  opened g := by
    obtain ⟨f', rest, rfl⟩ := List.exists_cons_of_ne_nil hrest
    have hpos : f ≠ 0 := by
      have hlt : f' < f := List.rel_of_pairwise_cons h.sorted (List.mem_cons_self ..)
      omega
    have hzero : balance (ops.drop f) = 0 := h.above 0 f rfl hpos
    rw [isOpen_exit, h.opened g, List.mem_cons]
    constructor
    · rintro ⟨rfl | hmem, hlast⟩
      · omega
      · exact hmem
    · intro hmem
      refine ⟨.inr hmem, ?_⟩
      by_cases hg0 : g = 0
      · exact .inl hg0
      · obtain ⟨k, hk⟩ := List.mem_iff_getElem?.mp hmem
        have habove := h.above (k + 1) g hk hg0
        right
        omega
  sorted := h.sorted.tail
  above k g hk hg := by
    have hle := ((h.opened g).mpr (List.mem_cons_of_mem _ (List.mem_of_getElem? hk))).le
    rw [List.drop_append_of_le_length hle, balance_append, balance_singleton,
      h.above (k + 1) g hk hg]
    show ((k + 1 : Nat) : Int) + -1 = k
    omega
  names := by
    cases h.names with
    | cons _ hbelow =>
      exact hbelow.imp fun names f hnames name b => (hnames name b).trans binds_exit.symm

theorem Follows.exit_global (h : Follows ops [top] [f]) : Follows (ops ++ [.exit]) [top] [f] where
  opened g := by
    obtain rfl : 0 = f := by simpa using (h.opened 0).mp trivial
    rw [isOpen_exit, h.opened g]
    exact and_iff_left_of_imp fun hg => .inl (List.mem_singleton.mp hg)
  sorted := h.sorted
  above k g hk hg := by
    obtain rfl : 0 = f := by simpa using (h.opened 0).mp trivial
    exact absurd (List.mem_singleton.mp (List.mem_of_getElem? hk)) hg
  names := h.names.imp fun _ _ hnames name b => (hnames name b).trans binds_exit.symm

theorem forall₂_of_mem {α γ : Type} {R S : α → γ → Prop} {xs : List α} {ys : List γ}
    (h : List.Forall₂ R xs ys) (himp : ∀ x, ∀ y ∈ ys, R x y → S x y) : List.Forall₂ S xs ys := by
  induction h with
  | nil => exact .nil
  | cons hxy _ ih =>
    exact .cons (himp _ _ (List.mem_cons_self ..) hxy) (ih fun x y hy =>
      himp x y (List.mem_cons_of_mem _ hy))

theorem Follows.define (h : Follows ops (top :: below) (f :: rest)) (name : String) (b : β) :
    Follows (ops ++ [.define name b])
      ((if (top.lookup name).isSome then top else (name, b) :: top) :: below) (f :: rest) := by
  obtain ⟨htop, hbelow⟩ := List.forall₂_cons.mp h.names
  refine h.quiet (rfl : (Op.define name b).change = 0) (.cons (fun name' b' => ?_) ?_)
  · rw [binds_concat, h.innermost, ← htop]
    by_cases hknown : (top.lookup name).isSome = true
    · rw [if_pos hknown]
      refine (or_iff_left ?_).symm
      rintro ⟨hop, -, hnew⟩
      obtain ⟨rfl, rfl⟩ := Op.define.inj hop
      obtain ⟨b'', hb''⟩ := Option.isSome_iff_exists.mp hknown
      exact hnew b'' ((htop _ _).mp hb'')
    · rw [if_neg hknown, List.lookup_cons]
      have hnone : top.lookup name = none := Option.not_isSome_iff_eq_none.mp hknown
      by_cases hname : name' = name
      · subst hname
        simp only [beq_self_eq_true, hnone]
        constructor
        · intro hb
          refine .inr ⟨by rw [Option.some.inj hb], trivial, fun b'' hbinds => ?_⟩
          rw [(htop _ _).mpr hbinds] at hnone
          cases hnone
        · rintro (hb | ⟨hop, -, -⟩)
          · cases hb
          · rw [(Op.define.inj hop).2]
      · rw [beq_eq_false_iff_ne.mpr hname]
        refine (or_iff_left ?_).symm
        rintro ⟨hop, -, -⟩
        exact hname (Op.define.inj hop).1.symm
  · -- the frames around it are not the innermost one
    have hother : ∀ g ∈ rest, g ≠ f :=
      fun g hg heq => Nat.lt_irrefl f (heq ▸ List.rel_of_pairwise_cons h.sorted hg)
    refine forall₂_of_mem hbelow fun names g hg hnames name' b' => (hnames name' b').trans ?_
    rw [binds_concat, h.innermost]
    exact (or_iff_left fun hnew => hother g hg hnew.2.1).symm

theorem Follows.resolve (h : Follows ops frames opens) (name : String) :
    Follows (ops ++ [.resolve name]) frames opens :=
  h.quiet (rfl : (Op.resolve (β := β) name).change = 0)
    (h.names.imp fun _ _ hnames name' b => (hnames name' b).trans (binds_resolve name).symm)

end Op

section Runs
open Op
variable {ops : List (Op β)} {s : Scope β} {opens : List Nat} {name : String} {b : β}

theorem after_append (ops ops' : List (Op β)) :
    after (ops ++ ops') = ops'.foldl step (after ops) := by
  rw [after, List.foldl_append]
  rfl

theorem exists_frames (s : Scope β) : ∃ top below, s.frames = top :: below := by
  obtain ⟨top, below, h⟩ :=
    List.exists_cons_of_length_pos (l := s.frames) (by rw [length_frames]; exact Nat.succ_pos _)
  exact ⟨top, below, h⟩

/-- One step of the scopes is one more operation in the history. -/
theorem step_follows (h : Follows ops s.frames opens) (op : Op β) :
    ∃ opens', Follows (ops ++ [op]) (s.step op).frames opens' := by
  obtain ⟨top, below, hframes⟩ := s.exists_frames
  rw [hframes] at h
  obtain ⟨f, rest, rfl⟩ : ∃ f rest, opens = f :: rest := by
    cases h.names with
    | cons => exact ⟨_, _, rfl⟩
  cases op with
  | enter kind =>
    show ∃ opens', Follows _ ([] :: s.frames) opens'
    rw [hframes]
    exact ⟨_, h.enter kind⟩
  | exit =>
    show ∃ opens', Follows _ s.exit.frames opens'
    by_cases hbelow : below = []
    · subst hbelow
      obtain rfl : rest = [] := List.forall₂_nil_left_iff.mp (List.forall₂_cons.mp h.names).2
      rw [exit_of_frames hframes, hframes]
      exact ⟨[f], h.exit_global⟩
    · rw [frames_exit hframes hbelow]
      refine ⟨rest, h.exit ?_⟩
      rintro rfl
      exact hbelow (List.forall₂_nil_right_iff.mp (List.forall₂_cons.mp h.names).2)
  | define name b =>
    refine ⟨f :: rest, ?_⟩
    have hdefine := h.define name b
    by_cases hknown : (top.lookup name).isSome = true
    · rw [if_pos hknown] at hdefine
      rw [step, define_known hframes hknown]
      exact hframes ▸ hdefine
    · rw [if_neg hknown] at hdefine
      obtain ⟨s', hs', hframes'⟩ :=
        define_new (b := b) hframes (Option.not_isSome_iff_eq_none.mp hknown)
      rw [step, hs']
      exact hframes' ▸ hdefine
  | resolve name => exact ⟨f :: rest, hframes ▸ h.resolve name⟩

theorem after_follows (ops : List (Op β)) : ∃ opens, Follows ops (after ops).frames opens := by
  induction ops using List.reverseRecOn with
  | nil => exact ⟨[0], follows_nil⟩
  | append_singleton ops op ih =>
    obtain ⟨opens, h⟩ := ih
    rw [after_append]
    exact step_follows h op

/-- What is found first is found in the frame that was opened last. -/
theorem findSome?_lookup {frames : List (List (String × β))} {B : Nat → β → Prop}
    (hnames : List.Forall₂ (fun names f => ∀ b, names.lookup name = some b ↔ B f b) frames opens)
    (hsorted : opens.Pairwise (· > ·)) :
    frames.findSome? (·.lookup name) = some b ↔ ∃ f ∈ opens, B f b ∧ ∀ g ∈ opens, f < g →
    ∀ b', ¬ B g b' := by
  induction hnames with
  | nil => simp
  | @cons names f frames opens hfirst hnames ih =>
    obtain ⟨habove, hsorted⟩ := List.pairwise_cons.mp hsorted
    rw [List.findSome?_cons]
    cases hlookup : names.lookup name with
    | some b₀ =>
      have hb₀ := (hfirst b₀).mp hlookup
      constructor
      · intro hb
        obtain rfl := Option.some.inj hb
        refine ⟨f, List.mem_cons_self .., hb₀, fun g hg hlt => ?_⟩
        rcases List.mem_cons.mp hg with rfl | hg
        · exact absurd hlt (Nat.lt_irrefl g)
        · exact absurd hlt (Nat.lt_asymm (habove g hg))
      · rintro ⟨g, hg, hb, hlast⟩
        rcases List.mem_cons.mp hg with rfl | hg
        · exact hlookup.symm.trans ((hfirst b).mpr hb)
        · exact absurd hb₀ (hlast f (List.mem_cons_self ..) (habove g hg) b₀)
    | none =>
      have hnone : ∀ b', ¬ B f b' := fun b' hb' => by simpa [hlookup] using (hfirst b').mpr hb'
      rw [ih hsorted]
      constructor
      · rintro ⟨g, hg, hb, hlast⟩
        refine ⟨g, List.mem_cons_of_mem _ hg, hb, fun g' hg' hlt => ?_⟩
        rcases List.mem_cons.mp hg' with rfl | hg'
        · exact hnone
        · exact hlast g' hg' hlt
      · rintro ⟨g, hg, hb, hlast⟩
        rcases List.mem_cons.mp hg with rfl | hg
        · exact absurd hb (hnone b)
        · exact ⟨g, hg, hb, fun g' hg' => hlast g' (List.mem_cons_of_mem _ hg')⟩

theorem findSome?_lookup_none {frames : List (List (String × β))} {B : Nat → β → Prop}
    (hnames : List.Forall₂ (fun names f => ∀ b, names.lookup name = some b ↔ B f b) frames opens) :
    frames.findSome? (·.lookup name) = none ↔ ∀ f ∈ opens, ∀ b, ¬ B f b := by
  induction hnames with
  | nil => simp
  | @cons names f frames opens hfirst hnames ih =>
    have hnone : names.lookup name = none ↔ ∀ b, ¬ B f b := by
      rw [Option.eq_none_iff_forall_ne_some]
      exact forall_congr' fun b => not_congr (hfirst b)
    rw [List.forall_mem_cons, ← ih, ← hnone, List.findSome?_cons]
    cases names.lookup name <;> simp

theorem findSome?_after : (after ops).frames.findSome? (·.lookup name) = some b ↔
    Means ops name b := by
  obtain ⟨opens, h⟩ := after_follows ops
  rw [findSome?_lookup (h.names.imp fun _ _ hnames b => hnames name b) h.sorted]
  simp only [Means, h.opened]

theorem resolve_ok_iff : (after ops).resolve name = .ok b ↔ Means ops name b := by
  rw [resolve_eq, ← findSome?_after]
  cases (after ops).frames.findSome? (·.lookup name) <;> simp

theorem resolve_error_iff {e : ScopeError} : (after ops).resolve name = .error e ↔
    e = .notFound name ∧ ∀ f, IsOpen ops f → ∀ b, ¬ Binds ops f name b := by
  obtain ⟨opens, h⟩ := after_follows ops
  have hnone : (after ops).frames.findSome? (·.lookup name) = none ↔
    ∀ f ∈ opens, ∀ b, ¬ Binds ops f name b :=
    findSome?_lookup_none (h.names.imp fun _ _ hnames b => hnames name b)
  simp only [h.opened]
  rw [resolve_eq, ← hnone]
  cases (after ops).frames.findSome? (·.lookup name) <;> simp [eq_comm]

theorem define_error_iff {e : ScopeError} : (after ops).define name b = .error e ↔
    e = .duplicate name ∧ ∃ f b', Innermost ops f ∧ Binds ops f name b' := by
  obtain ⟨opens, h⟩ := after_follows ops
  obtain ⟨top, below, hframes⟩ := (after ops).exists_frames
  rw [hframes] at h
  cases opens with
  | nil => cases h.names
  | cons f rest =>
    have htop := (List.forall₂_cons.mp h.names).1 name
    have hbound : (∃ g b', Innermost ops g ∧ Binds ops g name b') ↔
      (top.lookup name).isSome = true := by
      rw [Option.isSome_iff_exists]
      simp only [h.innermost, htop]
      constructor
      · rintro ⟨_, b', rfl, hb'⟩
        exact ⟨b', hb'⟩
      · rintro ⟨b', hb'⟩
        exact ⟨f, b', rfl, hb'⟩
    rw [hbound]
    by_cases hknown : (top.lookup name).isSome = true
    · rw [define_known hframes hknown]
      simp [hknown, eq_comm]
    · obtain ⟨s', hs', -⟩ := define_new (b := b) hframes (Option.not_isSome_iff_eq_none.mp hknown)
      rw [hs']
      simp [hknown]

theorem defines_take {f i j : Nat} (hj : j < i) : Defines (ops.take i) f name b j ↔
    Defines ops f name b j := by
  unfold Defines
  rw [List.getElem?_take_of_lt hj, List.take_take, Nat.min_eq_left (Nat.le_of_lt hj)]

theorem define_ok_iff_first {f i : Nat} (h : Defines ops f name b i) :
    (∃ s', (after (ops.take i)).define name b = .ok s') ↔
    ∀ j < i, ∀ b', ¬ Defines ops f name b' j := by
  have hbound : (∃ g b', Innermost (ops.take i) g ∧ Binds (ops.take i) g name b') ↔
    ∃ j < i, ∃ b', Defines ops f name b' j := by
    constructor
    · rintro ⟨g, b', hg, j, hdefines, -⟩
      obtain rfl : g = f := Nat.le_antisymm (h.2.2 g hg.1) (hg.2 f h.2.1)
      have hj : j < i := Nat.lt_of_lt_of_le hdefines.lt (List.length_take_le i ops)
      exact ⟨j, hj, b', (defines_take hj).mp hdefines⟩
    · rintro ⟨j, hj, b', hdefines⟩
      obtain ⟨b'', hbinds⟩ := ((defines_take hj).mpr hdefines).exists_binds
      exact ⟨f, b'', h.2, hbinds⟩
  have herror (e : ScopeError) : (after (ops.take i)).define name b = .error e ↔
      e = .duplicate name ∧ ∃ j < i, ∃ b', Defines ops f name b' j := by
    rw [← hbound]
    exact define_error_iff
  cases hdefine : (after (ops.take i)).define name b with
  | ok s' =>
    refine iff_of_true ⟨s', rfl⟩ fun j hj b' hdefines => ?_
    have hduplicate := (herror (.duplicate name)).mpr ⟨rfl, j, hj, b', hdefines⟩
    rw [hdefine] at hduplicate
    cases hduplicate
  | error e =>
    obtain ⟨-, j, hj, b', hdefines⟩ := (herror e).mp hdefine
    exact iff_of_false nofun fun hfirst => hfirst j hj b' hdefines

/-- What happens in a frame leaves what is around it, as long as the frame is not left. -/
theorem stays_keeps (kind : ScopeKind) (names : List (String × β)) (s : Scope β) (h : Stays ops) :
    ∃ above names', ops.foldl step { s with inner := (kind, names) :: s.inner } =
      { s with inner := above ++ (kind, names') :: s.inner } ∧ (above.length : Int) =
        balance ops := by
  induction ops using List.reverseRecOn with
  | nil => exact ⟨[], names, rfl, rfl⟩
  | append_singleton ops op ih =>
    obtain ⟨hstays, hlast⟩ := stays_concat.mp h
    obtain ⟨above, names', hrun, hlength⟩ := ih hstays
    rw [List.foldl_append, hrun, balance_append, balance_singleton, ← hlength, List.foldl_cons,
      List.foldl_nil]
    rw [← hlength] at hlast
    cases op with
    | enter kind' => exact ⟨(kind', []) :: above, names', rfl, rfl⟩
    | exit =>
      cases above with
      | nil => exact absurd hlast (by decide : ¬ (0 : Int) ≤ 0 + -1)
      | cons frame above =>
        refine ⟨above, names', rfl, ?_⟩
        show (above.length : Int) = ((above.length + 1 : Nat) : Int) + -1
        omega
    | define name b =>
      cases above with
      | nil =>
        by_cases hknown : (names'.lookup name).isSome = true
        · exact ⟨[], names', by simp [step, define, hknown], rfl⟩
        · exact ⟨[], (name, b) :: names', by simp [step, define, hknown], rfl⟩
      | cons frame above =>
        by_cases hknown : (frame.2.lookup name).isSome = true
        · exact ⟨frame :: above, names', by simp [step, define, hknown], rfl⟩
        · exact ⟨(frame.1, (name, b) :: frame.2) :: above, names', by
            simp [step, define, hknown], rfl⟩
    | resolve name => exact ⟨above, names', rfl, (Int.add_zero _).symm⟩

theorem enter_exit (kind : ScopeKind) {inside : List (Op β)} (h : WellNested inside)
    (ops more : List (Op β)) :
    after (ops ++ .enter kind :: (inside ++ .exit :: more)) = after (ops ++ more) := by
  obtain ⟨above, names, hrun, hlength⟩ := stays_keeps kind [] (after ops) h.1
  have habove : above = [] := List.eq_nil_of_length_eq_zero (by have hzero := h.2; omega)
  subst habove
  rw [after_append, after_append, List.foldl_cons, List.foldl_append]
  show (Op.exit :: more).foldl step
    (inside.foldl step { after ops with inner := (kind, []) :: (after ops).inner }) = _
  rw [hrun]
  rfl

theorem after_exits (ops : List (Op β)) (k : Nat) :
    after (ops ++ List.replicate k .exit) =
      { after ops with inner := (after ops).inner.drop k } := by
  induction k with
  | zero => simp
  | succ k ih =>
    rw [List.replicate_succ', ← List.append_assoc, after_append, ih]
    show Scope.exit _ = _
    simp [Scope.exit]

theorem binds_append {f : Nat} (more : List (Op β)) (h : Binds ops f name b) :
    Binds (ops ++ more) f name b := by
  induction more using List.reverseRecOn with
  | nil => rwa [List.append_nil]
  | append_singleton more op ih =>
    rw [← List.append_assoc]
    exact binds_concat.mpr (.inl ih)

theorem resolve_global (h : Binds ops 0 name b) (hdepth : (after ops).depth = 1) :
    (after ops).resolve name = .ok b := by
  obtain ⟨opens, hfollows⟩ := after_follows ops
  have hlength : opens.length = 1 := by rw [← hfollows.names.length_eq, length_frames, hdepth]
  obtain ⟨f, rfl⟩ := List.length_eq_one_iff.mp hlength
  refine resolve_ok_iff.mpr ⟨0, trivial, h, fun g hg hpos => ?_⟩
  have hglobal := (hfollows.opened 0).mp trivial
  rw [hfollows.opened, List.mem_singleton] at hg
  rw [List.mem_singleton] at hglobal
  omega

/-- After any history, a name means what the first definition of it in the innermost open frame that
has one says, and what stands between an entry and its exit has no effect behind them. -/
theorem lexical (ops : List (Op β)) :
    (∀ name b, (after ops).resolve name = .ok b ↔ Means ops name b) ∧
    (∀ name e, (after ops).resolve name = .error e ↔
      e = .notFound name ∧ ∀ f, IsOpen ops f → ∀ b, ¬ Binds ops f name b) ∧
    (∀ name b e, (after ops).define name b = .error e ↔
      e = .duplicate name ∧ ∃ f b', Innermost ops f ∧ Binds ops f name b') ∧
    (∀ f name b i, Defines ops f name b i →
      ((∃ s', (after (ops.take i)).define name b = .ok s') ↔
        ∀ j < i, ∀ b', ¬ Defines ops f name b' j)) ∧
    (∀ name b e, (after ops).define name b = .error e →
      after (ops ++ [.define name b]) = after ops) ∧
    (∀ kind inside more, WellNested inside →
      after (ops ++ .enter kind :: (inside ++ .exit :: more)) = after (ops ++ more)) ∧
    ((after ops).depth = 1 → after (ops ++ [.exit]) = after ops) ∧
    (∀ name b more k, Binds ops 0 name b → (after (ops ++ more)).depth ≤ k + 1 →
      (after (ops ++ more ++ List.replicate k .exit)).resolve name = .ok b) := by
  refine ⟨fun name b => resolve_ok_iff, fun name e => resolve_error_iff,
    fun name b e => define_error_iff,
    fun f name b i => define_ok_iff_first, fun name b e he => ?_, fun kind inside more h =>
      enter_exit kind h ops more,
    fun hdepth => ?_, fun name b more k hbinds hdepth => ?_⟩
  · rw [after_append, List.foldl_cons, step, he, List.foldl_nil]
  · have hinner : (after ops).inner = [] := List.eq_nil_of_length_eq_zero (Nat.succ.inj hdepth)
    rw [after_append, List.foldl_cons, step, exit, hinner, List.foldl_nil, List.tail_nil, ← hinner]
  · refine resolve_global (binds_append _ (binds_append more hbinds)) ?_
    have hdrop : (after (ops ++ more)).inner.length ≤ k := Nat.le_of_succ_le_succ hdepth
    rw [after_exits, depth, List.drop_of_length_le hdrop]
    rfl

/-- A name of the global frame that a frame inside it defines again. -/
def shadowSample : List (Op Nat) := [.define "x" 1, .enter .function, .define "x" 2]

theorem lexical_shadowSample :
    (Means shadowSample "x" 2 ∧ (after shadowSample).resolve "x" = .ok 2) ∧
    (Defines shadowSample 2 "x" 2 2 ∧ ∃ s', (after (shadowSample.take 2)).define "x" 2 = .ok s') ∧
    ((after shadowSample).define "x" 3 = .error (.duplicate "x") ∧
      after (shadowSample ++ [.define "x" 3]) = after shadowSample) ∧
    (WellNested [Op.define "y" 5, .enter .block, .exit] ∧
      after (shadowSample ++ .enter .block :: ([.define "y" 5, .enter .block, .exit] ++ [.exit])) =
        after (shadowSample ++ [])) ∧
    (Binds shadowSample 0 "x" 1 ∧
      (after (shadowSample ++ [] ++ List.replicate 1 .exit)).resolve "x" = .ok 1) := by
  obtain ⟨hmeans, -, -, hfirst, hkept, hnested, -, hglobal⟩ := lexical shadowSample
  have hdefines : Defines shadowSample 2 "x" 2 2 := ⟨rfl, ⟨⟨_, rfl⟩, stays_nil⟩, fun g hg => hg.le⟩
  have hfresh : ∀ j < 2, ∀ b', ¬ Defines shadowSample 2 "x" b' j := by
    intro j hj b' hdefines
    have hle : 2 ≤ (shadowSample.take j).length := hdefines.2.1.le
    rw [List.length_take] at hle
    omega
  have hx : (after shadowSample).resolve "x" = .ok 2 := rfl
  have herror : (after shadowSample).define "x" 3 = .error (.duplicate "x") := rfl
  have hinside : WellNested [Op.define "y" 5, .enter .block, .exit] := by
    refine ⟨?_, rfl⟩
    show Stays ([] ++ [Op.define "y" 5] ++ [.enter .block] ++ [.exit])
    exact stays_concat.mpr ⟨stays_concat.mpr ⟨stays_concat.mpr ⟨stays_nil, by decide⟩, by decide⟩,
      by decide⟩
  have hbinds : Binds shadowSample 0 "x" 1 :=
    ⟨0, ⟨rfl, trivial, fun g hg => hg.le⟩, fun j hj => absurd hj (Nat.not_lt_zero j)⟩
  exact ⟨⟨(hmeans "x" 2).mp hx, hx⟩, ⟨hdefines, (hfirst 2 "x" 2 2 hdefines).mpr hfresh⟩,
    ⟨herror, hkept "x" 3 _ herror⟩,
    ⟨hinside, hnested .block _ [] hinside⟩, hbinds, hglobal "x" 1 [] 1 hbinds (by decide)⟩

end Runs

end Sysy.Scope
