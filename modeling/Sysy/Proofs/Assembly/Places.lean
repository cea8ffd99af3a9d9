import Sysy.Proofs.Assembly.Safety
import Sysy.Proofs.Assembly.Straight

/-!
Where things are while a program runs. A place is a word of a region, the slot of a value, the
return address of an activation, or an argument on the stack. Different places have different
addresses, so a write to one of them leaves all others as they are.
-/

namespace Sysy.Frame
open Ir

variable {m : Module} {fn : Func} {fr : Frame}

inductive Part where
  | slot (id : ValueId)
  | link
  | out (i : Nat)
  deriving DecidableEq

inductive Spans (fr : Frame) : Part → Int → Int → Prop
  | slot {id : ValueId} {s : Slot} (h : fr.slot? id = some s) : Spans fr (.slot id) s.offset
      (s.offset + s.size)
  | link (h : fr.hasCall = true) : Spans fr .link fr.raOffset (fr.raOffset + 4)
  | out {i : Nat} (h : 4 * (i : Int) < fr.outArgs) : Spans fr (.out i) (4 * i) (4 * i + 4)

theorem Spans.bounds (hfits : Fits m fn fr) {p : Part} {lo hi : Int} (h : Spans fr p lo hi) :
    0 ≤ lo ∧ hi ≤ fr.size ∧ 4 ∣ lo := by
  have hout := hfits.outArgs
  have htop := hfits.top
  have haligned := hfits.aligned
  have hout4 := hfits.outWords
  have hlocals := hfits.locals
  cases h with
  | slot hs =>
    obtain ⟨-, h₁, h₂, h₃, -⟩ := hfits.slot _ _ hs
    split at htop <;> exact ⟨by omega, by omega, h₃⟩
  | link hcall =>
    rw [hfits.raOffset hcall]
    rw [if_pos hcall] at htop
    omega
  | out hi => split at htop <;> omega

theorem Spans.unique (hfits : Fits m fn fr) {p q : Part} {lo hi lo' hi' a : Int}
    (hp : Spans fr p lo hi) (hq : Spans fr q lo' hi') (hlo : lo ≤ a) (hhi : a < hi) (hlo' : lo' ≤ a)
    (hhi' : a < hi') : p = q := by
  have htop := hfits.top
  have hslot {id : ValueId} {s : Slot} (hs : fr.slot? id = some s) :
      fr.outArgs ≤ s.offset ∧ s.offset + s.size ≤ fr.outArgs + fr.locals := by
    obtain ⟨-, h₁, h₂, -⟩ := hfits.slot _ _ hs
    exact ⟨h₁, h₂⟩
  have hlink (hcall : fr.hasCall = true) : fr.outArgs + fr.locals ≤ fr.raOffset := by
    rw [hfits.raOffset hcall]
    rw [if_pos hcall] at htop
    omega
  have hlocals := hfits.locals
  have hout4 := hfits.outWords
  cases hp with
  | slot hs =>
    cases hq with
    | slot hs' =>
      by_contra hne
      have := hfits.apart _ _ _ _ hs hs' (fun heq => hne (by rw [heq]))
      omega
    | link hcall => have := hslot hs; have := hlink hcall; omega
    | out hi => have := hslot hs; omega
  | link hcall =>
    cases hq with
    | slot hs => have := hslot hs; have := hlink hcall; omega
    | link => rfl
    | out hi => have := hlink hcall; omega
  | out hi =>
    cases hq with
    | slot hs => have := hslot hs; omega
    | link hcall => have := hlink hcall; omega
    | out hi' => congr 1; omega

end Sysy.Frame

namespace Sysy.Assembly
open Ir Lowering

def frameOf (m : Module) (f : FuncId) : Option Frame :=
  (m.func? f).bind fun fn => (Frame.ofFunc .rv32 m fn).toOption

def frameSize (m : Module) (f : FuncId) : Int := ((frameOf m f).map (·.size)).getD 0

/-- The stack pointer under a stack of activations, the latest first. -/
def stackPointer (b : Board) (m : Module) : List Activation → Int
  | [] => b.top
  | a :: outer => stackPointer b m outer - frameSize m a.func

def frameAt? (b : Board) (m : Module) : List Activation → (depth : Nat) → Option (Activation × Int)
  | [], _ => none
  | a :: outer, d =>
    if d = outer.length then some (a, stackPointer b m (a :: outer)) else frameAt? b m outer d

variable {b : Board} {m : Module} {img : Image}

section
variable {acts outer : List Activation} {a top : Activation} {d : Nat} {s : Int}

theorem lt_of_frameAt? (h : frameAt? b m acts d = some (a, s)) : d < acts.length := by
  induction acts with
  | nil => cases h
  | cons x acts ih =>
    rw [frameAt?] at h
    rw [List.length_cons]
    split at h
    · omega
    · have := ih h
      omega

theorem frameAt?_cons : frameAt? b m (top :: outer) d = some (a, s) ↔
    d = outer.length ∧ a = top ∧ s = stackPointer b m (top :: outer) ∨
      d < outer.length ∧ frameAt? b m outer d = some (a, s) := by
  rw [frameAt?]
  split
  · rename_i hd
    simp only [Option.some.injEq, Prod.mk.injEq, hd, true_and, lt_irrefl, false_and, or_false]
    constructor <;> rintro ⟨rfl, rfl⟩ <;> exact ⟨rfl, rfl⟩
  · rename_i hd
    simp only [hd, false_and, false_or]
    exact ⟨fun h => ⟨lt_of_frameAt? h, h⟩, fun h => h.2⟩

theorem mem_of_frameAt? (h : frameAt? b m acts d = some (a, s)) : a ∈ acts := by
  induction acts with
  | nil => cases h
  | cons x acts ih =>
    rcases frameAt?_cons.mp h with ⟨-, rfl, -⟩ | ⟨-, h⟩
    · exact List.mem_cons_self ..
    · exact List.mem_cons_of_mem _ (ih h)

end

def Staffed (m : Module) (acts : List Activation) : Prop :=
  ∀ a ∈ acts, ∃ fn fr, Framed m a.func fn fr ∧ frameOf m a.func = some fr

theorem frameSize_eq {f : FuncId} {fr : Frame} (h : frameOf m f = some fr) :
    frameSize m f = fr.size := by
  rw [frameSize, h]
  rfl

theorem Staffed.size {acts : List Activation} (h : Staffed m acts) {a : Activation}
    (ha : a ∈ acts) :
    0 ≤ frameSize m a.func ∧ 16 ∣ frameSize m a.func := by
  obtain ⟨fn, fr, hframed, hfr⟩ := h a ha
  have h₁ := hframed.fits.top
  have h₂ := hframed.fits.outArgs
  have h₃ := hframed.fits.locals
  rw [frameSize_eq hfr]
  refine ⟨?_, hframed.fits.aligned⟩
  split at h₁ <;> omega

theorem Staffed.tail {a : Activation} {outer : List Activation} (h : Staffed m (a :: outer)) :
    Staffed m outer :=
  fun x hx => h x (List.mem_cons_of_mem _ hx)

theorem Staffed.stackPointer {acts : List Activation} (h : Staffed m acts) :
    stackPointer b m acts ≤ b.top ∧ 16 ∣ Assembly.stackPointer b m acts := by
  induction acts with
  | nil => exact ⟨le_rfl, b.top_aligned⟩
  | cons a outer ih =>
    obtain ⟨h₁, h₂⟩ := h.size (List.mem_cons_self ..)
    obtain ⟨h₃, h₄⟩ := ih h.tail
    rw [Assembly.stackPointer]
    omega

theorem Staffed.frameAt? {acts : List Activation} (h : Staffed m acts) {d : Nat} {a : Activation}
    {s : Int} (ha : frameAt? b m acts d = some (a, s)) :
    Assembly.stackPointer b m acts ≤ s ∧ s + frameSize m a.func ≤ b.top ∧ 16 ∣ s := by
  induction acts with
  | nil => cases ha
  | cons x outer ih =>
    have hsp := h.stackPointer (b := b)
    have hsp' := h.tail.stackPointer (b := b)
    have hsize := h.size (List.mem_cons_self ..)
    rw [Assembly.stackPointer] at hsp ⊢
    rcases frameAt?_cons.mp ha with ⟨-, rfl, rfl⟩ | ⟨-, ha⟩
    · rw [Assembly.stackPointer]
      omega
    · have := ih h.tail ha
      omega

theorem Staffed.apart {acts : List Activation} (h : Staffed m acts) {d d' : Nat} {a a' : Activation}
    {s s' : Int} (ha : Assembly.frameAt? b m acts d = some (a, s))
    (ha' : Assembly.frameAt? b m acts d' = some (a', s')) (hlt : d < d') :
    s' + frameSize m a'.func ≤ s := by
  induction acts with
  | nil => cases ha
  | cons x outer ih =>
    rcases frameAt?_cons.mp ha' with ⟨rfl, rfl, rfl⟩ | ⟨hd', ha'⟩
    · rcases frameAt?_cons.mp ha with ⟨heq, -⟩ | ⟨-, ha⟩
      · omega
      · have := (h.tail.frameAt? ha).1
        rw [Assembly.stackPointer]
        omega
    · rcases frameAt?_cons.mp ha with ⟨heq, -⟩ | ⟨-, ha⟩
      · omega
      · exact ih h.tail ha ha'

theorem Staffed.framed {acts : List Activation} (h : Staffed m acts) {a : Activation}
    (ha : a ∈ acts) {fr : Frame} (hfr : frameOf m a.func = some fr) :
    ∃ fn, Framed m a.func fn fr := by
  obtain ⟨fn, fr', hframed, hfr'⟩ := h a ha
  obtain rfl := Option.some.inj (hfr.symm.trans hfr')
  exact ⟨fn, hframed⟩

theorem Staffed.word_aligned {acts : List Activation} (h : Staffed m acts) {d : Nat}
    {a : Activation} {s : Int} {fr : Frame} {p : Frame.Part} {lo hi : Int}
    (ha : Assembly.frameAt? b m acts d = some (a, s)) (hfr : frameOf m a.func = some fr)
    (hp : fr.Spans p lo hi) : 4 ∣ s + lo := by
  obtain ⟨fn, hframed⟩ := h.framed (mem_of_frameAt? ha) hfr
  have hlo := (hp.bounds hframed.fits).2.2
  have hs := (h.frameAt? ha).2.2
  omega

def Covers (b : Board) (m : Module) (acts : List Activation) (d : Nat) (p : Frame.Part) (x : Int) :
    Prop :=
  ∃ a s fr lo hi, frameAt? b m acts d = some (a, s) ∧ frameOf m a.func = some fr ∧
    fr.Spans p lo hi ∧
    s + lo ≤ x ∧ x < s + hi

theorem Covers.bounds {acts : List Activation} (h : Staffed m acts) {d : Nat} {p : Frame.Part}
    {x : Int} (hx : Covers b m acts d p x) : stackPointer b m acts ≤ x ∧ x < b.top := by
  obtain ⟨a, s, fr, lo, hi, ha, hfr, hp, h₁, h₂⟩ := hx
  obtain ⟨fn, hframed⟩ := h.framed (mem_of_frameAt? ha) hfr
  have hsp := h.frameAt? ha
  have hb := hp.bounds hframed.fits
  rw [frameSize_eq hfr] at hsp
  omega

theorem Covers.unique {acts : List Activation} (h : Staffed m acts) {d d' : Nat} {p p' : Frame.Part}
    {x : Int} (hx : Covers b m acts d p x) (hx' : Covers b m acts d' p' x) : d = d' ∧ p = p' := by
  obtain ⟨a, s, fr, lo, hi, ha, hfr, hp, h₁, h₂⟩ := hx
  obtain ⟨a', s', fr', lo', hi', ha', hfr', hp', h₁', h₂'⟩ := hx'
  obtain ⟨fn, hframed⟩ := h.framed (mem_of_frameAt? ha) hfr
  obtain ⟨fn', hframed'⟩ := h.framed (mem_of_frameAt? ha') hfr'
  have hb := hp.bounds hframed.fits
  have hb' := hp'.bounds hframed'.fits
  rcases Nat.lt_trichotomy d d' with hlt | rfl | hlt
  · have := h.apart ha ha' hlt
    rw [frameSize_eq hfr'] at this
    omega
  · obtain ⟨rfl, rfl⟩ := Prod.mk.inj (Option.some.inj (ha.symm.trans ha'))
    obtain rfl := Option.some.inj (hfr.symm.trans hfr')
    exact ⟨rfl, Frame.Spans.unique hframed.fits (a := x - s) hp hp' (by omega) (by omega)
      (by omega) (by omega)⟩
  · have := h.apart ha' ha hlt
    rw [frameSize_eq hfr] at this
    omega

end Sysy.Assembly
