import Sysy.Proofs.Crew.Alone

/-!
The steps of one worker. Unless it was called off, it is somewhere on the way that its file takes
alone, and with each step fewer are left.
-/

namespace Sysy
open Compilation Host
variable {o : CompileOptions} {disk : Disk}

namespace Task
variable {path : String} {t t' : Task} {made : Ir.Module × String} {e : CompileError}

def before (t : Task) : List PhaseEvent :=
  ([.parse, .irgen, .codegen].take (3 - t.left)).flatMap fun p =>
    [⟨t.file.path, p, .started⟩, ⟨t.file.path, p, .ended 0⟩]

theorem left_pos (t : Task) : 0 < t.left := by cases t <;> exact Nat.succ_pos _

theorem before_of_run (h : t.run o = .ok (.inl t')) : t'.before = t.before ++ [t.event .started,
    t.event (.ended 0)] := by
  obtain ⟨hfile, hleft⟩ := next_of_run h
  unfold before
  rw [hfile]
  cases t with
  | parse f =>
    obtain hleft : t'.left = 2 := Nat.succ.inj hleft.symm
    rw [hleft]
    rfl
  | lower f p =>
    obtain hleft : t'.left = 1 := Nat.succ.inj hleft.symm
    rw [hleft]
    rfl
  | produce f m => exact absurd (Nat.succ.inj hleft).symm t'.left_pos.ne'

structure OnWay (o : CompileOptions) (disk : Disk) (path : String) (t : Task) : Prop where
  read : ∃ raw, disk path = .ok raw
  file : t.file.path = Path.clean path
  told : t.before ++ (t.course o.complete).1 = (alone o disk path).1
  result : (t.course o.complete).2 = (alone o disk path).2

theorem onWay_parse {raw : Bytes} (h : disk path = .ok raw) :
    (parse (.ofDisk 0 path raw)).OnWay o disk path := by
  refine ⟨⟨raw, h⟩, rfl, ?_, ?_⟩
  · rw [alone, h]
    rfl
  · rw [alone, h]

theorem OnWay.next (ht : t.OnWay o disk path) (h : t.run o.complete = .ok (.inl t')) :
    t'.OnWay o disk path := by
  have hcourse := course_of_next h
  refine ⟨ht.read, ?_, ?_, ?_⟩
  · rw [(next_of_run h).1, ht.file]
  · rw [before_of_run h, ← ht.told, hcourse, List.append_assoc]
    rfl
  · rw [← ht.result, hcourse]

theorem OnWay.alone_of_made (ht : t.OnWay o disk path) (h : t.run o.complete = .ok (.inr made)) :
    alone o disk path = (t.before ++ [t.event .started, t.event (.ended 0)], .ok made) :=
  Prod.ext (by rw [← ht.told, course_of_made h]) (by rw [← ht.result, course_of_made h])

theorem OnWay.alone_of_error (ht : t.OnWay o disk path) (h : t.run o.complete = .error e) :
    alone o disk path = (t.before ++ [t.event .started, t.event (.failed e 0)], .error e) :=
  Prod.ext (by rw [← ht.told, course_of_error h]) (by rw [← ht.result, course_of_error h])

end Task

namespace Worker
variable {path : String} {b b' : Board} {told events : List PhaseEvent} {w w' : Worker}
  {mayBegin : Bool}

/-- The steps of a worker one by one: from where it is and what the board says, to where it gets,
what the board says then, and what is told. -/
inductive Turn (o : CompileOptions) (disk : Disk) (path : String) (b : Board) :
    Worker → Worker → Board → List PhaseEvent → Prop where
  | start : Turn o disk path b waiting begun b []
  | stay (hon : b.isOff = false) : Turn o disk path b begun reading b []
  | leave (hoff : b.isOff = true) : Turn o disk path b begun (failed .cancelled) b []
  | read {raw : Bytes} (hraw : disk path = .ok raw) :
    Turn o disk path b reading (ready (.parse (.ofDisk 0 path raw))) b []
  | unread {e : FileError} (he : disk path = .error e) :
    Turn o disk path b reading (failed (.loadFailed path)) b []
  | clear {t : Task} (hon : b.isOff = false) : Turn o disk path b (ready t) (cleared t) b []
  | drop {t : Task} (hoff : b.isOff = true) : Turn o disk path b (ready t) (failed .cancelled) b []
  | tell {t : Task} : Turn o disk path b (cleared t) (running t) b [t.event .started]
  | proceed {t t' : Task} (hrun : t.run o.complete = .ok (.inl t')) :
    Turn o disk path b (running t) (ready t') b [t.event (.ended 0)]
  | finish {t : Task} {made : Ir.Module × String} (hrun : t.run o.complete = .ok (.inr made)) :
    Turn o disk path b (running t) (ended (.ok made)) b [t.event (.ended 0)]
  | fail {t : Task} {e : CompileError} (hrun : t.run o.complete = .error e) :
    Turn o disk path b (running t) (failed e) b [t.event (.failed e 0)]
  | record {e : CompileError} (hnone : b.failure = none) :
    Turn o disk path b (failed e) (noted e) { b with failure := some e } []
  | follow {e : CompileError} (hoff : b.isOff = true) : Turn o disk path b (failed e)
      (ended (.error e)) b []
  | callOff {e : CompileError} : Turn o disk path b (noted e) (ended (.error e))
      { b with isOff := true } []

theorem turn_of_next (h : w.next o disk path mayBegin b = some (w', b', events)) :
    Turn o disk path b w w' b' events := by
  cases w with
  | waiting =>
    simp only [next] at h
    split at h
    · cases h
      exact .start
    · cases h
  | begun =>
    cases hoff : b.isOff with
    | true =>
      rw [next, hoff] at h
      cases h
      exact .leave hoff
    | false =>
      rw [next, hoff] at h
      cases h
      exact .stay hoff
  | reading =>
    cases hdisk : disk path with
    | ok raw =>
      rw [next, hdisk] at h
      cases h
      exact .read hdisk
    | error e =>
      rw [next, hdisk] at h
      cases h
      exact .unread hdisk
  | ready t =>
    cases hoff : b.isOff with
    | true =>
      rw [next, hoff] at h
      cases h
      exact .drop hoff
    | false =>
      rw [next, hoff] at h
      cases h
      exact .clear hoff
  | cleared t =>
    cases h
    exact .tell
  | running t =>
    rcases hrun : t.run o.complete with e | t' | made
    · rw [next, hrun] at h
      cases h
      exact .fail hrun
    · rw [next, hrun] at h
      cases h
      exact .proceed hrun
    · rw [next, hrun] at h
      cases h
      exact .finish hrun
  | failed e =>
    cases hfailure : b.failure with
    | none =>
      rw [next, hfailure] at h
      cases h
      exact .record hfailure
    | some e' =>
      cases hoff : b.isOff with
      | true =>
        rw [next, hfailure, hoff] at h
        cases h
        exact .follow hoff
      | false =>
        rw [next, hfailure, hoff] at h
        cases h
  | noted e =>
    cases h
    exact .callOff
  | ended result => cases h

theorem eq_waiting_of_isWaiting (h : w.isWaiting = true) : w = waiting := by
  cases w with
  | waiting => rfl
  | _ => cases h

/-- A worker that cannot take a step may not begin, or waits until the others are called off, or has
ended. -/
theorem of_next_eq_none (h : w.next o disk path mayBegin b = none) :
    w.isWaiting = true ∧ mayBegin = false ∨
    (∃ e, w = failed e ∧ b.failure ≠ none ∧ b.isOff = false) ∨ w.hasEnded = true := by
  cases w with
  | waiting =>
    simp only [next] at h
    split at h
    · cases h
    · exact .inl ⟨rfl, Bool.eq_false_iff.2 ‹_›⟩
  | failed e =>
    simp only [next] at h
    split at h
    · cases h
    · rename_i e' hfailure
      split at h
      · cases h
      · exact .inr (.inl ⟨e, rfl, hfailure ▸ nofun, Bool.eq_false_iff.2 ‹_›⟩)
  | ended result => exact .inr (.inr rfl)
  | reading =>
    simp only [next] at h
    split at h <;> cases h
  | running t =>
    simp only [next] at h
    split at h <;> cases h
  | begun | ready | cleared | noted => cases h

/-- The worker told of all there is to tell, and has the error that the file gives alone. -/
def Fails (o : CompileOptions) (disk : Disk) (path : String) (told : List PhaseEvent)
    (e : CompileError) : Prop :=
  alone o disk path = (told, .error e)

def CalledOff (o : CompileOptions) (disk : Disk) (path : String) (told : List PhaseEvent)
    (e : CompileError) : Prop :=
  e = .cancelled ∧ (told = [] ∨ ∃ t : Task, t.OnWay o disk path ∧ told = t.before)

/-- What is so of the worker on the file at `path` that told of `told`. -/
def Sound (o : CompileOptions) (disk : Disk) (path : String) (b : Board) (told : List PhaseEvent) :
    Worker → Prop
  | waiting | begun | reading => told = []
  | ready t | cleared t => t.OnWay o disk path ∧ told = t.before
  | running t => t.OnWay o disk path ∧ told = t.before ++ [t.event .started]
  | failed e => Fails o disk path told e ∨ b.isOff = true ∧ CalledOff o disk path told e
  | noted e => Fails o disk path told e ∧ b.failure ≠ none
  | ended (.error e) => b.isOff = true ∧ (Fails o disk path told e ∨ CalledOff o disk path told e)
  | ended (.ok made) => alone o disk path = (told, .ok made)

theorem Sound.mono (hw : w.Sound o disk path b told) (hoff : b.isOff = true → b'.isOff = true)
    (hfailure : b.failure ≠ none → b'.failure ≠ none) : w.Sound o disk path b' told := by
  cases w with
  | failed e => exact hw.imp_right (And.imp_left hoff)
  | noted e => exact hw.imp_right hfailure
  | ended result =>
    cases result with
    | ok made => exact hw
    | error e => exact hw.imp_left hoff
  | _ => exact hw

theorem Sound.next (hw : w.Sound o disk path b told) (hb : b.isOff = true → b.failure ≠ none)
    (h : Turn o disk path b w w' b' events) : w'.Sound o disk path b' (told ++ events) := by
  cases h with
  | start => exact (List.append_nil told).trans hw
  | stay hon => exact (List.append_nil told).trans hw
  | leave hoff => exact .inr ⟨hoff, rfl, .inl ((List.append_nil told).trans hw)⟩
  | read hraw => exact ⟨Task.onWay_parse hraw, (List.append_nil told).trans hw⟩
  | unread he =>
    obtain rfl : told = [] := hw
    exact .inl (by rw [Fails, alone, he]; rfl)
  | clear hon => exact ⟨hw.1, (List.append_nil told).trans hw.2⟩
  | drop hoff => exact .inr ⟨hoff, rfl, .inr ⟨_, hw.1, (List.append_nil told).trans hw.2⟩⟩
  | tell => exact ⟨hw.1, congrArg (· ++ _) hw.2⟩
  | proceed hrun =>
    obtain ⟨ht, rfl⟩ := hw
    exact ⟨ht.next hrun, (List.append_assoc ..).trans (Task.before_of_run hrun).symm⟩
  | finish hrun =>
    obtain ⟨ht, rfl⟩ := hw
    rw [List.append_assoc]
    exact ht.alone_of_made hrun
  | fail hrun =>
    obtain ⟨ht, rfl⟩ := hw
    rw [List.append_assoc]
    exact .inl (ht.alone_of_error hrun)
  | record hnone =>
    rw [List.append_nil]
    obtain hfails | ⟨hoff, -⟩ := hw
    · exact ⟨hfails, fun h => by cases h⟩
    · exact absurd hnone (hb hoff)
  | follow hoff =>
    rw [List.append_nil]
    exact ⟨hoff, hw.imp_right And.right⟩
  | callOff =>
    rw [List.append_nil]
    exact ⟨rfl, .inl hw.1⟩

def rank : Worker → Nat
  | waiting => 14
  | begun => 13
  | reading => 12
  | ready t => 3 * t.left + 2
  | cleared t => 3 * t.left + 1
  | running t => 3 * t.left
  | failed _ => 2
  | noted _ => 1
  | ended _ => 0

theorem rank_lt_of_turn (h : Turn o disk path b w w' b' events) : w'.rank < w.rank := by
  cases h with
  | @proceed t t' hrun =>
    have hleft := (Task.next_of_run hrun).2
    simp only [rank]
    omega
  | @finish t made hrun => exact Nat.mul_pos (by decide) t.left_pos
  | @fail t e hrun =>
    have hleft := t.left_pos
    simp only [rank]
    omega
  | @drop t hoff =>
    have hleft := t.left_pos
    simp only [rank]
    omega
  | @clear t hon => exact Nat.lt_succ_self _
  | @tell t => exact Nat.lt_succ_self _
  | start | stay | leave | read | unread | record | follow | callOff => simp [rank, Task.left]

end Worker

end Sysy
