import Sysy.Proofs.Answers
import Sysy.Proofs.Phases

/-!
What comes of a file that is compiled by itself. The tasks of a file that is read follow one another
in a `course`, and a compilation without a cache, whatever the time is and whatever is traced, tells
the events of the course and ends with its result.
-/

namespace Sysy.Task
open Compilation
variable {o : CompileOptions} {t t' : Task} {f : SourceFile} {m : Ir.Module}
  {made : Ir.Module × String} {e : CompileError}

def left : Task → Nat
  | parse _ => 3
  | lower _ _ => 2
  | produce _ _ => 1

theorem next_of_run (h : t.run o = .ok (.inl t')) : t'.file = t.file ∧ t.left = t'.left + 1 := by
  cases t with
  | parse f =>
    cases hp : f.program (.ofFile f) o.limit with
    | error e => simp [run, hp, bind, Except.bind] at h
    | ok p =>
      obtain rfl : lower f p = t' :=
        by simpa [run, hp, bind, Except.bind, pure, Except.pure] using h
      exact ⟨rfl, rfl⟩
  | lower f p =>
    cases hm : lowered (.ofFile f) p with
    | error e => simp [run, hm, bind, Except.bind] at h
    | ok m =>
      obtain rfl : produce f m = t' :=
        by simpa [run, hm, bind, Except.bind, pure, Except.pure] using h
      exact ⟨rfl, rfl⟩
  | produce f m =>
    cases hs : produced o m <;> simp [run, hs, bind, Except.bind, pure, Except.pure] at h

theorem left_of_made (h : t.run o = .ok (.inr made)) : t.left = 1 := by
  cases t with
  | parse f => cases hp : f.program (.ofFile f) o.limit <;> simp [run, hp, bind, Except.bind, pure,
      Except.pure] at h
  | lower f p =>
    cases hm : lowered (.ofFile f) p <;> simp [run, hm, bind, Except.bind, pure, Except.pure] at h
  | produce f m => rfl

def course (o : CompileOptions) (t : Task) :
    List PhaseEvent × Except CompileError (Ir.Module × String) :=
  match _hrun : t.run o with
  | .ok (.inl t') => (t.event .started :: t.event (.ended 0) :: (t'.course o).1, (t'.course o).2)
  | .ok (.inr made) => ([t.event .started, t.event (.ended 0)], .ok made)
  | .error e => ([t.event .started, t.event (.failed e 0)], .error e)
termination_by t.left
decreasing_by all_goals exact Nat.lt_of_lt_of_eq (Nat.lt_succ_self _) (next_of_run ‹_›).2.symm

theorem course_of_next (h : t.run o = .ok (.inl t')) :
    t.course o = (t.event .started :: t.event (.ended 0) :: (t'.course o).1, (t'.course o).2) := by
  rw [course]
  split <;> rename_i hrun <;> cases hrun.symm.trans h
  rfl

theorem course_of_made (h : t.run o = .ok (.inr made)) :
    t.course o = ([t.event .started, t.event (.ended 0)], .ok made) := by
  rw [course]
  split <;> rename_i hrun <;> cases hrun.symm.trans h
  rfl

theorem course_of_error (h : t.run o = .error e) :
    t.course o = ([t.event .started, t.event (.failed e 0)], .error e) := by
  rw [course]
  split <;> rename_i hrun <;> cases hrun.symm.trans h
  rfl

theorem exists_course (o : CompileOptions) (t : Task) :
    ∃ rest, (t.course o).1 = t.event .started :: rest := by
  rcases hrun : t.run o with e | t' | made
  · exact ⟨_, congrArg Prod.fst (course_of_error hrun)⟩
  · exact ⟨_, congrArg Prod.fst (course_of_next hrun)⟩
  · exact ⟨_, congrArg Prod.fst (course_of_made hrun)⟩

end Sysy.Task

namespace Sysy.Compilation

def Step.untimed : Step → Step
  | started => started
  | ended _ => ended 0
  | failed e _ => failed e 0

def PhaseEvent.untimed (e : PhaseEvent) : PhaseEvent := { e with step := e.step.untimed }

end Sysy.Compilation

namespace Sysy

def Compiled.untimed (c : Compiled) : Compiled := { c with times := {} }

def Compilation.untimed (c : Compilation) : Compilation :=
  { events := c.events.map Compilation.PhaseEvent.untimed,
    outcome := c.outcome.map Compiled.untimed }

end Sysy

namespace Sysy.Compilation
open Host
variable {o : CompileOptions} {f : SourceFile} {parent : Nat} {disk : Disk} {path : String}

/-- The phases of a file take the course of its tasks. -/
theorem ends_phases_course (hlive : o.isCancelled = false) :
    Ends (phases o (.ofFile f) f parent) {} fun r l =>
      r = ((Task.parse f).course o).2 ∧ l.events.map PhaseEvent.untimed =
        ((Task.parse f).course o).1 := by
  refine Ends.bind ((ends_phase hlive fun _ => Trace.Ends.pure rfl).mono ?_)
  rintro _ l₁ ⟨rfl, t₁, hl₁⟩
  cases hparse : f.program (.ofFile f) o.limit with
  | error e =>
    have hrun : (Task.parse f).run o = .error e := by rw [Task.run, hparse]; rfl
    rw [Task.course_of_error hrun, hl₁, hparse]
    exact ⟨rfl, rfl⟩
  | ok p =>
    have hrun : (Task.parse f).run o = .ok (.inl (.lower f p)) := by rw [Task.run, hparse]; rfl
    rw [Task.course_of_next hrun]
    dsimp only
    refine Ends.bind ((ends_phase hlive (ends_lowerTraced _ p)).mono ?_)
    rintro r l₂ ⟨hr, t₂, hl₂⟩
    rw [hr]
    cases hlowered : lowered (.ofFile f) p with
    | error e =>
      have hrun : (Task.lower f p).run o = .error e := by rw [Task.run, hlowered]; rfl
      rw [Task.course_of_error hrun, hl₂, hl₁, hparse, hlowered]
      exact ⟨rfl, rfl⟩
    | ok m =>
      have hrun : (Task.lower f p).run o = .ok (.inl (.produce f m)) :=
        by rw [Task.run, hlowered]; rfl
      rw [Task.course_of_next hrun]
      dsimp only
      refine Ends.bind ((ends_phase hlive fun _ => Trace.Ends.pure rfl).mono ?_)
      rintro _ l₃ ⟨rfl, t₃, hl₃⟩
      cases hproduced : produced o m with
      | error e =>
        have hrun : (Task.produce f m).run o = .error e := by rw [Task.run, hproduced]; rfl
        rw [Task.course_of_error hrun, hl₃, hl₂, hl₁, hparse, hlowered, hproduced]
        exact ⟨rfl, rfl⟩
      | ok text =>
        have hrun : (Task.produce f m).run o = .ok (.inr (m, text)) :=
          by rw [Task.run, hproduced]; rfl
        rw [Task.course_of_made hrun]
        refine Ends.pure ⟨rfl, ?_⟩
        rw [hl₃, hl₂, hl₁, hparse, hlowered, hproduced]
        rfl

theorem ends_compile_course (hcache : o.cacheDir = none) (hlive : o.isCancelled = false) :
    Trace.Ends (compile o (.ofFile f) f) fun c => c.untimed =
      { events := ((Task.parse f).course o.complete).1
        outcome := ((Task.parse f).course o.complete).2.map Compiled.ofMade } := by
  rw [compile]
  refine Trace.Ends.bind (Trace.ends_of_forall _ fun span => Trace.Ends.bind ?_)
  rw [fromCache_of_none hcache]
  refine Trace.Ends.pure ?_
  have hlive : o.complete.isCancelled = false := hlive
  refine Trace.Ends.bind (Trace.Ends.mono (ends_phases_course hlive) ?_)
  rintro ⟨r, l⟩ ⟨hr, hl⟩
  dsimp only at hr hl ⊢
  rw [← hr, ← hl]
  cases r with
  | error e => exact Trace.Ends.bind (Trace.ends_of_forall _ fun _ => Trace.Ends.pure rfl)
  | ok made =>
    obtain ⟨m, text⟩ := made
    dsimp only
    rw [toCache_of_none hcache]
    exact Trace.Ends.bind
      (Trace.Ends.pure (Trace.Ends.bind (Trace.ends_of_forall _ fun _ => Trace.Ends.pure rfl)))

def alone (o : CompileOptions) (disk : Disk) (path : String) :
    List PhaseEvent × Except CompileError (Ir.Module × String) :=
  match disk path with
  | .ok raw => (Task.parse (.ofDisk 0 path raw)).course o.complete
  | .error _ => ([], .error (.loadFailed path))

theorem endsWith_compilePath (hcache : o.cacheDir = none) (hlive : o.isCancelled = false) :
    Trace.EndsWith disk.Answers (compilePath o path) fun c =>
      c.untimed = { events := (alone o disk path).1,
                    outcome := (alone o disk path).2.map Compiled.ofMade } := by
  intro r
  rintro _ rfl
  cases hdisk : disk path with
  | error e =>
    rw [alone, hdisk]
    exact rfl
  | ok raw =>
    rw [alone, hdisk]
    exact (ends_compile_course hcache hlive).endsWith r

end Sysy.Compilation
