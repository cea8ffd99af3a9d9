import Sysy.Proofs.Crew.Runs
import Sysy.Proofs.Crew.Spared

/-!
What a crew makes of its files does not depend on the schedule: when it is over, all files are
compiled as each of them is by itself, or the error is one that a file gives by itself, and then
nothing is written.
-/

namespace Sysy
open Compilation Host
variable {o : CompileOptions} {disk : Disk}

namespace Task

theorem program_ne_cancelled (f : SourceFile) (limit : Nat) :
    f.program (.ofFile f) limit ≠ .error .cancelled := by
  unfold SourceFile.program
  intro h
  dsimp only at h
  split at h <;> cases h

theorem lowered_ne_cancelled (f : SourceFile) (p : Program) :
    lowered (.ofFile f) p ≠ .error .cancelled := by
  unfold lowered
  intro h
  split at h
  · cases h
  · rename_i e _
    cases e <;> cases h

theorem produced_ne_cancelled (o : CompileOptions) (m : Ir.Module) :
    produced o m ≠ .error .cancelled := by
  unfold produced
  intro h
  split at h
  · cases h
  · split at h <;> cases h

theorem bind_ne_cancelled {α β : Type} {x : Except CompileError α} {k : α → Except CompileError β}
    (hx : x ≠ .error .cancelled) (hk : ∀ a, k a ≠ .error .cancelled) :
    (x >>= k) ≠ .error .cancelled := by
  cases x with
  | error e => exact fun h => hx (congrArg Except.error (Except.error.inj h))
  | ok a => exact hk a

theorem run_ne_cancelled (o : CompileOptions) (t : Task) : t.run o ≠ .error .cancelled := by
  cases t with
  | parse f => exact bind_ne_cancelled (program_ne_cancelled f o.limit) fun _ => nofun
  | lower f p => exact bind_ne_cancelled (lowered_ne_cancelled f p) fun _ => nofun
  | produce f m => exact bind_ne_cancelled (produced_ne_cancelled o m) fun _ => nofun

theorem course_ne_cancelled (o : CompileOptions) (t : Task) :
    (t.course o).2 ≠ .error .cancelled := by
  induction hleft : t.left generalizing t with
  | zero => exact absurd hleft t.left_pos.ne'
  | succ n ih =>
    rcases hrun : t.run o with e | t' | made
    · rw [course_of_error hrun]
      rintro ⟨rfl⟩
      exact run_ne_cancelled o t hrun
    · rw [course_of_next hrun]
      exact ih t' (Nat.succ.inj ((next_of_run hrun).2.symm.trans hleft))
    · rw [course_of_made hrun]
      nofun

end Task

theorem Compilation.alone_ne_cancelled (o : CompileOptions) (disk : Disk) (path : String) :
    (alone o disk path).2 ≠ .error .cancelled := by
  unfold alone
  split
  · exact Task.course_ne_cancelled _ _
  · nofun

/-- Compiled by itself, whatever the time is and whatever is traced, the file at `path` gives `r`,
the times aside. -/
def Gives (o : CompileOptions) (disk : Disk) (path : String) (r : Except CompileError Compiled) :
    Prop :=
  Trace.EndsWith disk.Answers (compilePath o path) fun c => c.outcome.map Compiled.untimed = r

theorem gives_iff {path : String} {r : Except CompileError Compiled} (hcache : o.cacheDir = none)
    (hlive : o.isCancelled = false) :
    Gives o disk path r ↔ (alone o disk path).2.map Compiled.ofMade = r := by
  have halone : Trace.EndsWith disk.Answers (compilePath o path) _ :=
    endsWith_compilePath hcache hlive
  constructor
  · intro h
    obtain ⟨c, hc, hr⟩ := (halone.and h).exists disk.exists_answers
    rw [← hr]
    exact (congrArg Compilation.outcome hc).symm
  · rintro rfl r
    exact (halone r).mono fun _ hc => congrArg Compilation.outcome hc

/-- What is kept of the file at `path` is what it gives by itself. -/
def IsMade (o : CompileOptions) (disk : Disk) (path : String) (kept : String × Option Compiled) :
    Prop :=
  kept.1 = path ∧ ∃ r, kept.2 = some r ∧ Gives o disk path (.ok r)

namespace Crew
variable {c : Crew}

theorem limit_pos {processors : Nat} (jobs : Int) (h : 0 < processors) :
    0 < limit jobs processors := by
  unfold limit
  split
  · exact h
  · omega

/-- A crew that is over and recorded no error made of each file what is made of it alone. -/
theorem Sound.made (hc : c.Sound o disk) (hover : c.isOver = true)
    (hnone : c.board.failure = none) :
    ∀ x ∈ c.workers, ∃ made, x.2 = .ended (.ok made) ∧ (alone o disk x.1).2 = .ok made := by
  intro x hx
  obtain ⟨i, hi⟩ := List.mem_iff_getElem?.1 hx
  obtain ⟨path, w⟩ := x
  have hended : w.hasEnded = true := List.all_eq_true.1 hover _ hx
  have hw := hc.worker hi
  cases w with
  | ended result =>
    cases result with
    | ok made => exact ⟨made, rfl, congrArg Prod.snd hw⟩
    | error e => exact absurd hnone (hc.recorded hw.1)
  | _ => cases hended

/-- Compiling files at the same time comes to an end that does not depend on the schedule: the files
that each gives by itself, in their order, or the error of one of them. -/
theorem schedule_independent (o : CompileOptions) (disk : Disk) (paths : List String) (jobs : Int)
    (processors : Nat) (schedule : List Nat) (c : Crew) (hprocessors : 0 < processors)
    (hcache : o.cacheDir = none) (hlive : o.isCancelled = false)
    (hrun : (ofPaths paths).follow o disk (limit jobs processors) schedule = some c) :
    schedule.length ≤ 14 * paths.length ∧
    (c.isOver = false → ∃ i c', c.move o disk (limit jobs processors) i = some c') ∧
    (∀ path ∈ paths, Trace.Spares (compilePath o path)) ∧
    (c.isOver = true →
      (c.board.failure = none ↔ ∀ path ∈ paths, ∃ r, Gives o disk path (.ok r)) ∧
      (c.board.failure = none → List.Forall₂ (IsMade o disk) paths c.files) ∧
      ∀ e, c.board.failure = some e → e ≠ .cancelled ∧
        (∃ path ∈ paths, Gives o disk path (.error e)) ∧
        ∀ q, Build.settle q (c.built q) = .done (c.built q) ∧ (c.built q).outputs = []) := by
  have hsound : c.Sound o disk := (sound_ofPaths paths).follow hrun
  have hpaths : c.paths = paths :=
    (paths_follow hrun).trans (by rw [Crew.paths, ofPaths, List.map_map]; exact List.map_id _)
  refine ⟨?_, exists_move hsound (limit_pos jobs hprocessors),
    fun path _ => spares_compilePath path hcache, ?_⟩
  · have hlength := length_add_rank_le hrun
    rw [rank_ofPaths] at hlength
    omega
  intro hover
  have hown {e : CompileError} (he : c.board.failure = some e) : ∃ path ∈ paths, Gives o disk path
    (.error e) := by
    obtain ⟨path, hmem, halone⟩ := hsound.own he
    exact ⟨path, hpaths ▸ hmem, (gives_iff hcache hlive).2 (by rw [halone]; rfl)⟩
  have hmade (hnone : c.board.failure = none) :
      ∀ x ∈ c.workers, ∃ r, x.2.compiled? = some r ∧ Gives o disk x.1 (.ok r) := by
    intro x hx
    obtain ⟨made, hended, halone⟩ := hsound.made hover hnone x hx
    exact ⟨.ofMade made, by rw [hended]; rfl, (gives_iff hcache hlive).2 (by rw [halone]; rfl)⟩
  refine ⟨⟨fun hnone path hmem => ?_, fun hall => ?_⟩, fun hnone => ?_,
    fun e he => ⟨?_, hown he, fun q => ⟨?_, rfl⟩⟩⟩
  · rw [← hpaths] at hmem
    obtain ⟨x, hx, rfl⟩ := List.mem_map.1 hmem
    obtain ⟨r, -, hr⟩ := hmade hnone x hx
    exact ⟨r, hr⟩
  · cases hfailure : c.board.failure with
    | none => rfl
    | some e =>
      obtain ⟨path, hmem, herror⟩ := hown hfailure
      obtain ⟨r, hr⟩ := hall path hmem
      -- a file by itself gives one answer only
      have halone := ((gives_iff hcache hlive).1 hr).symm.trans ((gives_iff hcache hlive).1 herror)
      cases halone
  · rw [← hpaths, Crew.paths, files, List.forall₂_map_left_iff, List.forall₂_map_right_iff,
      List.forall₂_same]
    exact fun x hx => ⟨rfl, hmade hnone x hx⟩
  · rintro rfl
    obtain ⟨path, -, halone⟩ := hsound.own he
    exact alone_ne_cancelled o disk path halone
  · rw [Build.settle, built, he]
    rfl

/-- One file is fine, and a name in the other is not declared. -/
def diskSample : Disk
  | "fine.c" => .ok (Bytes.ofString "int main() { return 0; }")
  | "flawed.c" => .ok (Bytes.ofString "int main() { return x; }")
  | path => .error ⟨"open", path, .missing⟩

def pathsSample : List String := ["fine.c", "flawed.c"]

/-- The worker on the fine file passes its question before the first phase while the error is being
recorded, and finds out before the second phase. -/
def scheduleSample : List Nat := [0, 0, 0, 1, 1, 1, 1, 1, 1, 1, 1, 1, 1, 0, 1, 0, 0, 0, 0]

theorem schedule_independent_diskSample : ∃ c e,
    (ofPaths pathsSample).follow {} diskSample (limit 2 1) scheduleSample = some c ∧
    c.isOver = true ∧ c.files.map (·.2.isSome) = [false, false] ∧
    c.board.failure = some e ∧ e ≠ .cancelled ∧
    (∃ path ∈ pathsSample, Gives {} diskSample path (.error e)) ∧
    ∀ q, Build.settle q (c.built q) = .done (c.built q) := by
  have hrun : ((ofPaths pathsSample).follow {} diskSample (limit 2 1) scheduleSample).any (fun c =>
      c.isOver && c.files.map (·.2.isSome) = [false, false] && c.board.failure.isSome) = true :=
        by decide +kernel
  obtain ⟨c, hc, h⟩ := (Option.any_eq_true _ _).1 hrun
  simp only [Bool.and_eq_true, decide_eq_true_eq] at h
  obtain ⟨⟨hover, hfiles⟩, hsome⟩ := h
  obtain ⟨e, he⟩ := Option.isSome_iff_exists.1 hsome
  obtain ⟨-, -, -, houtcome⟩ :=
    schedule_independent {} diskSample pathsSample 2 1 scheduleSample c (by decide) rfl rfl hc
  obtain ⟨hne, hgives, hsettle⟩ := (houtcome hover).2.2 e he
  exact ⟨c, e, hc, hover, hfiles, he, hne, hgives, fun q => (hsettle q).1⟩

end Crew

end Sysy
