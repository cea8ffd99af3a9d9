import Sysy.Proofs.Crew.Schedules

/-!
The news of a build. What is told of a file, whatever the schedule is, is how far its phases got,
and its error last if one of them failed; a file that cannot be read is not told of. The news of the
phases carries the path as it is kept in the file set, and not as it was given: so it stays behind
if the path is not clean.
-/

namespace Sysy
open Compilation Host
variable {o : CompileOptions} {disk : Disk} {path : String}

/-- The news that the first `count` phases of the file at `path` are worked on. -/
def working (path : String) (count : Nat) : List ProgressEvent :=
  ([Phase.parse, .irgen, .codegen].take count).map fun p =>
    { file := Path.clean path, stage := p.stage, status := .working }

inductive Reported (disk : Disk) (path : String) :
    Except CompileError (Ir.Module × String) → List ProgressEvent → Prop where
  | made {made : Ir.Module × String} : Reported disk path (.ok made) (working path 3)
  /-- The last of the phases that are worked on failed. -/
  | flawed {count : Nat} {p : Phase} {e : CompileError} (hread : ∃ raw, disk path = .ok raw)
    (hp : [Phase.parse, .irgen, .codegen][count]? = some p) : Reported disk path (.error e)
      (working path (count + 1) ++ [{ file := Path.clean path, stage := p.stage, status := .failed,
                                      error := some e }])
  | unread {e : FileError} (he : disk path = .error e) : Reported disk path
      (.error (.loadFailed path)) []
  | calledOff {count : Nat} (hcount : count < 3) : Reported disk path (.error .cancelled)
      (working path count)

namespace Task
variable {t : Task}

theorem news_before (ht : t.file.path = Path.clean path) :
    t.before.filterMap Build.progress? = working path (3 - t.left) := by
  cases t with
  | parse f => rfl
  | lower f p =>
    simp only [file] at ht
    rw [working, ← ht]
    rfl
  | produce f m =>
    simp only [file] at ht
    rw [working, ← ht]
    rfl

theorem phase_eq (t : Task) : [Phase.parse, .irgen, .codegen][3 - t.left]? = some t.phase := by
  cases t <;> rfl

theorem news_started (ht : t.file.path = Path.clean path) :
    (t.before ++ [t.event .started]).filterMap Build.progress? = working path (3 - t.left + 1) := by
  rw [List.filterMap_append, news_before ht, working, working, List.take_add_one, phase_eq,
    Option.toList_some,
    List.map_append, event, ht]
  rfl

theorem reported_alone (ht : t.OnWay o disk path) :
    Reported disk path (alone o disk path).2 ((alone o disk path).1.filterMap Build.progress?) := by
  induction hleft : t.left generalizing t with
  | zero => exact absurd hleft t.left_pos.ne'
  | succ n ih =>
    rcases hrun : t.run o.complete with e | t' | made
    · have hnews : (t.before ++ [t.event .started, t.event (.failed e 0)]).filterMap
        Build.progress? =
          working path (3 - t.left + 1) ++
            [{ file := Path.clean path, stage := t.phase.stage, status := .failed,
               error := some e }] := by
        rw [List.append_cons, List.filterMap_append, news_started ht.file, event, ht.file]
        rfl
      rw [ht.alone_of_error hrun, hnews]
      exact .flawed ht.read t.phase_eq
    · exact ih (ht.next hrun) (Nat.succ.inj ((next_of_run hrun).2.symm.trans hleft))
    · have hnews : (t.before ++ [t.event .started, t.event (.ended 0)]).filterMap Build.progress? =
        working path 3 := by
        rw [List.append_cons, List.filterMap_append, news_started ht.file, left_of_made hrun]
        exact List.append_nil _
      rw [ht.alone_of_made hrun, hnews]
      exact .made

end Task

theorem Compilation.reported_alone (o : CompileOptions) (disk : Disk) (path : String) :
    Reported disk path (alone o disk path).2 ((alone o disk path).1.filterMap Build.progress?) := by
  cases hdisk : disk path with
  | ok raw => exact Task.reported_alone (Task.onWay_parse hdisk)
  | error e =>
    rw [alone, hdisk]
    exact .unread hdisk

namespace Worker
variable {b : Board} {told : List PhaseEvent} {w : Worker}
  {r : Except CompileError (Ir.Module × String)} {e : CompileError}

theorem reported_of_fails (h : Fails o disk path told e) :
    Reported disk path (.error e) (told.filterMap Build.progress?) := by
  have halone := reported_alone o disk path
  rwa [h] at halone

theorem reported_of_calledOff (h : CalledOff o disk path told e) :
    Reported disk path (.error e) (told.filterMap Build.progress?) := by
  obtain ⟨rfl, rfl | ⟨t, ht, rfl⟩⟩ := h
  · have hnone : Reported disk path (.error .cancelled) (working path 0) := .calledOff (by decide)
    exact hnone
  · rw [Task.news_before ht.file]
    exact .calledOff (Nat.sub_lt (by decide) t.left_pos)

theorem Sound.reported (hw : (ended r).Sound o disk path b told) :
    Reported disk path r (told.filterMap Build.progress?) := by
  cases r with
  | ok made =>
    have halone := reported_alone o disk path
    rwa [show alone o disk path = (told, .ok made) from hw] at halone
  | error e => exact hw.2.elim reported_of_fails reported_of_calledOff

theorem initial_of_calledOff (h : CalledOff o disk path told e) :
    told <+: (alone o disk path).1 := by
  obtain ⟨-, rfl | ⟨t, ht, rfl⟩⟩ := h
  · exact ⟨_, List.nil_append _⟩
  · exact ⟨_, ht.told⟩

theorem initial_of_fails (h : Fails o disk path told e) : told <+: (alone o disk path).1 := by
  rw [h]

/-- A worker tells what is told of its file alone, as far as it gets. -/
theorem Sound.told_initial (hw : w.Sound o disk path b told) : told <+: (alone o disk path).1 := by
  cases w with
  | waiting | begun | reading =>
    obtain rfl : told = [] := hw
    exact ⟨_, List.nil_append _⟩
  | ready t | cleared t =>
    obtain ⟨ht, rfl⟩ := hw
    exact ⟨_, ht.told⟩
  | running t =>
    obtain ⟨ht, rfl⟩ := hw
    obtain ⟨rest, hrest⟩ := t.exists_course o.complete
    exact ⟨rest, by rw [← ht.told, hrest, List.append_assoc]; rfl⟩
  | failed e => exact hw.elim initial_of_fails fun h => initial_of_calledOff h.2
  | noted e => exact initial_of_fails hw.1
  | ended r =>
    cases r with
    | ok made => rw [show alone o disk path = (told, .ok made) from hw]
    | error e => exact hw.2.elim initial_of_fails initial_of_calledOff

def failure? : Worker → Option CompileError
  | ended (.error e) => some e
  | _ => none

theorem failure?_eq_some {w : Worker} {e : CompileError} : w.failure? = some e ↔
    w = .ended (.error e) := by
  constructor
  · intro h
    cases w with
    | ended r =>
      cases r with
      | error e' =>
        cases h
        rfl
      | ok made => cases h
    | _ => cases h
  · rintro rfl
    rfl

end Worker

def ProgressEvent.untimed (e : ProgressEvent) : ProgressEvent := { e with elapsed := 0 }

namespace Build
variable {q : BuildRequest}

def written (path : String) : List ProgressEvent :=
  [{ file := path, stage := .write, status := .working },
    { file := path, stage := .write, status := .done }]

theorem ends_writeAll (files : List (String × Option Compiled))
    (hfiles : ∀ x ∈ files, x.2.isSome = true) (b : Built) :
    (writeAll q files b).Ends fun b' => b'.error = none →
      b'.events.map ProgressEvent.untimed =
        b.events.map ProgressEvent.untimed ++ files.flatMap fun x => written x.1 := by
  induction files generalizing b with
  | nil => exact fun _ => (List.append_nil _).symm
  | cons x files ih =>
    obtain ⟨path, c⟩ := x
    cases c with
    | none => cases hfiles _ List.mem_cons_self
    | some c =>
      intro t₀ made
      cases made with
      | error e => exact nofun
      | ok _ =>
        intro t₁
        refine (ih (fun x hx => hfiles x (List.mem_cons_of_mem _ hx)) _).mono fun b' hb' hok => ?_
        rw [hb' hok, List.map_append, List.append_assoc]
        rfl

end Build

theorem Reported.file_eq {r : Except CompileError (Ir.Module × String)} {news : List ProgressEvent}
    (h : Reported disk path r news) : ∀ e ∈ news, e.file = Path.clean path := by
  have hworking (count : Nat) : ∀ e ∈ working path count, e.file = Path.clean path := fun e he => by
    obtain ⟨p, -, rfl⟩ := List.mem_map.1 he
    rfl
  cases h with
  | made => exact hworking 3
  | flawed hread hp =>
    intro e he
    obtain he | he := List.mem_append.1 he
    · exact hworking _ e he
    · rw [List.mem_singleton.1 he]
  | unread he => exact List.forall_mem_nil _
  | calledOff hcount => exact hworking _

namespace Crew
variable {c c' : Crew} {i most : Nat}

def news (c : Crew) (i : Nat) : List ProgressEvent := (c.told i).filterMap Build.progress?

def Attributed (c : Crew) : Prop := ∀ x ∈ c.seen, ∃ path w, c.workers[x.1]? = some (path, w)

theorem Attributed.move (hc : c.Attributed) (h : c.move o disk most i = some c') :
    c'.Attributed := by
  obtain ⟨path, w, w', b, events, hi, -, rfl⟩ := exists_of_move h
  intro x hx
  have hself : (c.after i path w' b events).workers[i]? = some (path, w') := worker_after_self hi
  by_cases hix : i = x.1
  · exact ⟨path, w', hix ▸ hself⟩
  · rw [worker_after_ne hix]
    obtain hx | hx := List.mem_append.1 hx
    · exact hc x hx
    · obtain ⟨e, -, rfl⟩ := List.mem_map.1 hx
      exact absurd rfl hix

theorem mem_news {x : Nat × PhaseEvent} {e : ProgressEvent} (hx : x ∈ c.seen)
    (he : Build.progress? x.2 = some e) :
    e ∈ c.news x.1 :=
  List.mem_filterMap.2 ⟨x.2,
    List.mem_map.2 ⟨x, List.mem_filter.2 ⟨hx, decide_eq_true rfl⟩, rfl⟩, he⟩

/-- What is told of a file is what is told of it when it is compiled by itself, as far as it gets.
When all is compiled, the outputs are told of in the order of the files. -/
theorem news_follow_files (q : BuildRequest) (disk : Disk) (processors : Nat) (schedule : List Nat)
    (c : Crew) (hcache : q.cacheDir = none)
    (hrun : (ofPaths q.files).follow q.options disk (limit q.jobs processors) schedule = some c) :
    (∀ i path w, c.workers[i]? = some (path, w) → q.files[i]? = some path ∧
      (∀ r, w = .ended r → Reported disk path r (c.news i)) ∧
      ∃ r news, Reported disk path r news ∧ c.news i <+: news ∧
        Trace.EndsWith disk.Answers (compilePath q.options path)
          fun k => k.untimed.events.filterMap Build.progress? = news) ∧
    (∀ e ∈ (c.built q).events, e ∈ q.queued.events ∨
      ∃ i path, q.files[i]? = some path ∧ e ∈ c.news i ∧ e.file = Path.clean path) ∧
    (c.isOver = true → (Build.settle q (c.built q)).Ends fun b =>
      (c.board.failure ≠ none → b.events = (c.built q).events) ∧
      (b.error = none → b.events.map ProgressEvent.untimed =
        (c.built q).events.map ProgressEvent.untimed ++ q.files.flatMap Build.written)) := by
  have hsound : c.Sound q.options disk := (sound_ofPaths q.files).follow hrun
  have hpaths : c.paths = q.files :=
    (paths_follow hrun).trans (by rw [Crew.paths, ofPaths, List.map_map]; exact List.map_id _)
  have hattributed : c.Attributed :=
    follow_induction Attributed.move (fun x hx => absurd hx List.not_mem_nil) hrun
  have hfile {i : Nat} {path : String} {w : Worker} (hi : c.workers[i]? = some (path, w)) :
    q.files[i]? = some path := by
    rw [← hpaths, Crew.paths, List.getElem?_map, hi]
    rfl
  have hinitial {i : Nat} {path : String} {w : Worker} (hi : c.workers[i]? = some (path, w)) :
      c.news i <+: (alone q.options disk path).1.filterMap Build.progress? :=
    (hsound.worker hi).told_initial.filterMap _
  refine ⟨fun i path w hi => ⟨hfile hi, ?_, _, _, reported_alone q.options disk path, hinitial hi,
    fun r => ?_⟩, ?_, ?_⟩
  · rintro r rfl
    exact (hsound.worker hi).reported
  · exact (endsWith_compilePath hcache rfl r).mono fun end_ hend =>
      congrArg (fun k => k.events.filterMap Build.progress?) hend
  · intro e he
    obtain he | he := List.mem_append.1 he
    · exact .inl he
    · obtain ⟨x, hx, hprogress⟩ := List.mem_filterMap.1 he
      obtain ⟨path, w, hi⟩ := hattributed x hx
      have hmem := mem_news hx hprogress
      exact .inr ⟨x.1, path, hfile hi, hmem, (reported_alone q.options disk path).file_eq e
        ((hinitial hi).subset hmem)⟩
  · intro hover
    cases hfailure : c.board.failure with
    | some e =>
      have herror : (c.built q).error = some (.compile e) := by rw [built, hfailure]; rfl
      rw [Build.settle, herror]
      exact ⟨fun _ => rfl, fun hnone => absurd (herror.symm.trans hnone) (Option.some_ne_none _)⟩
    | none =>
      have herror : (c.built q).error = none := by rw [built, hfailure]; rfl
      have hmade : ∀ x ∈ c.files, x.2.isSome = true := by
        intro x hx
        obtain ⟨⟨path, w⟩, hmem, rfl⟩ := List.mem_map.1 hx
        obtain ⟨made, rfl, -⟩ := hsound.made hover hfailure _ hmem
        rfl
      -- the crew keeps the files in the order they were asked for, whoever was done first
      have hfiles : c.files.flatMap (fun x => Build.written x.1) =
        q.files.flatMap Build.written := by
        rw [← hpaths, Crew.paths, files, List.flatMap_map, List.flatMap_map]
      rw [Build.settle, herror]
      refine (Build.ends_writeAll c.files hmade (c.built q)).mono fun b hb =>
        ⟨fun h => absurd rfl h, fun hok => ?_⟩
      rw [hb hok, hfiles]

def requestSample : BuildRequest := { files := pathsSample, jobs := 2 }

/-- The flawed file has its error last, and the fine one is called off after its first phase. -/
theorem news_follow_files_requestSample : ∃ c e,
    (ofPaths requestSample.files).follow requestSample.options diskSample
      (limit requestSample.jobs 1) scheduleSample = some c ∧
    c.workers[1]? = some ("flawed.c", .ended (.error e)) ∧
    Reported diskSample "flawed.c" (.error e) (c.news 1) ∧ c.news 0 = working "fine.c" 1 := by
  have hrun : ((ofPaths requestSample.files).follow requestSample.options diskSample
    (limit requestSample.jobs 1)
      scheduleSample).any (fun c => c.news 0 = working "fine.c" 1 &&
        (c.workers[1]?).any fun p => p.1 = "flawed.c" && p.2.failure?.isSome) = true :=
          by decide +kernel
  obtain ⟨c, hc, h⟩ := (Option.any_eq_true _ _).1 hrun
  obtain ⟨hnews, hended⟩ := Bool.and_eq_true_iff.1 h
  obtain ⟨⟨path, w⟩, hi, hended⟩ := (Option.any_eq_true _ _).1 hended
  obtain ⟨hpath, hfailure⟩ := Bool.and_eq_true_iff.1 hended
  obtain rfl : path = "flawed.c" := of_decide_eq_true hpath
  obtain ⟨e, he⟩ := Option.isSome_iff_exists.1 hfailure
  obtain rfl := Worker.failure?_eq_some.1 he
  have hreported :=
    ((news_follow_files requestSample diskSample 1 scheduleSample c rfl hc).1 1 _ _ hi).2.1 _ rfl
  exact ⟨c, e, hc, hi, hreported, of_decide_eq_true hnews⟩

/-- The news of the phases need not carry one of the paths that were given: one that is not clean is
told of under its clean form. -/
theorem not_forall_file_mem :
    ¬ ∀ (q : BuildRequest) (disk : Disk) (processors : Nat) (schedule : List Nat) (c : Crew),
      q.cacheDir = none → q.fault? = none →
      (ofPaths q.files).follow q.options disk (limit q.jobs processors) schedule = some c →
      ∀ e ∈ (c.built q).events, e.file ∈ q.files := by
  intro hall
  let q : BuildRequest := { files := ["./fine.c"] }
  have hrun : ((ofPaths q.files).follow q.options (fun _ => diskSample "fine.c") (limit q.jobs 1)
    [0, 0, 0, 0, 0]).any
      (fun c => (c.built q).events.any fun e => e.file = "fine.c") = true := by decide +kernel
  obtain ⟨c, hc, h⟩ := (Option.any_eq_true _ _).1 hrun
  obtain ⟨e, he, hfile⟩ := List.any_eq_true.1 h
  have hmem := hall q _ 1 _ c rfl (by decide +kernel) hc e he
  rw [of_decide_eq_true hfile] at hmem
  exact absurd hmem (by decide)

end Crew

end Sysy
