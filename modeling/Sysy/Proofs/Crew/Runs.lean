import Sysy.Proofs.Crew.Steps

/-!
The steps of a crew. Nobody is called off before an error of a file is recorded: one step keeps
this, and so do all steps of a schedule. A crew is stuck only when it is over, and every schedule
comes to an end.
-/

namespace Sysy.Crew
open Compilation Host Worker
variable {o : CompileOptions} {disk : Disk} {limit i j : Nat} {c c' : Crew} {path : String}
  {w w' : Worker} {b : Board}
  {events : List PhaseEvent} {schedule : List Nat}

def told (c : Crew) (i : Nat) : List PhaseEvent := (c.seen.filter (·.1 = i)).map (·.2)

def after (c : Crew) (i : Nat) (path : String) (w : Worker) (b : Board) (events : List PhaseEvent) :
    Crew :=
  { workers := c.workers.set i (path, w), board := b, seen := c.seen ++ events.map (i, ·) }

theorem exists_of_move (h : c.move o disk limit i = some c') : ∃ path w w' b events,
    c.workers[i]? = some (path, w) ∧ Turn o disk path c.board w w' b events ∧
    c' = c.after i path w' b events := by
  obtain ⟨⟨path, w⟩, hi, h⟩ := Option.bind_eq_some_iff.1 h
  obtain ⟨⟨w', b, events⟩, hnext, h⟩ := Option.bind_eq_some_iff.1 h
  exact ⟨path, w, w', b, events, hi, turn_of_next hnext, (Option.some.inj h).symm⟩

theorem told_after_self : (c.after i path w b events).told i = c.told i ++ events := by
  have hself : (events.map (i, ·)).filter (·.1 = i) = events.map (i, ·) :=
    List.filter_eq_self.2 fun x hx => by
      obtain ⟨e, -, rfl⟩ := List.mem_map.1 hx
      exact decide_eq_true rfl
  rw [told, after, List.filter_append, List.map_append, hself, List.map_map]
  exact congrArg _ (List.map_id _)

theorem told_after_ne (hij : i ≠ j) : (c.after i path w b events).told j = c.told j := by
  have hnone : (events.map (i, ·)).filter (·.1 = j) = [] :=
    List.filter_eq_nil_iff.2 fun x hx => by
      obtain ⟨e, -, rfl⟩ := List.mem_map.1 hx
      exact fun h => hij (of_decide_eq_true h)
  rw [told, after, List.filter_append, hnone, List.append_nil, told]

theorem paths_after (hi : c.workers[i]? = some (path, w')) :
    (c.after i path w b events).paths = c.paths := by
  have hpath : c.paths[i]? = some path := by rw [paths, List.getElem?_map, hi, Option.map_some]
  obtain ⟨hlt, hget⟩ := List.getElem?_eq_some_iff.1 hpath
  rw [paths, after, List.map_set, ← hget]
  exact List.set_getElem_self hlt

theorem worker_after_self (hi : c.workers[i]? = some (path, w')) :
    (c.after i path w b events).workers[i]? = some (path, w) :=
  List.getElem?_set_self (List.getElem?_eq_some_iff.1 hi).1

theorem worker_after_ne (hij : i ≠ j) : (c.after i path w b events).workers[j]? = c.workers[j]? :=
  List.getElem?_set_ne hij

structure Sound (o : CompileOptions) (disk : Disk) (c : Crew) : Prop where
  worker : ∀ {i path} {w : Worker}, c.workers[i]? = some (path, w) →
    w.Sound o disk path c.board (c.told i)
  /-- Nobody is called off before an error is recorded. -/
  recorded : c.board.isOff = true → c.board.failure ≠ none
  /-- The error that is recorded is what one of the files gives alone. -/
  own : ∀ {e}, c.board.failure = some e → ∃ path ∈ c.paths, (alone o disk path).2 = .error e
  /-- When an error is recorded, there is a worker that calls off the others. -/
  noted : c.board.failure ≠ none → c.board.isOff = true ∨
    ∃ (i : Nat) (path : String) (e : CompileError), c.workers[i]? = some (path, .noted e)

theorem sound_ofPaths (paths : List String) : (ofPaths paths).Sound o disk where
  worker := fun {i path w} hi => by
    obtain ⟨x, -, hx⟩ := List.mem_map.1 (List.mem_of_getElem? hi)
    obtain ⟨rfl, rfl⟩ := Prod.ext_iff.1 hx
    exact rfl
  recorded := nofun
  own := nofun
  noted := fun h => absurd rfl h

theorem Sound.move (hc : c.Sound o disk) (h : c.move o disk limit i = some c') :
    c'.Sound o disk := by
  obtain ⟨path, w, w', b, events, hi, hturn, rfl⟩ := exists_of_move h
  have hw := hc.worker hi
  have hw' : w'.Sound o disk path b (c.told i ++ events) := hw.next hc.recorded hturn
  have hself : (c.after i path w' b events).workers[i]? = some (path, w') := worker_after_self hi
  have hmem : path ∈ (c.after i path w' b events).paths := by
    rw [paths_after hi]
    exact List.mem_map.2 ⟨_, List.mem_of_getElem? hi, rfl⟩
  -- what the board says is never taken back
  have hoff : c.board.isOff = true → b.isOff = true := by
    cases hturn with
    | callOff => exact fun _ => rfl
    | _ => exact id
  have hfailure : c.board.failure ≠ none → b.failure ≠ none := by
    cases hturn with
    | record => exact fun _ => nofun
    | _ => exact id
  refine ⟨fun {j path' w''} hj => ?_, ?_, ?_, ?_⟩
  · by_cases hij : i = j
    · subst hij
      obtain ⟨rfl, rfl⟩ := Prod.ext_iff.1 (Option.some.inj (hself.symm.trans hj))
      rw [told_after_self]
      exact hw'
    · rw [worker_after_ne hij] at hj
      rw [told_after_ne hij]
      exact (hc.worker hj).mono hoff hfailure
  · cases hturn with
    | record => exact fun _ => nofun
    | callOff => exact fun _ => hw.2
    | _ => exact hc.recorded
  · intro e he
    cases hturn with
    | record hnone =>
      obtain hfails | ⟨hoff, -⟩ := hw
      · obtain rfl : _ = e := Option.some.inj he
        exact ⟨path, hmem, congrArg Prod.snd hfails⟩
      · exact absurd hnone (hc.recorded hoff)
    | _ =>
      obtain ⟨path', hmem', halone⟩ := hc.own he
      exact ⟨path', by rwa [paths_after hi], halone⟩
  · intro hsome
    by_cases hnone : c.board.failure = none
    · cases hturn with
      | record => exact .inr ⟨i, path, _, hself⟩
      | callOff => exact .inl rfl
      | _ => exact absurd hnone hsome
    obtain hoff' | ⟨j, path', e, hj⟩ := hc.noted hnone
    · exact .inl (hoff hoff')
    by_cases hij : i = j
    · subst hij
      obtain ⟨-, rfl⟩ := Prod.ext_iff.1 (Option.some.inj (hi.symm.trans hj))
      cases hturn with
      | callOff => exact .inl rfl
    · exact .inr ⟨j, path', e, (worker_after_ne hij).trans hj⟩

theorem paths_move (h : c.move o disk limit i = some c') : c'.paths = c.paths := by
  obtain ⟨path, w, w', b, events, hi, -, rfl⟩ := exists_of_move h
  exact paths_after hi

/-- What every step keeps, a schedule keeps. -/
theorem follow_induction {P : Crew → Prop}
    (hmove : ∀ {c c' i}, P c → c.move o disk limit i = some c' → P c') (hc : P c)
    (h : c.follow o disk limit schedule = some c') : P c' := by
  induction schedule generalizing c with
  | nil =>
    obtain rfl := Option.some.inj h
    exact hc
  | cons i is ih =>
    obtain ⟨c₁, hc₁, h⟩ := Option.bind_eq_some_iff.1 h
    exact ih (hmove hc hc₁) h

theorem Sound.follow (hc : c.Sound o disk) (h : c.follow o disk limit schedule = some c') :
    c'.Sound o disk :=
  follow_induction Sound.move hc h

theorem paths_follow (h : c.follow o disk limit schedule = some c') : c'.paths = c.paths :=
  follow_induction (P :=
    fun c' => c'.paths = c.paths) (fun hc hmove => (paths_move hmove).trans hc) rfl h

def rank (c : Crew) : Nat := (c.workers.map (·.2.rank)).sum

theorem rank_lt_of_move (h : c.move o disk limit i = some c') : c'.rank < c.rank := by
  obtain ⟨path, w, w', b, events, hi, hturn, rfl⟩ := exists_of_move h
  obtain ⟨hlt, hget⟩ := List.getElem?_eq_some_iff.1 hi
  obtain ⟨before, behind, hworkers, -, hset⟩ := @List.exists_of_set _ i (path, w') c.workers hlt
  have hrank : c.rank = (before.map (·.2.rank)).sum + (w.rank + (behind.map (·.2.rank)).sum) := by
    rw [rank, hworkers, hget, List.map_append, List.map_cons, List.sum_append, List.sum_cons]
  have hrank' : (c.after i path w' b events).rank =
      (before.map (·.2.rank)).sum + (w'.rank + (behind.map (·.2.rank)).sum) := by
    rw [rank, after, hset, List.map_append, List.map_cons, List.sum_append, List.sum_cons]
  have hturn := rank_lt_of_turn hturn
  omega

theorem length_add_rank_le (h : c.follow o disk limit schedule = some c') :
    schedule.length + c'.rank ≤ c.rank := by
  induction schedule generalizing c with
  | nil =>
    obtain rfl := Option.some.inj h
    exact (Nat.zero_add _).le
  | cons i is ih =>
    obtain ⟨c₁, hc₁, h⟩ := Option.bind_eq_some_iff.1 h
    have hlt := rank_lt_of_move hc₁
    have hle := ih h
    rw [List.length_cons]
    omega

theorem rank_ofPaths (paths : List String) : (ofPaths paths).rank = 14 * paths.length := by
  induction paths with
  | nil => rfl
  | cons path paths ih =>
    have hcons : (ofPaths (path :: paths)).rank = 14 + (ofPaths paths).rank := rfl
    rw [hcons, ih, List.length_cons, Nat.mul_succ, Nat.add_comm]

/-- A crew of which no worker can take a step is over. -/
theorem exists_move (hc : c.Sound o disk) (hlimit : 0 < limit) (hover : c.isOver = false) :
    ∃ i c', c.move o disk limit i = some c' := by
  by_contra! hstuck
  have hnext {i : Nat} {path : String} {w : Worker} (hi : c.workers[i]? = some (path, w)) :
      w.next o disk path (c.isNext i && c.busy < limit) c.board = none := by
    cases hw : w.next o disk path (c.isNext i && c.busy < limit) c.board with
    | none => rfl
    | some end_ =>
      refine absurd ?_ (hstuck i (c.after i path end_.1 end_.2.1 end_.2.2))
      rw [move, hi]
      exact congrArg (Option.bind · _) hw
  -- a worker that waits for an error to be acted on waits for one that can act
  have hidle : ∀ x ∈ c.workers, x.2.isBusy = false := by
    intro x hx
    obtain ⟨i, hi⟩ := List.mem_iff_getElem?.1 hx
    obtain ⟨hw, -⟩ | ⟨e, hw, hfailure, hon⟩ | hw := of_next_eq_none (hnext hi)
    · rw [isBusy, hw]
      rfl
    · obtain hoff | ⟨j, path, e', hj⟩ := hc.noted hfailure
      · exact absurd hoff (Bool.eq_false_iff.1 hon)
      · exact nomatch hnext hj
    · rw [isBusy, hw, Bool.not_true, Bool.and_false]
  have hbusy : c.busy = 0 := List.countP_eq_zero.2 fun x hx => Bool.eq_false_iff.1 (hidle x hx)
  obtain ⟨x, hx, hlive⟩ : ∃ x ∈ c.workers, x.2.hasEnded = false := by
    simpa [isOver] using hover
  have hfirst : ∃ x ∈ c.workers, x.2.isWaiting = true := by
    have hx' := hidle x hx
    rw [isBusy, hlive, Bool.not_false, Bool.and_true, Bool.not_eq_false'] at hx'
    exact ⟨x, hx, hx'⟩
  -- the first worker that was not set to work yet may begin
  let i := c.workers.findIdx (·.2.isWaiting)
  have hlt : i < c.workers.length := List.findIdx_lt_length_of_exists hfirst
  have hwaiting : c.workers[i].2.isWaiting = true := List.findIdx_getElem (w := hlt)
  have hisNext : c.isNext i = true := by
    refine List.all_eq_true.2 fun y hy => ?_
    obtain ⟨j, hj, rfl⟩ := List.mem_take_iff_getElem.1 hy
    have hji : j < i := lt_of_lt_of_le hj (min_le_left _ _)
    rw [List.not_of_lt_findIdx hji, Bool.not_false]
  have hnone : c.workers[i].2.next o disk c.workers[i].1 (c.isNext i && c.busy < limit)
    c.board = none :=
    hnext (List.getElem?_eq_getElem hlt)
  rw [eq_waiting_of_isWaiting hwaiting, Worker.next, hisNext, hbusy, decide_eq_true hlimit] at hnone
  cases hnone

end Sysy.Crew
