import Mathlib.Data.List.Induction
import Sysy.Path

/-!
Where a path leads.

The elements of a path go up some directories and then down some names. `Route` keeps just that, and
the stack of `push` shows it, without the way up if the path begins at the root. Main statement: two
paths have the same clean form if and only if they lead to the same place from a working directory
and are comparable, that is, both begin at the root or both go up equally far.
-/

namespace Sysy.Path
variable {p q r s : List Char} {ss : List (List Char)}

structure IsName (s : List Char) : Prop where
  ne_nil : s ≠ []
  ne_dot : s ≠ ['.']
  ne_up : s ≠ ['.', '.']
  no_slash : '/' ∉ s

/-! Splitting and joining. -/

theorem exists_split (p : List Char) : ∃ s ss, split p = s :: ss := by
  cases p with
  | nil => exact ⟨[], [], rfl⟩
  | cons c p =>
    rw [split]
    split
    · exact ⟨[], split p, rfl⟩
    · split
      · exact ⟨[c], [], rfl⟩
      · exact ⟨_, _, rfl⟩

theorem split_slash (p : List Char) : split ('/' :: p) = [] :: split p := by rw [split, if_pos rfl]

theorem split_cons {c : Char} (hc : c ≠ '/') (h : split p = s :: ss) :
    split (c :: p) = (c :: s) :: ss := by
  rw [split, if_neg hc, h]

theorem split_append (p q : List Char) : split (p ++ '/' :: q) = split p ++ split q := by
  induction p with
  | nil => exact split_slash q
  | cons c p ih =>
    by_cases hc : c = '/'
    · subst hc
      rw [List.cons_append, split_slash, split_slash, ih, List.cons_append]
    · obtain ⟨s, ss, h⟩ := exists_split p
      rw [h] at ih
      rw [split_cons hc h]
      exact split_cons hc ih

theorem split_of_no_slash (h : '/' ∉ s) : split s = [s] := by
  induction s with
  | nil => rfl
  | cons c s ih =>
    exact split_cons (List.ne_of_not_mem_cons h).symm (ih (List.not_mem_of_not_mem_cons h))

theorem no_slash_of_mem_split (h : s ∈ split p) : '/' ∉ s := by
  induction p generalizing s with
  | nil =>
    rw [List.mem_singleton.mp h]
    exact List.not_mem_nil
  | cons c p ih =>
    by_cases hc : c = '/'
    · subst hc
      rw [split_slash] at h
      rcases List.mem_cons.mp h with rfl | h
      · exact List.not_mem_nil
      · exact ih h
    · obtain ⟨t, ts, ht⟩ := exists_split p
      rw [ht] at ih
      rw [split_cons hc ht] at h
      rcases List.mem_cons.mp h with rfl | h
      · exact List.not_mem_cons_of_ne_of_not_mem (Ne.symm hc) (ih List.mem_cons_self)
      · exact ih (List.mem_cons_of_mem t h)

theorem split_joinSlash (hne : ss ≠ []) (h : ∀ s ∈ ss, '/' ∉ s) : split (joinSlash ss) = ss := by
  induction ss with
  | nil => exact absurd rfl hne
  | cons s ss ih =>
    obtain ⟨hs, hss⟩ := List.forall_mem_cons.mp h
    cases ss with
    | nil => exact split_of_no_slash hs
    | cons t ts =>
      have hrest := ih (List.cons_ne_nil t ts) hss
      rw [joinSlash, split_append, split_of_no_slash hs, hrest, List.singleton_append]
      exact nofun

/-! Routes. -/

@[ext]
structure Route where
  climbs : Nat := 0
  names : List (List Char) := []
  deriving DecidableEq, Repr

namespace Route
variable {w : Route}

def push (w : Route) (s : List Char) : Route :=
  if s = [] ∨ s = ['.'] then w
  else if s = ['.', '.'] then
    match w.names with
    | [] => { w with climbs := w.climbs + 1 }
    | _ :: below => { w with names := below }
  else { w with names := s :: w.names }

def follow (w : Route) (ss : List (List Char)) : Route := ss.foldl push w

/-- What is left of a route that begins at the root, if it does. -/
def seen (rooted : Bool) (w : Route) : Route := if rooted then { w with climbs := 0 } else w

def stack (w : Route) : List (List Char) := w.names ++ List.replicate w.climbs ['.', '.']

def Proper (w : Route) : Prop := ∀ s ∈ w.names, IsName s

@[simp] theorem push_nil (w : Route) : w.push [] = w := if_pos (.inl rfl)

@[simp] theorem push_dot (w : Route) : w.push ['.'] = w := if_pos (.inr rfl)

theorem push_name (h : IsName s) (w : Route) : w.push s = { w with names := s :: w.names } := by
  rw [push, if_neg (not_or.mpr ⟨h.ne_nil, h.ne_dot⟩), if_neg h.ne_up]

theorem push_up (w : Route) :
    w.push ['.', '.'] = { climbs := if w.names = [] then w.climbs + 1 else w.climbs,
                          names := w.names.tail } := by
  rcases w with ⟨k, _ | ⟨top, below⟩⟩ <;> rfl

@[simp] theorem names_seen (rooted : Bool) (w : Route) : (w.seen rooted).names = w.names := by
  cases rooted <;> rfl

theorem follow_append (w : Route) (ss ts : List (List Char)) :
    w.follow (ss ++ ts) = (w.follow ss).follow ts :=
  List.foldl_append

theorem follow_single (w : Route) (s : List Char) : w.follow [s] = w.push s := rfl

theorem element_cases (h : '/' ∉ s) : s = [] ∨ s = ['.'] ∨ s = ['.', '.'] ∨ IsName s := by
  by_cases hnil : s = []
  · exact .inl hnil
  by_cases hdot : s = ['.']
  · exact .inr (.inl hdot)
  by_cases hup : s = ['.', '.']
  · exact .inr (.inr (.inl hup))
  · exact .inr (.inr (.inr ⟨hnil, hdot, hup, h⟩))

theorem Proper.push (hw : w.Proper) (hs : '/' ∉ s) : (w.push s).Proper := by
  rcases element_cases hs with rfl | rfl | rfl | hname
  · rwa [push_nil]
  · rwa [push_dot]
  · rw [push_up]
    exact fun t ht => hw t (List.mem_of_mem_tail ht)
  · rw [push_name hname]
    exact List.forall_mem_cons.mpr ⟨hname, hw⟩

theorem push_stack (rooted : Bool) (hw : w.Proper) (hs : '/' ∉ s) :
    Path.push rooted (w.seen rooted).stack s = ((w.push s).seen rooted).stack := by
  rcases element_cases hs with rfl | rfl | rfl | hname
  · rfl
  · rfl
  · rcases w with ⟨k, _ | ⟨top, below⟩⟩
    · cases rooted with
      | true => rfl
      | false => cases k <;> rfl
    · have htop : top ≠ ['.', '.'] := (hw top List.mem_cons_self).ne_up
      cases rooted <;> exact if_neg htop
  · have hpush : Path.push rooted (w.seen rooted).stack s = s :: (w.seen rooted).stack := by
      unfold Path.push
      rw [if_neg (not_or.mpr ⟨hname.ne_nil, hname.ne_dot⟩), if_neg hname.ne_up]
    rw [hpush, push_name hname]
    cases rooted <;> rfl

theorem follow_stack (rooted : Bool) (hss : ∀ s ∈ ss, '/' ∉ s) (hw : w.Proper) :
    ss.foldl (Path.push rooted) (w.seen rooted).stack = ((w.follow ss).seen rooted).stack ∧
    (w.follow ss).Proper := by
  induction ss generalizing w with
  | nil => exact ⟨rfl, hw⟩
  | cons s ss ih =>
    obtain ⟨hs, hss⟩ := List.forall_mem_cons.mp hss
    rw [List.foldl_cons, push_stack rooted hw hs]
    exact ih hss (hw.push hs)

/-- A route behind another one: its way up leaves the names of the first. -/
theorem names_follow (w : Route) (hss : ∀ s ∈ ss, '/' ∉ s) :
    (w.follow ss).names = (follow {} ss).names ++ w.names.drop (follow {} ss).climbs := by
  induction ss using List.reverseRecOn with
  | nil => rfl
  | append_singleton ss s ih =>
    have hs : '/' ∉ s := hss s (List.mem_append_right ss List.mem_cons_self)
    have ih := ih fun t ht => hss t (List.mem_append_left [s] ht)
    rw [follow_append, follow_append, follow_single, follow_single]
    generalize w.follow ss = v at ih ⊢
    generalize follow {} ss = f at ih ⊢
    rcases element_cases hs with rfl | rfl | rfl | hname
    · rwa [push_nil, push_nil]
    · rwa [push_dot, push_dot]
    · rw [push_up, push_up]
      dsimp only
      rw [ih]
      -- without names to leave, the second route goes up in the first
      rcases f with ⟨k, _ | ⟨top, below⟩⟩
      · exact List.tail_drop
      · rfl
    · rw [push_name hname, push_name hname]
      dsimp only
      rw [ih, List.cons_append]

theorem follow_elements (hw : w.Proper) : follow {} w.stack.reverse = w := by
  have hup (k : Nat) : follow {} (List.replicate k ['.', '.']) = { climbs := k } := by
    induction k with
    | zero => rfl
    | succ k ih =>
      rw [List.replicate_succ', follow_append, ih]
      rfl
  have hdown (k : Nat) (names : List (List Char)) (h : ∀ s ∈ names, IsName s) :
      follow { climbs := k } names.reverse = { climbs := k, names } := by
    induction names with
    | nil => rfl
    | cons s names ih =>
      obtain ⟨hs, hnames⟩ := List.forall_mem_cons.mp h
      rw [List.reverse_cons, follow_append, ih hnames, follow_single, push_name hs]
  rw [stack, List.reverse_append, List.reverse_replicate, follow_append, hup]
  exact hdown w.climbs w.names hw

theorem forall_mem_stack (hw : w.Proper) : ∀ s ∈ w.stack, s ≠ [] ∧ '/' ∉ s := by
  intro s hs
  rcases List.mem_append.mp hs with hs | hs
  · exact ⟨(hw s hs).ne_nil, (hw s hs).no_slash⟩
  · rw [List.eq_of_mem_replicate hs]
    decide

end Route

/-! Clean paths. -/

def route (p : List Char) : Route := .follow {} (split p)

def rooted (p : List Char) : Bool := p.head? == some '/'

theorem route_proper (p : List Char) : (route p).Proper :=
  (Route.follow_stack false (fun _ => no_slash_of_mem_split)
    (fun _ h => absurd h List.not_mem_nil)).2

theorem route_append (p q : List Char) : route (p ++ '/' :: q) = (route p).follow (split q) := by
  rw [route, split_append, Route.follow_append]
  rfl

theorem names_route_append (p q : List Char) :
    (route (p ++ '/' :: q)).names = (route q).names ++ (route p).names.drop (route q).climbs := by
  rw [route_append]
  exact Route.names_follow (route p) fun _ => no_slash_of_mem_split

theorem rooted_append (hp : p ≠ []) (q : List Char) : rooted (p ++ q) = rooted p := by
  obtain ⟨c, p, rfl⟩ := List.exists_cons_of_ne_nil hp
  rfl

def shown (p : List Char) : Route := (route p).seen (rooted p)

theorem shown_proper (p : List Char) : (shown p).Proper := by
  rw [Route.Proper, shown, Route.names_seen]
  exact route_proper p

theorem cleanChars_eq (p : List Char) : cleanChars p =
    if rooted p then '/' :: joinSlash (shown p).stack.reverse
    else if joinSlash (shown p).stack.reverse = [] then ['.'] else joinSlash
      (shown p).stack.reverse := by
  have hstart : (Route.seen (rooted p) {}).stack = [] := by cases rooted p <;> rfl
  have hstack := (Route.follow_stack (rooted p) (fun _ => no_slash_of_mem_split (p := p))
    (fun _ h => absurd h List.not_mem_nil) (w := {})).1
  rw [hstart] at hstack
  rw [shown, route, ← hstack]
  rfl

theorem cleanChars_ne_nil (p : List Char) : cleanChars p ≠ [] := by
  rw [cleanChars_eq]
  split
  · exact List.cons_ne_nil _ _
  · split
    · exact List.cons_ne_nil _ _
    · assumption

theorem rooted_joinSlash (h : ∀ s ∈ ss, s ≠ [] ∧ '/' ∉ s) : rooted (joinSlash ss) = false := by
  rcases ss with _ | ⟨s, ss⟩
  · rfl
  obtain ⟨hne, hs⟩ := h s List.mem_cons_self
  obtain ⟨c, s, rfl⟩ := List.exists_cons_of_ne_nil hne
  have hc : c ≠ '/' := (List.ne_of_not_mem_cons hs).symm
  cases ss <;> exact beq_false_of_ne fun h => hc (Option.some.inj h)

theorem route_joinSlash (h : ∀ s ∈ ss, '/' ∉ s) : route (joinSlash ss) = .follow {} ss := by
  by_cases hne : ss = []
  · subst hne
    rfl
  · rw [route, split_joinSlash hne h]

theorem rooted_route_cleanChars (p : List Char) : rooted (cleanChars p) = rooted p ∧
    route (cleanChars p) = shown p := by
  have helements : ∀ s ∈ (shown p).stack.reverse, s ≠ [] ∧ '/' ∉ s := by
    intro s hs
    exact Route.forall_mem_stack (shown_proper p) s (List.mem_reverse.mp hs)
  have hroute : route (joinSlash (shown p).stack.reverse) = shown p := by
    rw [route_joinSlash fun s hs => (helements s hs).2, Route.follow_elements (shown_proper p)]
  rw [cleanChars_eq]
  by_cases hp : rooted p = true
  · rw [if_pos hp]
    refine ⟨hp.symm, ?_⟩
    rw [route, split_slash]
    exact hroute
  · rw [if_neg hp, eq_false_of_ne_true hp]
    by_cases hbody : joinSlash (shown p).stack.reverse = []
    · rw [if_pos hbody, ← hroute, hbody]
      exact ⟨rfl, rfl⟩
    · rw [if_neg hbody]
      exact ⟨rooted_joinSlash helements, hroute⟩

theorem shown_eq_iff (h : rooted p = rooted q) :
    shown p = shown q ↔ (rooted p = false → (route p).climbs = (route q).climbs) ∧
    (route p).names = (route q).names := by
  unfold shown
  rw [← h]
  generalize route p = v
  generalize route q = w
  cases rooted p <;> simp [Route.seen, Route.ext_iff]

/-- Clean forms are the same for paths of the same kind with the same names, that go up equally far
if they begin anywhere but at the root. -/
theorem cleanChars_eq_iff : cleanChars p = cleanChars q ↔
    (rooted p = rooted q ∧ (rooted p = false → (route p).climbs = (route q).climbs)) ∧
    (route p).names = (route q).names := by
  rw [and_assoc]
  constructor
  · intro h
    obtain ⟨hrooted, hroute⟩ := rooted_route_cleanChars p
    obtain ⟨hrooted', hroute'⟩ := rooted_route_cleanChars q
    have hkind : rooted p = rooted q := by rw [← hrooted, h, hrooted']
    have hshown : shown p = shown q := by rw [← hroute, h, hroute']
    exact ⟨hkind, (shown_eq_iff hkind).mp hshown⟩
  · rintro ⟨hkind, h⟩
    rw [cleanChars_eq, cleanChars_eq, hkind, (shown_eq_iff hkind).mpr h]

/-! Places. -/

def climbs (p : String) : Nat := (route p.toList).climbs

/-- Both paths begin at the root, or both go up equally far. -/
def Comparable (p q : String) : Prop :=
  isAbsolute p = isAbsolute q ∧ (isAbsolute p = false → climbs p = climbs q)

instance (p q : String) : Decidable (Comparable p q) := inferInstanceAs (Decidable (_ ∧ (_ → _)))

def locate (cwd p : String) : String := if isAbsolute p then clean p else join [cwd, p]

theorem comparable_refl (p : String) : Comparable p p := ⟨rfl, fun _ => rfl⟩

theorem join_pair {d : String} (hd : d ≠ "") (p : String) :
    join [d, p] = .ofList (cleanChars (d.toList ++ '/' :: p.toList)) := by
  by_cases hp : p = ""
  · subst hp
    have hjoin : join [d, ""] = clean d := by
      rw [clean, join]
      simp [hd, clean]
    have hd' : d.toList ≠ [] := fun h => hd (String.toList_eq_nil_iff.mp h)
    rw [hjoin, clean, String.ofList_inj, cleanChars_eq_iff, rooted_append hd', route_append]
    exact ⟨⟨rfl, fun _ => rfl⟩, rfl⟩
  · rw [join]
    simp [hd, hp, clean]

theorem clean_eq_iff {cwd : String} (hcwd : isAbsolute cwd = true) (p q : String) :
    clean p = clean q ↔ Comparable p q ∧ locate cwd p = locate cwd q := by
  have hne : cwd ≠ "" := by
    rintro rfl
    cases hcwd
  have hne' : cwd.toList ≠ [] := fun h => hne (String.toList_eq_nil_iff.mp h)
  rw [clean, clean, String.ofList_inj, cleanChars_eq_iff]
  refine and_congr_right fun hcomparable => ?_
  obtain ⟨hkind, hclimbs⟩ := hcomparable
  by_cases hp : rooted p.toList = true
  · have hlocate : locate cwd p = clean p := if_pos hp
    have hlocate' : locate cwd q = clean q := if_pos (hkind.symm.trans hp)
    rw [hlocate, hlocate', clean, clean, String.ofList_inj, cleanChars_eq_iff]
    exact (and_iff_right ⟨hkind, hclimbs⟩).symm
  · have hlocate : locate cwd p = join [cwd, p] := if_neg hp
    have hlocate' : locate cwd q = join [cwd, q] := if_neg fun hq => hp (hkind.trans hq)
    have hrooted (p : List Char) : rooted (cwd.toList ++ '/' :: p) = true :=
      (rooted_append hne' _).trans hcwd
    rw [hlocate, hlocate', join_pair hne, join_pair hne, String.ofList_inj, cleanChars_eq_iff,
      hrooted, hrooted,
      names_route_append, names_route_append]
    -- both leave the same directories of `cwd`, so the names they go down to decide
    rw [hclimbs (eq_false_of_ne_true hp), List.append_left_inj]
    exact (and_iff_right ⟨rfl, nofun⟩).symm

end Sysy.Path
