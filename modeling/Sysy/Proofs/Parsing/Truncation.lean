import Sysy.Proofs.Parsing.Recovery

/-!
A limit on the number of errors only cuts off. The parser reports the same errors under each limit,
but no more than the limit allows, and the items that it reads then are the first ones of those that
it reads without a limit.

Lexer and parser report to the same list. `complaints` are the reports of the parser alone: those on
tokens about which the lexer has nothing to say, with which the parser does the same
(`Built.silenced`). A limited run and an unlimited one do the same until the limit is reached
(`Built.truncates`); what they do from there on is seen in neither the first reports nor the items,
since an item with an error is left out.
-/

namespace Sysy.Parser
open Token Grammar

variable {α β : Type} {r : Reader α}

/-! What the parser itself reports. -/

/-- The entries of two lists, those of each in their order. -/
inductive Merged {α : Type} : List α → List α → List α → Prop
  | nil : Merged [] [] []
  | left {a : α} {xs ys zs : List α} (h : Merged xs ys zs) : Merged (a :: xs) ys (a :: zs)
  | right {a : α} {xs ys zs : List α} (h : Merged xs ys zs) : Merged xs (a :: ys) (a :: zs)

namespace Merged
variable {xs ys zs xs' ys' zs' : List α}

theorem left_only (xs : List α) : Merged xs [] xs := by
  induction xs with
  | nil => exact .nil
  | cons a xs ih => exact .left ih

theorem right_only (ys : List α) : Merged [] ys ys := by
  induction ys with
  | nil => exact .nil
  | cons a ys ih => exact .right ih

theorem append (h : Merged xs ys zs) (h' : Merged xs' ys' zs') :
    Merged (xs ++ xs') (ys ++ ys') (zs ++ zs') := by
  induction h with
  | nil => exact h'
  | left _ ih => exact .left ih
  | right _ ih => exact .right ih

end Merged

def silent (ls : List Lexeme) : List Lexeme := ls.map fun l => { l with problems := [] }

theorem tokens_silent (ls : List Lexeme) : (silent ls).map (·.token) = ls.map (·.token) := by
  rw [silent, List.map_map]
  rfl

theorem problems_silent (ls : List Lexeme) : ∀ l ∈ silent ls, l.problems = [] := by
  intro l hl
  obtain ⟨_, -, rfl⟩ := List.mem_map.mp hl
  rfl

/-- What the parser itself reports about a file, in this order. -/
def complaints (file limit : Nat) (content : Bytes) : List Diagnostic :=
  (parse file limit (silent (lexemes file content))).reported

def Cursor.silenced (c : Cursor) (reported : Array Diagnostic) : Cursor :=
  { c with ahead := silent c.ahead, reported }

theorem Cursor.place_silenced (c : Cursor) (ds : Array Diagnostic) :
    (c.silenced ds).place = c.place :=
  congrArg (·, c.last) (tokens_silent c.ahead)

theorem Cursor.token_silenced (c : Cursor) (ds : Array Diagnostic) :
    (c.silenced ds).token = c.token :=
  Cursor.token_congr _ _ (c.place_silenced ds)

def Cursor.Tells (ls : List Lexeme) (c : Cursor) (ds : Array Diagnostic) : Prop :=
  ∃ done, ls = done ++ c.ahead ∧
    Merged ((done ++ if c.looked then c.ahead.take 1 else []).flatMap (·.problems)) ds.toList
      c.reported.toList

variable {ls : List Lexeme} {c : Cursor} {ds : Array Diagnostic}

theorem Cursor.look_silenced (c : Cursor) (ds : Array Diagnostic) :
    (c.silenced ds).look = c.look.silenced ds := by
  have htoken : (c.silenced ds).toTokenStream.token = c.token := c.token_silenced ds
  have hquiet : ((silent c.ahead).take 1).flatMap (·.problems) = [] := by
    rw [List.flatMap_eq_nil_iff]
    exact fun l hl => problems_silent c.ahead l (List.mem_of_mem_take hl)
  unfold Cursor.look TokenStream.look
  rw [htoken]
  by_cases hlooked : c.looked = true
  · have hsame : (c.silenced ds).looked = true := hlooked
    rw [if_pos hlooked, if_pos hsame]
  · have hsame : ¬(c.silenced ds).looked = true := hlooked
    rw [if_neg hlooked, if_neg hsame]
    simp only [Cursor.silenced, hquiet, Array.append_empty]

theorem Cursor.advance_silenced (c : Cursor) (ds : Array Diagnostic) :
    (c.silenced ds).advance = c.advance.silenced ds := by
  have hlook : (c.silenced ds).toTokenStream.look = (c.look.silenced ds).toTokenStream :=
    congrArg Cursor.toTokenStream (c.look_silenced ds)
  have htoken : (c.look.silenced ds).toTokenStream.token = c.toTokenStream.look.token :=
    c.look.token_silenced ds
  have htail : (c.look.silenced ds).ahead.tail = silent c.look.ahead.tail := List.map_tail.symm
  unfold Cursor.advance TokenStream.advance
  rw [c.token_silenced ds]
  simp only [hlook, htoken]
  by_cases heof : c.toTokenStream.look.token.kind = .eof
  · rw [if_pos heof, if_pos heof]
    rfl
  · rw [if_neg heof, if_neg heof]
    rw [htail]
    rfl

theorem Cursor.Tells.look (h : c.Tells ls ds) : c.look.Tells ls ds := by
  obtain ⟨done, hls, hmerged⟩ := h
  refine ⟨done, hls.trans (congrArg _ c.ahead_look.symm), ?_⟩
  unfold Cursor.look TokenStream.look
  by_cases hlooked : c.looked = true
  · rw [if_pos hlooked]
    exact hmerged
  · rw [if_neg hlooked, List.append_nil] at hmerged
    rw [if_neg hlooked]
    simp only [if_true, Array.toList_append, List.flatMap_append]
    rw [← List.append_nil ds.toList]
    exact hmerged.append (.left_only _)

theorem Cursor.Tells.advance (h : c.Tells ls ds) : c.advance.Tells ls ds := by
  obtain ⟨done, hls, hmerged⟩ := h.look
  have hlooked : c.look.looked = true := looked_look _
  rw [hlooked, if_pos rfl] at hmerged
  unfold Cursor.advance TokenStream.advance
  by_cases heof : c.toTokenStream.look.token.kind = .eof
  · simp only [if_pos heof]
    refine ⟨done, hls, ?_⟩
    rw [show c.toTokenStream.look.looked = true from hlooked, if_pos rfl]
    exact hmerged
  · simp only [if_neg heof]
    refine ⟨done ++ c.look.ahead.take 1, ?_, ?_⟩
    · show ls = done ++ c.look.ahead.take 1 ++ c.look.ahead.tail
      rw [hls, List.append_assoc, ← List.drop_one, List.take_append_drop]
    · rw [if_neg Bool.false_ne_true, List.append_nil]
      exact hmerged

theorem Cursor.Tells.complain {p : Problem} {span : Span} (h : c.Tells ls ds) : ∃ ds',
    (c.silenced ds).complain p span = (c.complain p span).silenced ds' ∧
    (c.complain p span).Tells ls ds' := by
  obtain ⟨done, hls, hmerged⟩ := h
  unfold Cursor.complain
  by_cases hfull : (c.limit ≠ 0 && c.limit < c.errors + 1) = true
  · have hsame : ((c.silenced ds).limit ≠ 0 && (c.silenced ds).limit < (c.silenced ds).errors + 1) =
      true := hfull
    refine ⟨ds, ?_, done, ?_⟩
    · simp only [if_pos hfull, if_pos hsame]
      rfl
    · simp only [if_pos hfull]
      exact ⟨hls, hmerged⟩
  · have hsame : ¬((c.silenced ds).limit ≠ 0 && (c.silenced ds).limit < (c.silenced ds).errors +
      1) = true := hfull
    refine ⟨ds.push (p.located span), ?_, done, ?_⟩
    · simp only [if_neg hfull, if_neg hsame]
      rfl
    · simp only [if_neg hfull]
      refine ⟨hls, ?_⟩
      rw [Array.toList_push, Array.toList_push]
      have happend := hmerged.append (.right_only [p.located span])
      rwa [List.append_nil] at happend

theorem Built.silenced (h : Loose r) (hc : c.Tells ls ds) : ∃ ds',
    r.run.run (c.silenced ds) = ((r.run.run c).1, (r.run.run c).2.silenced ds') ∧
    (r.run.run c).2.Tells ls ds' := by
  induction h generalizing c ds with
  | pure a => exact ⟨ds, rfl, hc⟩
  | failure => exact ⟨ds, rfl, hc⟩
  | bind hr hk ihr ihk =>
    obtain ⟨ds₁, hrun, htells⟩ := ihr hc
    rw [run_bind, run_bind, hrun]
    generalize StateT.run (OptionT.run _) c = x at htells ⊢
    match x with
    | (some a, c₁) => exact ihk a htells
    | (none, c₁) => exact ⟨ds₁, rfl, htells⟩
  | look => exact ⟨ds, congrArg (Prod.mk (some ())) (c.look_silenced ds), hc.look⟩
  | advance => exact ⟨ds, congrArg (Prod.mk (some ())) (c.advance_silenced ds), hc.advance⟩
  | complain p _ =>
    obtain ⟨ds', hcomplain, htells⟩ := hc.complain
    exact ⟨ds', congrArg (Prod.mk (some ())) hcomplain, htells⟩
  | @ask _ _ f k hf hk ihk =>
    have hrun : (k (f (c.silenced ds))).run.run (c.silenced ds) = (k (f c)).run.run
      (c.silenced ds) := by
      rw [hf _ _ (c.place_silenced ds)]
    obtain ⟨ds', hrun', htells⟩ := ihk c c.blames_any hc
    exact ⟨ds', hrun.trans hrun', htells⟩
  | @enough _ r r' hr hr' ihr ihr' =>
    have henough : (c.silenced ds).enough = c.enough := rfl
    rw [run_enough, run_enough, henough]
    split
    · exact ihr hc
    · exact ihr' hc
  | attempt hr ihr =>
    obtain ⟨ds', hrun, htells⟩ := ihr hc
    rw [run_attempt, run_attempt, hrun]
    exact ⟨ds', rfl, htells⟩

/-! Two runs, with a limit and without. -/

def Cursor.Silent (c : Cursor) : Prop := ∀ l ∈ c.ahead, l.problems = []

theorem Cursor.Silent.look (h : c.Silent) : c.look.Silent := by
  unfold Cursor.Silent
  rw [show c.look.ahead = c.ahead from c.ahead_look]
  exact h

theorem Cursor.Silent.advance (h : c.Silent) : c.advance.Silent := by
  unfold Cursor.Silent
  rw [c.ahead_advance]
  split
  · exact h
  · exact fun l hl => h l (List.mem_of_mem_tail hl)

theorem Cursor.Silent.complain (h : c.Silent) (p : Problem) (span : Span) :
    (c.complain p span).Silent := by
  unfold Cursor.Silent
  rwa [c.ahead_complain]

theorem Cursor.Silent.reported_look (h : c.Silent) : c.look.reported = c.reported := by
  have hquiet : (c.ahead.take 1).flatMap (·.problems) = [] := by
    rw [List.flatMap_eq_nil_iff]
    exact fun l hl => h l (List.mem_of_mem_take hl)
  unfold Cursor.look TokenStream.look
  split
  · rfl
  · simp only [hquiet, Array.append_empty]

theorem Cursor.Silent.reported_advance (h : c.Silent) : c.advance.reported = c.reported := by
  rw [← h.reported_look]
  unfold Cursor.advance TokenStream.advance
  simp only
  split <;> rfl

structure Cursor.Unlimited (c : Cursor) : Prop where
  silent : c.Silent
  limit : c.limit = 0
  reported : c.reported.size = c.errors

structure Parted (k : Nat) (c c' : Cursor) : Prop where
  silent : c.Silent
  silent' : c'.Silent
  pos : 0 < k
  limit : c'.limit = k
  errors : k ≤ c'.errors
  size : k ≤ c.reported.size
  reported : c'.reported.toList = c.reported.toList.take k

namespace Parted
variable {k : Nat} {c' : Cursor}

theorem left (h : Parted k c c') (hr : Loose r) : Parted k (r.run.run c).2 c' := by
  refine hr.keeps (I := fun c => Parted k c c') (fun c _ => c.blames_any) (fun c h => ?_)
    (fun c h => ?_)
    (fun c p span _ h => ?_) c h
  · have hreported := h.silent.reported_look
    exact { h with silent := h.silent.look, size := hreported ▸ h.size,
                   reported := hreported ▸ h.reported }
  · have hreported := h.silent.reported_advance
    exact { h with silent := h.silent.advance, size := hreported ▸ h.size,
                   reported := hreported ▸ h.reported }
  · refine { h with silent := h.silent.complain p span, size := ?_, reported := ?_ }
    · unfold Cursor.complain
      dsimp only
      split
      · exact h.size
      · rw [Array.size_push]
        exact Nat.le_succ_of_le h.size
    · unfold Cursor.complain
      dsimp only
      split
      · exact h.reported
      · rw [Array.toList_push, List.take_append_of_le_length (by simpa using h.size)]
        exact h.reported

theorem right (h : Parted k c c') (hr : Loose r) : Parted k c (r.run.run c').2 := by
  refine hr.keeps (I := fun c' => Parted k c c') (fun c' _ => c'.blames_any) (fun c' h => ?_)
    (fun c' h => ?_)
    (fun c' p span _ h => ?_) c' h
  · exact { h with silent' := h.silent'.look, reported := h.silent'.reported_look ▸ h.reported }
  · exact { h with silent' := h.silent'.advance,
                   reported := h.silent'.reported_advance ▸ h.reported }
  · have hfull : (c'.limit ≠ 0 && c'.limit < c'.errors + 1) = true := by
      have hpos := h.pos
      have herrors := h.errors
      rw [h.limit]
      simp only [Bool.and_eq_true, decide_eq_true_eq]
      omega
    have hcomplain : c'.complain p span = { c' with errors := c'.errors + 1 } := if_pos hfull
    rw [hcomplain]
    exact { h with errors := Nat.le_succ_of_le h.errors }

end Parted

namespace Cursor.Unlimited
variable {k : Nat}

theorem look (h : c.Unlimited) : c.look.Unlimited :=
  ⟨h.silent.look, h.limit, (congrArg Array.size h.silent.reported_look).trans h.reported⟩

theorem advance (h : c.Unlimited) : c.advance.Unlimited :=
  ⟨h.silent.advance, h.limit, (congrArg Array.size h.silent.reported_advance).trans h.reported⟩

theorem complain_eq (h : c.Unlimited) (p : Problem) (span : Span) :
    c.complain p span = { c with errors := c.errors + 1,
                                 reported := c.reported.push (p.located span) } :=
  if_neg (by simp [h.limit])

theorem complain (h : c.Unlimited) (p : Problem) (span : Span) : (c.complain p span).Unlimited := by
  rw [h.complain_eq]
  exact ⟨h.silent, h.limit, by rw [Array.size_push, h.reported]⟩

theorem complain_under (h : c.Unlimited) (p : Problem) (span : Span) (hk : c.errors < k) :
    (c.under k).complain p span = (c.complain p span).under k := by
  have hroom : ¬(k ≠ 0 && k < c.errors + 1) = true := by
    simp only [Bool.and_eq_true, decide_eq_true_eq]
    omega
  rw [h.complain_eq]
  exact if_neg hroom

/-- The runs part when the limit is reached. -/
theorem parted (h : c.Unlimited) (hpos : 0 < k) (hk : c.errors = k) : Parted k c (c.under k) := by
  refine ⟨h.silent, h.silent, hpos, rfl, hk.ge, (h.reported.trans hk).ge, ?_⟩
  rw [List.take_of_length_le (by simpa using (h.reported.trans hk).le)]
  rfl

end Cursor.Unlimited

/-- Up to the limit a limited run and an unlimited one do the same. -/
theorem Built.truncates (h : Loose r) {k : Nat} (hc : c.Unlimited) (hk : c.errors < k) :
    (r.run.run (c.under k) = ((r.run.run c).1, (r.run.run c).2.under k) ∧
        (r.run.run c).2.Unlimited ∧ (r.run.run c).2.errors < k) ∨
      Parted k (r.run.run c).2 (r.run.run (c.under k)).2 := by
  induction h generalizing c with
  | pure a => exact .inl ⟨rfl, hc, hk⟩
  | failure => exact .inl ⟨rfl, hc, hk⟩
  | bind hr hl ihr ihl =>
    rcases ihr hc hk with ⟨hrun, hopen, hlt⟩ | hparted
    · rw [run_bind, run_bind, hrun]
      generalize StateT.run (OptionT.run _) c = x at hopen hlt ⊢
      match x with
      | (some a, c₁) => exact ihl a hopen hlt
      | (none, c₁) => exact .inl ⟨rfl, hopen, hlt⟩
    · right
      rw [run_bind, run_bind]
      generalize StateT.run (OptionT.run _) c = x at hparted ⊢
      generalize StateT.run (OptionT.run _) (c.under k) = y at hparted ⊢
      match x, y with
      | (some a, c₁), (some b, c₂) => exact (hparted.left (hl a)).right (hl b)
      | (some a, c₁), (none, c₂) => exact hparted.left (hl a)
      | (none, c₁), (some b, c₂) => exact hparted.right (hl b)
      | (none, c₁), (none, c₂) => exact hparted
  | look => exact .inl ⟨rfl, hc.look, hk⟩
  | advance => exact .inl ⟨rfl, hc.advance, hk⟩
  | @complain p span _ =>
    have herrors := Cursor.errors_complain c p span
    have hunder := hc.complain_under p span hk
    by_cases hlt : c.errors + 1 < k
    · exact .inl ⟨congrArg (Prod.mk (some ())) hunder, hc.complain p span, herrors.trans_lt hlt⟩
    · right
      show Parted k (c.complain p span) ((c.under k).complain p span)
      rw [hunder]
      exact (hc.complain p span).parted (Nat.zero_lt_of_lt hk) (by omega)
  | @ask _ _ f l hf hl ihl =>
    -- what is asked for does not depend on the limit
    have hrun : (l (f (c.under k))).run.run (c.under k) = (l (f c)).run.run (c.under k) := by
      rw [hf (c.under k) c rfl]
    have h := ihl c c.blames_any hc hk
    rw [← hrun] at h
    exact h
  | @enough _ r r' hr hr' ihr ihr' =>
    -- below the limit neither of the runs gives up here
    have henough : ¬c.enough = true := by simp [Cursor.enough, hc.limit]
    have henough' : ¬(c.under k).enough = true := by
      unfold Cursor.enough Cursor.under
      simp only [Bool.and_eq_true, decide_eq_true_eq]
      omega
    rw [run_enough, run_enough, if_neg henough, if_neg henough']
    exact ihr' hc hk
  | attempt hr ihr =>
    rw [run_attempt, run_attempt]
    rcases ihr hc hk with ⟨hrun, hrest⟩ | hparted
    · rw [hrun]
      exact .inl ⟨rfl, hrest⟩
    · exact .inr hparted

/-! Items. -/

theorem ends_itemRound_errors (b : Nat) (v : View) :
    Ends (itemRound b) v (fun o v' => o.isSome = true → v'.errors = v.errors) fun _ => True := by
  refine Ends.attempt (sound_item b v) (fun i v₁ ⟨ts, _, h₁⟩ => Ends.pure fun _ => h₁.errors)
    fun v₁ _ => ?_
  refine Ends.bind ((ends_skipUntil _ v₁).mono (fun _ _ h => h) fun _ h => h.elim) fun _ v₂ _ => ?_
  refine Ends.atAny (fun _ => Ends.advance (Ends.pure ?_)) fun _ => Ends.pure ?_
  · exact nofun
  · exact nofun

theorem eq_none_of_errors_lt {b : Nat} {c c₁ : Cursor} {o : Option Item}
    (hrun : (itemRound b).run.run c = (some o, c₁)) (hlt : c.errors < c₁.errors) : o = none := by
  have hends := ends_itemRound_errors b c.view c rfl
  rw [hrun] at hends
  cases o with
  | none => rfl
  | some i => exact absurd (hends rfl) (Nat.ne_of_gt hlt)

theorem exists_run_itemRound (b : Nat) (c : Cursor) :
    ∃ o c₁, (itemRound b).run.run c = (some o, c₁) := by
  have htotal : Ends (itemRound b) c.view (fun _ _ => True) fun _ => False :=
    total_round (item b) _ (total_atAny _) c.view
  replace htotal := htotal c rfl
  generalize (itemRound b).run.run c = x at htotal
  match x with
  | (some o, c₁) => exact ⟨o, c₁, rfl⟩

theorem exists_run_items (b : Nat) (c : Cursor) : ∃ is c', (items b).run.run c = (some is, c') := by
  have htotal := sound_items b c.view c rfl
  generalize (items b).run.run c = x at htotal
  match x with
  | (some is, c') => exact ⟨is, c', rfl⟩

theorem items_of_enough (b : Nat) {c : Cursor} (h : c.enough = true) :
    ((items b).run.run c).1 = some [] := by
  have hlook : c.look.enough = true := h
  cases b with
  | zero => rfl
  | succ b =>
    rw [items_succ, run_at_]
    split
    · rfl
    · rw [run_enough, if_pos hlook]
      rfl

theorem run_cons {b : Nat} {c : Cursor} {i : Item} {is : List Item}
    (h : ((items b).run.run c).1 = some is) :
    ((do return i :: (← items b) : Reader (List Item)).run.run c).1 = some (i :: is) := by
  rw [run_bind]
  generalize (items b).run.run c = x at h ⊢
  match x with
  | (some _, c') =>
    obtain rfl := Option.some.inj h
    rfl

theorem items_truncated (b : Nat) {c : Cursor} {k : Nat} (hc : c.Unlimited) (hk : c.errors < k) :
    ∃ is is',
    ((items b).run.run c).1 = some is ∧ ((items b).run.run (c.under k)).1 = some is' ∧
    is' <+: is := by
  induction b generalizing c with
  | zero => exact ⟨[], [], rfl, rfl, List.prefix_refl []⟩
  | succ b ih =>
    have hlook : (c.under k).look = c.look.under k := rfl
    have htoken : (c.under k).token = c.token := rfl
    rw [items_succ, run_at_, run_at_, htoken, hlook]
    split
    · exact ⟨[], [], rfl, rfl, List.prefix_refl []⟩
    have hopen : c.look.Unlimited :=
      ⟨hc.silent.look, hc.limit, (congrArg Array.size hc.silent.reported_look).trans hc.reported⟩
    have henough : ¬c.look.enough = true := by simp [Cursor.enough, hopen.limit]
    have henough' : ¬(c.look.under k).enough = true := by
      unfold Cursor.enough Cursor.under
      simp only [Bool.and_eq_true, decide_eq_true_eq]
      exact fun h => absurd h.2 (Nat.not_le.mpr hk)
    rw [run_enough, run_enough, if_neg henough, if_neg henough', run_bind, run_bind]
    obtain ⟨o, c₁, hrun⟩ := exists_run_itemRound b c.look
    obtain ⟨o', c₁', hrun'⟩ := exists_run_itemRound b (c.look.under k)
    have htruncates := (loose_itemRound b).truncates hopen (k := k) hk
    rw [hrun, hrun'] at htruncates
    rw [hrun, hrun']
    rcases htruncates with ⟨hsame, hopen₁, hlt⟩ | hparted
    · obtain ⟨rfl, rfl⟩ : o' = o ∧ c₁' = c₁.under k := by
        obtain ⟨ho, hc₁⟩ := Prod.mk.inj hsame
        exact ⟨Option.some.inj ho, hc₁⟩
      obtain ⟨is, is', his, his', hprefix⟩ := ih hopen₁ hlt
      cases o' with
      | none => exact ⟨is, is', his, his', hprefix⟩
      | some i =>
        refine ⟨i :: is, i :: is', ?_, ?_, List.cons_prefix_cons.mpr ⟨rfl, hprefix⟩⟩
        · exact run_cons his
        · exact run_cons his'
    · -- the item of the limited run has an error, and no other one is read
      obtain rfl : o' = none := eq_none_of_errors_lt hrun' (Nat.lt_of_lt_of_le hk hparted.errors)
      have hend : c₁'.enough = true := by
        unfold Cursor.enough
        rw [hparted.limit]
        simp only [Bool.and_eq_true, decide_eq_true_eq]
        exact ⟨Nat.ne_of_gt hparted.pos, hparted.errors⟩
      obtain ⟨is, c₂, hrest⟩ := exists_run_items b c₁
      have his : ((items b).run.run c₁).1 = some is := congrArg Prod.fst hrest
      cases o with
      | none => exact ⟨is, [], his, items_of_enough b hend, List.nil_prefix⟩
      | some i => exact ⟨i :: is, [], run_cons his, items_of_enough b hend, List.nil_prefix⟩

/-! Whole files. -/

section Files
variable {file limit k : Nat} {content : Bytes}

theorem start_silent (file limit : Nat) (ls : List Lexeme) :
    start file limit (silent ls) = (start file limit ls).silenced #[] := rfl

theorem tells_start (file limit : Nat) (ls : List Lexeme) : (start file limit ls).Tells ls #[] :=
  ⟨[], rfl, .nil⟩

theorem program_parse (file limit : Nat) (ls : List Lexeme) : (parse file limit ls).program =
    ((program (depthBound ls.length)).run.run (start file limit ls)).1.getD
      { span := {}, items := [] } := rfl

theorem Cursor.Tells.found (h : c.Tells ls ds) : ∃ found, found <+: ls.flatMap (·.problems) ∧
    Merged found ds.toList c.reported.toList := by
  obtain ⟨done, hls, hmerged⟩ := h
  refine ⟨_, ?_, hmerged⟩
  have hprefix : (if c.looked then c.ahead.take 1 else []) <+: c.ahead := by
    split
    · exact List.take_prefix 1 c.ahead
    · exact List.nil_prefix
  obtain ⟨rest, hrest⟩ := hprefix
  refine ⟨rest.flatMap (·.problems), ?_⟩
  rw [← List.flatMap_append, List.append_assoc, hrest, hls]

/-- The parser reads the same program on silent tokens, and its complaints are among the reports. -/
theorem parse_silent (file limit : Nat) (content : Bytes) :
    (parse file limit (silent (lexemes file content))).program =
      (parse file limit (lexemes file content)).program ∧
      ∃ found, found <+: (lexemes file content).flatMap (·.problems) ∧
        Merged found (complaints file limit content)
          (parse file limit (lexemes file content)).reported := by
  have hlength : (silent (lexemes file content)).length = (lexemes file content).length :=
    List.length_map _
  obtain ⟨ds, hrun, htells⟩ := (Built.program (depthBound (lexemes file content).length)).silenced
    (tells_start file limit (lexemes file content))
  rw [← start_silent] at hrun
  have hcomplaints : complaints file limit content = ds.toList := by
    rw [complaints, reported_parse, stop, hlength, hrun]
    rfl
  refine ⟨?_, ?_⟩
  · rw [program_parse, program_parse, hlength, hrun]
  · rw [hcomplaints]
    exact htells.found

theorem unlimited_start (file : Nat) (ls : List Lexeme) : (start file 0 (silent ls)).Unlimited :=
  ⟨problems_silent ls, rfl, rfl⟩

theorem complaints_truncated (file : Nat) (content : Bytes) (hk : 0 < k) :
    complaints file k content = (complaints file 0 content).take k := by
  have htruncates := (Built.program (depthBound (silent (lexemes file content)).length)).truncates
    (unlimited_start file (lexemes file content)) hk
  show (stop file k _).reported.toList = (stop file 0 _).reported.toList.take k
  rcases htruncates with ⟨hrun, hopen, hlt⟩ | hparted
  · have hstop : stop file k (silent (lexemes file content)) =
      (stop file 0 (silent (lexemes file content))).under k :=
      congrArg Prod.snd hrun
    have hsize : (stop file 0 (silent (lexemes file content))).reported.toList.length ≤ k := by
      rw [Array.length_toList]
      exact hopen.reported.trans_le hlt.le
    rw [hstop, List.take_of_length_le hsize]
    rfl
  · exact hparted.reported

theorem run_program_items (b : Nat) {c : Cursor} {is : List Item}
    (h : ((items b).run.run c.look).1 = some is) :
    ((program b).run.run c).1.map Program.items = some is := by
  unfold program
  rw [run_bind]
  show ((items b >>= _).run.run c.look).1.map Program.items = some is
  rw [run_bind]
  generalize (items b).run.run c.look = x at h ⊢
  match x with
  | (some _, c') =>
    obtain rfl := Option.some.inj h
    rfl

theorem items_of_run {is : List Item}
    (h : ((items (depthBound ls.length)).run.run (start file limit ls).look).1 = some is) :
    (parse file limit ls).program.items = is := by
  have hmap := run_program_items _ h
  rw [program_parse]
  generalize (program _).run.run (start file limit ls) = x at hmap ⊢
  match x with
  | (some p, c') => exact Option.some.inj hmap

/-- A limit on the number of errors only cuts off what the parser does without one: of its reports
the first ones are left, and of the items those in front of the last report. -/
theorem limit_truncates (file : Nat) (content : Bytes) (k : Nat) (hk : 0 < k) :
    complaints file k content = (complaints file 0 content).take k ∧
      (parse file k (lexemes file content)).program.items <+:
        (parse file 0 (lexemes file content)).program.items ∧
      ∀ limit, ∃ found, found <+: (lexemes file content).flatMap (·.problems) ∧
        Merged found (complaints file limit content)
          (parse file limit (lexemes file content)).reported := by
  refine ⟨complaints_truncated file content hk, ?_, fun limit =>
    (parse_silent file limit content).2⟩
  have hopen := unlimited_start file (lexemes file content)
  have hlook : (start file 0 (silent (lexemes file content))).look.Unlimited :=
    ⟨hopen.silent.look, hopen.limit, (congrArg Array.size hopen.silent.reported_look).trans
      hopen.reported⟩
  obtain ⟨is, is', his, his', hprefix⟩ :=
    items_truncated (depthBound (silent (lexemes file content)).length) hlook hk
  rw [← (parse_silent file k content).1, ← (parse_silent file 0 content).1, items_of_run his,
    items_of_run his']
  exact hprefix

def faultySample : Bytes := Bytes.ofString "int a; const int b; int c = 09; void d; int e;"

theorem limit_truncates_faultySample : 0 < 1 ∧
    complaints 0 1 faultySample = (complaints 0 0 faultySample).take 1 ∧
      (complaints 0 0 faultySample).length = 3 ∧
      (parse 0 1 (lexemes 0 faultySample)).program.items.length = 1 ∧
      (parse 0 1 (lexemes 0 faultySample)).program.items <+:
        (parse 0 0 (lexemes 0 faultySample)).program.items := by
  obtain ⟨htake, hprefix, -⟩ := limit_truncates 0 faultySample 1 (by decide)
  exact ⟨by decide, htake, by decide +kernel, by decide +kernel, hprefix⟩

end Files

end Sysy.Parser
