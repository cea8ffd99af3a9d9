import Sysy.Proofs.Parsing.Extents
import Sysy.Proofs.Parsing.Truncation
import Sysy.Tree.Spans

/-!
The spans of whole files. Whatever a file looks like, the items that the parser returns are
consistent and stand in order, and everything that lexer and parser report lies in the file. If the
file was read to its end, the span of the program holds all items.
-/

namespace Sysy.Parser
open Token Token.Piece Grammar

variable {file limit : Nat} {content : Bytes} {c c' : Cursor}

/-! Tokens and problems of a file. -/

structure Inside (file : Nat) (content : Bytes) (s : Span) : Prop where
  ofFile : s.file = file
  ordered : s.start ≤ s.stop
  inside : s.stop ≤ content.length

theorem inside_endOf (file : Nat) (content : Bytes) :
    Inside file content (endOf file content.length).span :=
  ⟨rfl, le_rfl, le_rfl⟩

/-- What the lexer makes of a file: tokens in order, its end, and problems with both. -/
theorem lexemes_shape (file : Nat) (content : Bytes) :
    (lexemes file content).map (·.token) = sentence file content ++ [endOf file content.length] ∧
      (∀ t ∈ sentence file content, t.kind ≠ .eof ∧ Delimited file content t.span) ∧
      ((sentence file content).Pairwise fun t t' => t.span.stop ≤ t'.span.start) ∧
      ∀ l ∈ lexemes file content, ∀ d ∈ l.problems, Inside file content d.primary := by
  obtain ⟨ps, htiles, hscan⟩ := scanAll_tiles file 0 content
  have hlexemes : lexemes file content = lexed file 0 ps := hscan
  have hlen : 0 + (joined ps).length = content.length := by rw [Nat.zero_add, ← htiles.eq_joined]
  have htokens : (lexemes file content).map (·.token) = tokens file 0 ps ++
    [endOf file content.length] := by
    rw [hlexemes, lexed, hlen, List.map_append, List.map_map]
    simp [Function.comp_def]
  have hsentence : sentence file content = tokens file 0 ps := by
    rw [sentence, htokens, List.dropLast_concat]
  rw [hsentence]
  refine ⟨htokens, fun t ht => ?_, pairwise_tokens file 0 ps, fun l hl d hd => ?_⟩
  · obtain ⟨heof, hfile, hspan, hstop, -⟩ := htiles.token ht
    rw [← hsentence] at ht
    exact ⟨heof, hfile, ⟨t, ht, rfl⟩, ⟨t, ht, rfl⟩, hspan, hstop⟩
  · rw [hlexemes, lexed, hlen] at hl
    rcases List.mem_append.mp hl with hl | hl
    · obtain ⟨t, ht, rfl⟩ := List.mem_map.mp hl
      obtain ⟨-, hfile, hspan, hstop, -⟩ := htiles.token ht
      simp only [owed] at hd
      split at hd
      · obtain rfl := List.mem_singleton.mp hd
        exact ⟨hfile, hspan.le, hstop⟩
      · cases hd
    · obtain rfl := List.mem_singleton.mp hl
      obtain ⟨start, hstart, rfl⟩ := List.mem_map.mp hd
      have hplace : opened 0 ps = some start := by simpa using hstart
      obtain ⟨body, hbody⟩ := (opened_eq_some_iff htiles).mp hplace
      obtain ⟨before, after, hcontent, hbefore, -⟩ := htiles.stands hbody
      have hbefore : start = 0 + before.length := hbefore
      have hle : start ≤ content.length := by
        rw [hcontent]
        simp only [List.length_append]
        omega
      exact ⟨rfl, hle, le_rfl⟩

theorem inside_lexeme {l : Lexeme} (hl : l ∈ lexemes file content) :
    Inside file content l.token.span := by
  obtain ⟨htokens, hinner, -⟩ := lexemes_shape file content
  have ht : l.token ∈ sentence file content ++ [endOf file content.length] :=
    htokens ▸ List.mem_map_of_mem hl
  rcases List.mem_append.mp ht with ht | ht
  · have hdelim := (hinner _ ht).2
    exact ⟨hdelim.ofFile, hdelim.nonempty.le, hdelim.inside⟩
  · rw [List.mem_singleton.mp ht]
    exact inside_endOf file content

theorem inOrder_lexemes (file : Nat) (content : Bytes) :
    InOrder (fun t => t.kind ≠ .eof → Delimited file content t.span) (·.span) 0
      ((lexemes file content).map (·.token)) content.length := by
  obtain ⟨htokens, hinner, hpairwise, -⟩ := lexemes_shape file content
  rw [htokens]
  have hend : InOrder (fun t => t.kind ≠ .eof → Delimited file content t.span)
    (·.span) content.length
      [endOf file content.length] content.length :=
    .cons (fun hne => absurd rfl hne) le_rfl le_rfl (.nil le_rfl)
  refine .append (.of_pairwise (Nat.zero_le _) (fun t ht => ?_) hpairwise) hend
  have hdelim := (hinner t ht).2
  exact ⟨fun _ => hdelim, Nat.zero_le _, hdelim.nonempty.le, hdelim.inside⟩

/-! Where the parser stands, and what it has reported. -/

structure Placed (file : Nat) (content : Bytes) (c : Cursor) : Prop where
  ahead : c.ahead <:+ lexemes file content
  some : c.ahead ≠ []
  last : Inside file content c.last
  reported : ∀ d ∈ c.reported.toList, Inside file content d.primary

namespace Placed

theorem start (file limit : Nat) (content : Bytes) :
    Placed file content (start file limit (lexemes file content)) where
  ahead := List.suffix_refl _
  some hnil := by
    have hlength := length_lexemes file content
    rw [show lexemes file content = [] from hnil] at hlength
    cases hlength
  last := ⟨rfl, le_rfl, Nat.zero_le _⟩
  reported := List.forall_mem_nil _

theorem exists_head (h : Placed file content c) : ∃ l rest, c.ahead = l :: rest ∧
    l ∈ lexemes file content ∧ c.token = l.token := by
  obtain ⟨l, rest, hahead⟩ := List.exists_cons_of_ne_nil h.some
  refine ⟨l, rest, hahead, h.ahead.subset (hahead ▸ List.mem_cons_self ..), ?_⟩
  rw [TokenStream.token, hahead]

theorem token (h : Placed file content c) : Inside file content c.token.span := by
  obtain ⟨l, -, -, hl, htoken⟩ := h.exists_head
  exact htoken ▸ inside_lexeme hl

theorem blames (h : Placed file content c) : c.Blames (Inside file content) := by
  refine ⟨h.token, ?_⟩
  unfold Cursor.blame
  split
  · exact ⟨h.last.ofFile, le_rfl, h.last.inside⟩
  · exact h.token

theorem look (h : Placed file content c) : Placed file content c.look where
  ahead := (Cursor.ahead_look c).symm ▸ h.ahead
  some := (Cursor.ahead_look c).symm ▸ h.some
  last := h.last
  reported d hd := by
    obtain ⟨l, rest, hahead, hl, -⟩ := h.exists_head
    obtain ⟨-, -, -, hproblems⟩ := lexemes_shape file content
    simp only [Cursor.look, TokenStream.look] at hd
    split at hd
    · exact h.reported d hd
    · simp only [hahead, Array.toList_append, List.mem_append] at hd
      refine hd.elim (h.reported d) fun hd => hproblems l hl d ?_
      simpa using hd

theorem eof_of_tail (h : Placed file content c) (htail : c.ahead.tail = []) :
    c.token.kind = .eof := by
  obtain ⟨l, rest, hahead, -, htoken⟩ := h.exists_head
  obtain rfl : rest = [] := by rwa [hahead] at htail
  obtain ⟨last, hlast, htokens, -⟩ := tokens_lexemes file content
  obtain ⟨front, hfront⟩ := h.ahead
  rw [← hfront, hahead, List.map_append] at htokens
  have heq : l.token = last := List.singleton_inj.mp (List.append_inj_right' htokens rfl)
  rw [htoken, heq, hlast]

theorem advance (h : Placed file content c) : Placed file content c.advance := by
  have hlook := h.look
  have hreported : c.advance.reported = c.look.reported := by
    simp only [Cursor.advance, TokenStream.advance]
    split <;> rfl
  refine ⟨?_, ?_, ?_, hreported ▸ hlook.reported⟩
  · rw [Cursor.ahead_advance]
    split
    · exact h.ahead
    · exact (List.tail_suffix _).trans h.ahead
  · rw [Cursor.ahead_advance]
    split
    · exact h.some
    · rename_i heof
      exact fun htail => heof (h.eof_of_tail htail)
  · simp only [Cursor.advance]
    split
    · exact h.last
    · exact h.token

theorem complain (h : Placed file content c) (p : Problem) {span : Span}
    (hspan : Inside file content span) :
    Placed file content (c.complain p span) := by
  refine ⟨(Cursor.ahead_complain c p span).symm ▸ h.ahead, (Cursor.ahead_complain c p span).symm ▸
    h.some, ?_, ?_⟩
  · simp only [Cursor.complain]
    split <;> exact h.last
  · simp only [Cursor.complain]
    split
    · exact h.reported
    · intro d hd
      rcases Array.mem_push.mp (Array.mem_toList_iff.mp hd) with hd | rfl
      · exact h.reported d (Array.mem_toList_iff.mpr hd)
      · exact hspan

theorem token_eq (h : Placed file content c) (heof : c.token.kind = .eof) :
    c.token = endOf file content.length := by
  obtain ⟨l, -, -, hl, htoken⟩ := h.exists_head
  obtain ⟨htokens, hinner, -⟩ := lexemes_shape file content
  have ht : l.token ∈ sentence file content ++ [endOf file content.length] :=
    htokens ▸ List.mem_map_of_mem hl
  rw [htoken] at heof ⊢
  rcases List.mem_append.mp ht with ht | ht
  · exact absurd heof (hinner _ ht).1
  · exact List.mem_singleton.mp ht

end Placed

theorem placed_stop (file limit : Nat) (content : Bytes) :
    Placed file content (stop file limit (lexemes file content)) :=
  (Built.program _).keeps (fun _ h => h.blames) (fun _ h => h.look) (fun _ h => h.advance)
    (fun _ p _ hspan h => h.complain p hspan) _ (.start file limit content)

/-! Items. -/

theorem reads_itemRound (b : Nat) (v : View) :
    Ends (itemRound b) v (fun outcome v' => ∀ i ∈ outcome, ∃ ts, IsItem ts i ∧ v.Took ts v')
      fun _ => False := by
  refine Ends.attempt (sound_item b v) (fun i v' hread => ?_) fun v' _ => ?_
  · refine Ends.pure fun j hj => ?_
    obtain rfl := Option.some.inj hj
    exact hread
  · refine Ends.bind (ends_skipUntil _ v') fun _ v₁ _ => Ends.atAny (fun _ => ?_) fun _ =>
      Ends.pure nofun
    exact Ends.advance (Ends.pure nofun)

theorem parts_of_rounds {rs : List (List Lexeme × Option Item)}
    (h : Rounds ItemsEnd itemRound c rs c') {lo hi : Nat}
    (htokens : InOrder (fun t => t.kind ≠ .eof → Delimited file content t.span) (·.span) lo
      (c.ahead.map (·.token)) hi) :
    Parts file content lo ((rs.filterMap (·.2)).map Item.extent) hi := by
  induction h generalizing lo with
  | stop _ => exact .nil htokens.le
  | @next c c₁ c' taken outcome rs _ hround htaken _ _ ih =>
    have hread := reads_itemRound (10 * c.ahead.length + 6) c.view c.look (Cursor.view_look c)
    rw [hround _ le_rfl] at hread
    cases outcome with
    | none =>
      rw [htaken, List.map_append] at htokens
      obtain ⟨mid, hfront, hrest⟩ := htokens.split
      exact (ih hrest).mono hfront.le le_rfl
    | some i =>
      obtain ⟨ts, hitem, htook⟩ := hread i rfl
      have hcut : c.ahead.map (·.token) = ts ++ c₁.ahead.map (·.token) := htook.tokens
      rw [hcut] at htokens
      obtain ⟨mid, hts, hrest⟩ := htokens.split
      exact (hitem.parts (hts.imp fun t ht hdelim => hdelim (htook.inner t ht))).append (ih hrest)

/-! The span of the program. -/

theorem foldl_cover {lo hi : Nat} {ss : List Span} {s : Span} (hs : lo ≤ s.start ∧ s.stop ≤ hi)
    (hss : ∀ s ∈ ss, lo ≤ s.start ∧ s.stop ≤ hi) :
    lo ≤ (ss.foldl Span.cover s).start ∧ (ss.foldl Span.cover s).stop ≤ hi := by
  induction ss generalizing s with
  | nil => exact hs
  | cons s' ss ih =>
    obtain ⟨hs', hss⟩ := List.forall_mem_cons.mp hss
    refine ih ?_ hss
    unfold Span.cover
    split
    · exact ⟨le_min hs.1 hs'.1, max_le hs.2 hs'.2⟩
    · exact hs

theorem spanFault?_eq_none {p : Program} {f : SourceFile} (hfile : p.span.file = f.id)
    (hspan : p.span.start < p.span.stop) (hstop : p.span.stop ≤ f.content.length)
    (hitems : ∀ i ∈ p.items, i.span.file = f.id ∧ i.span.start < i.span.stop ∧
      p.span.start ≤ i.span.start ∧ i.span.stop ≤ p.span.stop) :
    p.spanFault? f = none := by
  have hspans : ∀ s ∈ p.items.map Item.span, s.file = f.id ∧ s.start < s.stop ∧
    p.span.start ≤ s.start ∧ s.stop ≤ p.span.stop :=
    List.forall_mem_map.mpr hitems
  have hnone : (p.items.map Item.span).findSome? (Program.spanFault?.itemFault? p f) = none := by
    refine List.findSome?_eq_none_iff.mpr fun s hs => ?_
    obtain ⟨hfile, hlt, hin⟩ := hspans s hs
    rw [Program.spanFault?.itemFault?, if_neg (by omega), if_neg (not_not.mpr hfile),
      if_neg (by omega)]
  rw [Program.spanFault?, if_neg (by omega), if_neg (not_not.mpr hfile), if_neg (by omega)]
  dsimp only
  rw [hnone]
  generalize p.items.map Item.span = spans at hspans
  cases spans with
  | nil => rfl
  | cons s ss =>
    obtain ⟨hs, hss⟩ := List.forall_mem_cons.mp hspans
    have hunion := foldl_cover hs.2.2 fun s hs => (hss s hs).2.2
    exact if_neg (by omega)

/-- The items of a file stand in order where its tokens do. -/
theorem parts_parse (limit : Nat) {lo hi : Nat}
    (h : InOrder (fun t => t.kind ≠ .eof → Delimited file content t.span) (·.span) lo
      ((lexemes file content).map (·.token)) hi) :
    Parts file content lo ((parse file limit (lexemes file content)).program.items.map Item.extent)
      hi := by
  obtain ⟨rs, c', hrounds, hrun⟩ := exists_fileRounds file limit content
  have hparse : (parse file limit (lexemes file content)).program = _ :=
    congrArg (fun x => x.1.getD { span := {}, items := [] }) (hrun _ le_rfl)
  have hahead : (start file limit (lexemes file content)).look.ahead = lexemes file content :=
    Cursor.ahead_look _
  rw [hparse]
  exact parts_of_rounds hrounds (hahead.symm ▸ h)

theorem span_parse {t : Token} {ts : List Token} (hsome : sentence file content = t :: ts)
    (heof : (stop file limit (lexemes file content)).token.kind = .eof) :
    (parse file limit (lexemes file content)).program.span = ⟨file, t.span.start,
      content.length⟩ := by
  obtain ⟨htokens, hinner, -⟩ := lexemes_shape file content
  obtain ⟨rs, c', -, hrun⟩ := exists_fileRounds file limit content
  have hparse : (parse file limit (lexemes file content)).program = _ :=
    congrArg (fun x => x.1.getD { span := {}, items := [] }) (hrun _ le_rfl)
  have hstop : (stop file limit (lexemes file content)).token = c'.token := by
    rw [show stop file limit (lexemes file content) = c'.look from congrArg Prod.snd
      (hrun _ le_rfl)]
    exact Cursor.token_look c'
  have hlast := (placed_stop file limit content).token_eq heof
  rw [hstop] at heof hlast
  have hfirst : (start file limit (lexemes file content)).token = t := by
    rw [hsome] at htokens
    obtain ⟨l, ls, hls, hl, -⟩ := List.map_eq_cons_iff.mp htokens
    rw [← hl, TokenStream.token, show (start file limit (lexemes file content)).ahead =
      l :: ls from hls]
  have hdelim := (hinner t (hsome ▸ List.mem_cons_self ..)).2
  have hcover : t.span.cover ⟨file, content.length, content.length⟩ = ⟨file, t.span.start,
    content.length⟩ := by
    rw [Span.cover, if_pos hdelim.ofFile]
    dsimp only
    rw [Nat.min_eq_left (hdelim.nonempty.le.trans hdelim.inside), Nat.max_eq_right hdelim.inside,
      hdelim.ofFile]
  rw [hparse, ← hcover]
  show (if _ then _ else _ : Span) = _
  rw [if_pos heof, hfirst, hlast]
  rfl

/-- Each part of each item starts and ends where a token does and holds its own parts, which stand
in order. What lexer and parser report lies in the file. -/
theorem spans_consistent (file limit : Nat) (content : Bytes) :
    (∀ i ∈ (parse file limit (lexemes file content)).program.items,
      i.extent.Consistent (Delimited file content)) ∧
    (parse file limit (lexemes file content)).program.items.Pairwise
      (fun i j => i.span.stop ≤ j.span.start) ∧
    (sentence file content ≠ [] → (stop file limit (lexemes file content)).token.kind = .eof →
      ∀ f : SourceFile, f.id = file → f.content = content →
        (parse file limit (lexemes file content)).program.spanFault? f = none) ∧
    (∀ d ∈ (parse file limit (lexemes file content)).reported, Inside file content d.primary) ∧
    ∀ l ∈ lexemes file content, ∀ d ∈ l.problems, Inside file content d.primary := by
  obtain ⟨htokens, hinner, -, hproblems⟩ := lexemes_shape file content
  have horder := parts_parse limit (inOrder_lexemes file content)
  refine ⟨fun i hi => (horder.within _ (List.mem_map_of_mem hi)).1, ?_,
    fun hsome heof f hid hcontent => ?_,
    (placed_stop file limit content).reported, hproblems⟩
  · have hpairwise := List.pairwise_map.mp horder.pairwise
    simpa only [Item.span_extent] using hpairwise
  · obtain ⟨t, ts, hts⟩ := List.exists_cons_of_ne_nil hsome
    have hspan := span_parse hts heof
    have hdelim := (hinner t (hts ▸ List.mem_cons_self ..)).2
    -- the items stand behind the start of the first token
    have hbehind : InOrder (fun t => t.kind ≠ .eof → Delimited file content t.span)
      (·.span) t.span.start
        ((lexemes file content).map (·.token)) content.length := by
      have hall := inOrder_lexemes file content
      rw [htokens, hts] at hall ⊢
      cases hall with
      | cons ht _ hle hrest => exact .cons ht le_rfl hle hrest
    have hitems := parts_parse limit hbehind
    refine spanFault?_eq_none (by rw [hspan, hid]) ?_ ?_ fun i hi => ?_
    · rw [hspan]
      exact hdelim.nonempty.trans_le hdelim.inside
    · rw [hspan, hcontent]
    · obtain ⟨hconsistent, hin⟩ := hitems.within _ (List.mem_map_of_mem hi)
      rw [hspan, hid]
      rw [Item.span_extent] at hin
      have hown : Delimited file content i.span := i.span_extent ▸ hconsistent.holds
      exact ⟨hown.ofFile, hown.nonempty, hin⟩

theorem spans_consistent_faultySample : sentence 0 faultySample ≠ [] ∧
    (stop 0 0 (lexemes 0 faultySample)).token.kind = .eof ∧
    (parse 0 0 (lexemes 0 faultySample)).program.spanFault? (.ofText 0 "sample" faultySample) =
      none ∧
    (parse 0 0 (lexemes 0 faultySample)).program.items.map Item.span =
      [⟨0, 0, 6⟩, ⟨0, 40, 46⟩] := by
  have hsome : sentence 0 faultySample ≠ [] := by decide +kernel
  have heof : (stop 0 0 (lexemes 0 faultySample)).token.kind = .eof := by decide +kernel
  obtain ⟨-, -, hfault, -⟩ := spans_consistent 0 0 faultySample
  exact ⟨hsome, heof, hfault hsome heof _ rfl rfl, by decide +kernel⟩

end Sysy.Parser
