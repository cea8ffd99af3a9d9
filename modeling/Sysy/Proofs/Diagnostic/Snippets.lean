import Sysy.Diagnostic.Report
import Sysy.Proofs.Source.Positions
import Sysy.Proofs.Token.Phrases

/-!
Marks under the source. The line of a span is found by its place, and printed from the lines of the
content. The mark below it is indented by a gutter as wide as that of the line and by the column of
the span, so it stands under the bytes of the span.
-/

namespace Sysy
open Text

/-! The widths of texts. -/

theorem length_ofString_copies {s : String} {k : Nat} (hs : (Bytes.ofString s).length = k)
    (n : Nat) :
    (Bytes.ofString (copies n s)).length = n * k := by
  induction n with
  | zero => simp [copies, Bytes.ofString]
  | succ n ih =>
    have hcopies : copies (n + 1) s = s ++ copies n s :=
      by simp [copies, List.replicate_succ, String.join_cons]
    rw [hcopies, Bytes.ofString_append, List.length_append, hs, ih, Nat.succ_mul, Nat.add_comm]

theorem mem_ofString_copies {s : String} {x : UInt8} (n : Nat)
    (h : x ∈ Bytes.ofString (copies n s)) : x ∈ Bytes.ofString s := by
  induction n with
  | zero => simp [copies, Bytes.ofString] at h
  | succ n ih =>
    have hcopies : copies (n + 1) s = s ++ copies n s := by
      simp [copies, List.replicate_succ, String.join_cons]
    rw [hcopies, Bytes.ofString_append, List.mem_append] at h
    exact h.elim id ih

theorem ofString_toString (n : Nat) :
    (Bytes.ofString (toString n)).length = (toString n).length := by
  have hdigits (c : Char) (hc : c ∈ Nat.toDigits 10 n) : c.isDigit = true :=
    Nat.isDigit_of_mem_toDigits (by decide) (by decide) hc
  rw [Nat.toString_eq_ofList_toDigits, Bytes.ofString_ascii fun c hc =>
    (Token.digit_toUInt8 (hdigits c hc)).2.2.1, List.length_map,
    String.length_ofList]

theorem length_toString_mono {m n : Nat} (h : m ≤ n) :
    (toString m).length ≤ (toString n).length := by
  rw [Nat.toString_eq_ofList_toDigits, Nat.toString_eq_ofList_toDigits, String.length_ofList,
    String.length_ofList]
  induction n using Nat.strongRecOn generalizing m with
  | ind n ih =>
    rw [Nat.toDigits_eq_if (by decide), Nat.toDigits_eq_if (n := n) (by decide)]
    split <;> split
    · rfl
    · rw [List.length_append, List.length_singleton]
      exact Nat.le_add_left _ _
    · omega
    · rw [List.length_append, List.length_append]
      exact Nat.add_le_add_right (ih (n / 10) (by omega) (Nat.div_le_div_right h)) _

theorem length_padLeft {s : String} {width : Nat} (hs : (Bytes.ofString s).length = s.length)
    (hle : s.length ≤ width) :
    (Bytes.ofString (padLeft width s)).length = width := by
  rw [padLeft, Bytes.ofString_append, List.length_append,
    length_ofString_copies (show (Bytes.ofString " ").length = 1 from rfl), hs]
  omega

theorem Bytes.trimRight_append {p : UInt8 → Bool} {x y : Bytes}
    (hx : ∀ b ∈ x.getLast?, p b = false) :
    Bytes.trimRight p (x ++ y) = x ++ Bytes.trimRight p y := by
  rw [trimRight, trimRight, List.reverse_append, List.dropWhile_append]
  split
  · rename_i hnil
    rw [List.isEmpty_iff] at hnil
    rw [hnil, List.reverse_nil, List.append_nil, ← List.reverse_inj, List.reverse_reverse]
    cases hrev : x.reverse with
    | nil => rfl
    | cons b r =>
      refine List.dropWhile_cons_of_neg ?_
      rw [hx b (by rw [← List.head?_reverse, hrev]; rfl)]
      simp
  · rw [List.reverse_append, List.reverse_reverse]

namespace ReportStyle
variable {st : ReportStyle} {sev : Severity} {files : FileSet} {f : SourceFile} {span : Span}
  {content : Bytes}

def plainLine (width : Nat) (q : Bytes × Nat) : Bytes :=
  Bytes.ofString (padLeft width (toString q.2) ++ " | ") ++ Bytes.trimRight (· = 13) q.1 ++ [10]

def indent (width col : Nat) : String := padLeft width "" ++ " | " ++ copies (col - 1) " "

def markOf (length : Nat) : String := "^" ++ copies (length - 1) "~"

def markLine (st : ReportStyle) (sev : Severity) (width col length : Nat) : Bytes :=
  Bytes.ofString (indent width col ++ sev.paint.apply st.colour (markOf length) ++ "\n")

theorem length_markOf {length : Nat} (h : 0 < length) :
    (Bytes.ofString (markOf length)).length = length := by
  rw [markOf, Bytes.ofString_append, List.length_append,
    length_ofString_copies (show (Bytes.ofString "~").length = 1 from rfl)]
  change 1 + (length - 1) * 1 = length
  omega

theorem length_indent (width col : Nat) :
    (Bytes.ofString (indent width col)).length = width + 3 + (col - 1) := by
  rw [indent, Bytes.ofString_append, Bytes.ofString_append, List.length_append, List.length_append,
    length_padLeft (s := "") rfl (Nat.zero_le width),
      length_ofString_copies (show (Bytes.ofString " ").length = 1 from rfl)]
  change width + 3 + (col - 1) * 1 = _
  omega

theorem sourceLine_of_ne {width number : Nat} {start stop : LineCol} {line : Bytes}
    (h : number ≠ start.line) :
    st.sourceLine sev width start stop number line = plainLine width (line, number) := by
  rw [sourceLine, if_neg h, List.append_nil]
  rfl

/-- A mark is as long as a span that ends on its line, and one byte needs no end. -/
theorem mark_eq {length : Nat} {start stop : LineCol} (hlength : 0 < length)
    (h : stop.line = start.line ∧ stop.col = start.col + length ∨ stop.col = 0 ∧ length = 1) :
    mark start stop = markOf length := by
  rcases h with ⟨hline, hcol⟩ | ⟨hcol, hone⟩
  · rw [mark, if_pos ⟨hline, by omega⟩, hcol, Nat.add_sub_cancel_left]
    rfl
  · rw [mark, if_neg (by omega), hone]
    rfl

theorem sourceLine_eq {width length : Nat} {start stop : LineCol} {line : Bytes}
    (hmark : mark start stop = markOf length) :
    st.sourceLine sev width start stop start.line line =
      plainLine width (line, start.line) ++ st.markLine sev width start.col length := by
  rw [sourceLine, if_pos rfl, hmark]
  rfl

theorem flatMap_plain {width : Nat} {chosen : Bytes × Nat → Bool} {start stop : LineCol}
    {qs : List (Bytes × Nat)} (h : ∀ q ∈ qs, q.2 ≠ start.line) :
    (qs.flatMap fun q => if chosen q then st.sourceLine sev width start stop q.2 q.1 else []) =
      (qs.filter chosen).flatMap (plainLine width) := by
  induction qs with
  | nil => rw [List.flatMap_nil, List.filter_nil, List.flatMap_nil]
  | cons q qs ih =>
    obtain ⟨hq, hqs⟩ := List.forall_mem_cons.mp h
    rw [List.flatMap_cons, ih hqs, List.filter_cons]
    split
    · rw [sourceLine_of_ne hq, List.flatMap_cons]
    · rfl

/-- The bytes of a span without line ends are where the printed line shows them. -/
theorem plainLine_at {width number col length : Nat} {l m : Bytes}
    (hwidth : (toString number).length ≤ width) (hcol : col = l.length + 1) (hlength : 0 < length)
    (hm : length ≤ m.length) (hends : ∀ x ∈ m.take length, x ≠ 13) :
    ((plainLine width (l ++ m, number)).drop (Bytes.ofString (indent width col)).length).take
      length = m.take length := by
  have hgutter : (Bytes.ofString (padLeft width (toString number) ++ " | ")).length =
    width + 3 := by
    rw [Bytes.ofString_append, List.length_append, length_padLeft (ofString_toString number) hwidth]
    rfl
  have hlast : ∀ b ∈ (l ++ m.take length).getLast?, (fun b : UInt8 => decide (b = 13))
    b = false := by
    intro b hb
    have hne : m.take length ≠ [] := List.ne_nil_of_length_pos (by rw [List.length_take]; omega)
    rw [List.getLast?_append_of_ne_nil _ hne] at hb
    simpa using hends b (List.mem_of_getLast? hb)
  have hkept : Bytes.trimRight (· = 13) (l ++ m) = l ++ (m.take length ++ Bytes.trimRight (· = 13)
    (m.drop length)) := by
    have hsplit : l ++ m = l ++ m.take length ++ m.drop length :=
      by rw [List.append_assoc, List.take_append_drop]
    rw [hsplit, Bytes.trimRight_append hlast, List.append_assoc]
  have hplain : plainLine width (l ++ m, number) = Bytes.ofString
    (padLeft width (toString number) ++ " | ") ++ l ++
      (m.take length ++ (Bytes.trimRight (· = 13) (m.drop length) ++ [10])) := by
    rw [plainLine, hkept]
    simp only [List.append_assoc]
  have hindent : (Bytes.ofString (indent width col)).length =
      (Bytes.ofString (padLeft width (toString number) ++ " | ") ++ l).length := by
    rw [length_indent, List.length_append, hgutter, hcol, Nat.add_sub_cancel]
  have htake : (m.take length).length = length := by rw [List.length_take, Nat.min_eq_left hm]
  rw [hplain, hindent, List.drop_left, List.take_left' htake]

theorem take_takeWhile {b : Bytes} {length : Nat} (h : ∀ x ∈ b.take length, x ≠ 10) :
    (b.takeWhile (· ≠ 10)).take length = b.take length := by
  by_cases hlength : length ≤ b.length
  · have hsplit : b.takeWhile (· ≠ 10) = b.take length ++ (b.drop length).takeWhile (· ≠ 10) := by
      conv_lhs => rw [← List.take_append_drop length b]
      exact List.takeWhile_append_of_pos fun x hx => by simpa using h x hx
    rw [hsplit, List.take_left' (by rw [List.length_take, Nat.min_eq_left hlength])]
  · have hall : b.take length = b := List.take_of_length_le (by omega)
    rw [hall] at h
    rw [List.takeWhile_eq_self_iff.mpr fun x hx => by simpa using h x hx]

theorem stop_of_exact {start stop : LineCol} (hstart : start.Exact content span.start)
    (hstop : stop.Exact content span.stop) (hlt : span.start < span.stop)
    (hends : ∀ x ∈ (content.drop span.start).take (span.stop - span.start), x ≠ 10) :
    stop.line = start.line ∧ stop.col = start.col + (span.stop - span.start) := by
  have htake : content.take span.stop = content.take span.start ++ (content.drop span.start).take
    (span.stop - span.start) := by
    rw [← List.take_add, Nat.add_sub_cancel' hlt.le]
  have hcount : ((content.drop span.start).take (span.stop - span.start)).count 10 = 0 :=
    List.count_eq_zero.mpr fun hmem => hends 10 hmem rfl
  have hline : stop.line = start.line := by
    rw [hstop.line, hstart.line, htake, List.count_append, hcount, Nat.add_zero]
  have hoffset := hstart.offset
  have hoffset' := hstop.offset
  have hcol := hstart.col
  have hcol' := hstop.col
  rw [hline] at hoffset'
  exact ⟨hline, by omega⟩

theorem stop_of_span (hsize : f.content.length < 0x100000000) (hstop : span.stop ≤ f.content.length)
    {start : LineCol} (hstart : start.Exact f.content span.start) (hlt : span.start < span.stop)
    (hends : ∀ x ∈ (f.content.drop span.start).take (span.stop - span.start), x ≠ 10)
    (hlast : span.stop < 0xFFFFFFFF ∨ 10 ∈ f.content ∨ span.stop - span.start = 1) :
    ∃ stop, LineCol.ofOffset f.newlines span.stop = some stop ∧
      (stop.line = start.line ∧ stop.col = start.col + (span.stop - span.start) ∨
        stop.col = 0 ∧ span.stop - span.start = 1) := by
  by_cases hfits : LineCol.Fits f.content span.stop
  · obtain ⟨stop, hplace, hexact⟩ := LineCol.exact_ofOffset hsize hstop hfits
    exact ⟨stop, hplace, .inl (stop_of_exact hstart hexact hlt hends)⟩
  · rw [LineCol.Fits, not_or] at hfits
    obtain ⟨hend, hmixed⟩ := hfits
    have hnone : 10 ∉ f.content := by
      intro hmem
      -- the span shows a byte that is no newline
      have hlen : 0 < ((f.content.drop span.start).take (span.stop - span.start)).length := by
        rw [List.length_take, List.length_drop]
        omega
      obtain ⟨x, hx⟩ := List.exists_mem_of_length_pos hlen
      exact hmixed ⟨hmem, x, List.mem_of_mem_drop (List.mem_of_mem_take hx), hends x hx⟩
    refine ⟨_, LineCol.ofOffset_of_notMem hstop hnone, .inr ⟨?_, ?_⟩⟩
    · have heq : span.stop = 0xFFFFFFFF := by omega
      rw [heq]
    · rcases hlast with h | h | h
      · exact absurd h hend
      · exact absurd h hnone
      · exact h

theorem window_eq (sev : Severity) (start stop : LineCol) {ls ms : List Bytes} {line : Bytes}
    (hlines : Bytes.lines content = ls ++ line :: ms) (hnumber : start.line = ls.length + 1)
    (hcontext : 0 ≤ st.context) : ∃ (width : Nat) (above below : List (Bytes × Nat)),
      st.window sev content start stop = above.flatMap (plainLine width) ++
        st.sourceLine sev width start stop start.line line ++ below.flatMap (plainLine width) ∧
      (∀ q ∈ above, q.2 < start.line) ∧ (∀ q ∈ below, start.line < q.2) ∧
      (toString start.line).length ≤ width := by
  obtain ⟨first, hfirst⟩ : ∃ n : Int, n = max ((start.line : Int) - st.context) 1 := ⟨_, rfl⟩
  obtain ⟨last, hlast⟩ : ∃ n : Int, n = min ((start.line : Int) + st.context)
    (Bytes.lines content).length := ⟨_, rfl⟩
  let chosen (q : Bytes × Nat) : Bool := first ≤ q.2 ∧ (q.2 : Int) ≤ last
  have hlength : (Bytes.lines content).length = ls.length + (ms.length + 1) :=
    by rw [hlines, List.length_append, List.length_cons]
  have hhere : chosen (line, start.line) = true := by
    simp only [chosen, decide_eq_true_eq]
    omega
  have habove (q : Bytes × Nat) (hq : q ∈ ls.zipIdx 1) : q.2 < start.line := by
    have := List.snd_lt_add_of_mem_zipIdx hq
    omega
  have hbelow (q : Bytes × Nat) (hq : q ∈ ms.zipIdx (start.line + 1)) : start.line < q.2 :=
    List.le_snd_of_mem_zipIdx hq
  refine ⟨(toString last).length, (ls.zipIdx 1).filter chosen,
    (ms.zipIdx (start.line + 1)).filter chosen, ?_,
    fun q hq => habove q (List.mem_filter.mp hq).1, fun q hq =>
      hbelow q (List.mem_filter.mp hq).1, ?_⟩
  · -- numbers tell the lines apart, so nothing above or below has the mark
    have hzip : (Bytes.lines content).zipIdx 1 = ls.zipIdx 1 ++ (line, start.line) :: ms.zipIdx
      (start.line + 1) := by
      rw [hlines, List.zipIdx_append, List.zipIdx_cons, hnumber, Nat.add_comm 1]
    have hflat : st.window sev content start stop =
      ((Bytes.lines content).zipIdx 1).flatMap fun q =>
        if chosen q then st.sourceLine sev (toString last).length start stop q.2 q.1 else [] := by
      rw [window]
      simp only [← hfirst, ← hlast, chosen, decide_eq_true_eq]
    rw [hflat, hzip, List.flatMap_append, List.flatMap_cons, flatMap_plain fun q hq =>
      (habove q hq).ne,
      flatMap_plain fun q hq => (hbelow q hq).ne', if_pos hhere, List.append_assoc]
  · obtain ⟨n, hn⟩ : ∃ n : Nat, last = n := ⟨last.toNat, by omega⟩
    rw [hn]
    exact length_toString_mono (by omega)

theorem window_eq_nil {start stop : LineCol} (hcontext : st.context < 0) :
    st.window sev content start stop = [] := by
  refine List.flatMap_eq_nil_iff.mpr fun q _ => if_neg ?_
  omega

theorem resolve_eq (hf : files.get? span.file = some f) {start stop : LineCol}
    (hstart : LineCol.ofOffset f.newlines span.start = some start)
    (hstop : LineCol.ofOffset f.newlines span.stop = some stop) :
    files.resolve span = some (start, stop) := by
  simp only [FileSet.resolve, hf, hstart, hstop]
  rfl

theorem snippet_eq (hf : files.get? span.file = some f) {start stop : LineCol}
    (hresolve : files.resolve span = some (start, stop)) (hcol : start.col ≠ 0) :
    st.snippet files span sev = some (st.window sev f.content start stop) := by
  simp only [snippet, hf, hresolve]
  exact if_neg fun h => hcol h.1

/-- The output `out` shows the line of `content` where `text` begins, and below it a mark as long as
the text. What stands above the mark is the text, and no other line has a mark. -/
def Underlines (st : ReportStyle) (sev : Severity) (content : Bytes) (start : LineCol)
    (text out : Bytes) : Prop :=
  ∃ (line : Bytes) (width : Nat) (above below : List (Bytes × Nat)),
    (Bytes.lines content)[start.line - 1]? = some line ∧
    out = above.flatMap (plainLine width) ++
      (plainLine width (line, start.line) ++ st.markLine sev width start.col text.length) ++
      below.flatMap (plainLine width) ∧
    (∀ q ∈ above, q.2 < start.line) ∧ (∀ q ∈ below, start.line < q.2) ∧
    (Bytes.ofString (markOf text.length)).length = text.length ∧
    ((plainLine width (line, start.line)).drop
      (Bytes.ofString (indent width start.col)).length).take text.length = text

theorem underlines_window {start stop : LineCol} (hexact : start.Exact content span.start)
    (hstart : span.start ≤ content.length) (hstop : span.stop ≤ content.length)
    (hlt : span.start < span.stop) {text : Bytes}
    (htext : text = (content.drop span.start).take (span.stop - span.start))
    (hends : ∀ x ∈ text, x ≠ 10 ∧ x ≠ 13) (hmark : mark start stop = markOf text.length)
    (hcontext : 0 ≤ st.context) :
    st.Underlines sev content start text (st.window sev content start stop) := by
  obtain ⟨ls, l, m, ms, hlines, hls, hl, hm, -⟩ := Bytes.lines_at content hstart
  have hlength : text.length = span.stop - span.start := by
    rw [htext, List.length_take, List.length_drop]
    omega
  have hnumber : start.line = ls.length + 1 := by rw [hexact.line, hls, Nat.add_comm]
  have hcol : start.col = l.length + 1 := by rw [hexact.col, hl, Nat.add_comm]
  have hm' : m.take text.length = text := by
    rw [hm, hlength, take_takeWhile fun x hx => (hends x (htext.symm ▸ hx)).1, ← htext]
  obtain ⟨width, above, below, hwindow, habove, hbelow, hwidth⟩ :=
    window_eq sev start stop hlines hnumber hcontext
  refine ⟨l ++ m, width, above, below, ?_, ?_, habove, hbelow, length_markOf (by omega), ?_⟩
  · rw [hlines, hnumber, Nat.add_sub_cancel, List.getElem?_append_right le_rfl, Nat.sub_self]
    rfl
  · rw [hwindow, sourceLine_eq hmark]
  · have hle : text.length ≤ m.length := by
      conv_lhs => rw [← hm', List.length_take]
      exact Nat.min_le_right ..
    have hat := plainLine_at hwidth hcol (by omega) hle fun x hx => (hends x (hm' ▸ hx)).2
    rw [hat, hm']

/-- Positions are exact: a place that fits counts the newlines before its offset and the bytes since
the last of them, and later offsets have later places. Below a span without line ends is a mark of
its length, unless a longer span ends where the column does not fit. -/
theorem positions_exact (hf : files.get? span.file = some f)
    (hsize : f.content.length < 0x100000000) (hstart : span.start ≤ f.content.length)
    (hstop : span.stop ≤ f.content.length) :
    (LineCol.Fits f.content span.start → LineCol.Fits f.content span.stop → ∃ start stop,
      files.resolve span = some (start, stop) ∧
      start.Exact f.content span.start ∧ stop.Exact f.content span.stop ∧
      (span.start < span.stop → start.Before stop)) ∧
    ∀ text, text = (f.content.drop span.start).take (span.stop - span.start) →
      span.start < span.stop → (∀ x ∈ text, x ≠ 10 ∧ x ≠ 13) →
      (span.stop < 0xFFFFFFFF ∨ 10 ∈ f.content ∨ text.length = 1) →
      ∀ (st : ReportStyle) (sev : Severity), ∃ start stop out,
        files.resolve span = some (start, stop) ∧ start.Exact f.content span.start ∧
        st.snippet files span sev = some out ∧
        (0 ≤ st.context → st.Underlines sev f.content start text out) ∧
        (st.context < 0 → out = []) := by
  constructor
  · intro hfits hfits'
    obtain ⟨start, hplace, hexact⟩ := LineCol.exact_ofOffset hsize hstart hfits
    obtain ⟨stop, hplace', hexact'⟩ := LineCol.exact_ofOffset hsize hstop hfits'
    exact ⟨start, stop, resolve_eq hf hplace hplace', hexact, hexact', hexact.before hexact'⟩
  · intro text htext hlt hends hlast st sev
    have hlength : text.length = span.stop - span.start := by
      rw [htext, List.length_take, List.length_drop]
      omega
    obtain ⟨start, hplace, hexact⟩ := LineCol.exact_ofOffset hsize hstart (.inl (by omega))
    obtain ⟨stop, hplace', hmark⟩ := stop_of_span hsize hstop hexact hlt
      (fun x hx => (hends x (htext.symm ▸ hx)).1) (hlength ▸ hlast)
    have hresolve := resolve_eq hf hplace hplace'
    have hcol : start.col ≠ 0 := by rw [hexact.col]; omega
    refine ⟨start, stop, _, hresolve, hexact, snippet_eq hf hresolve hcol, fun hcontext => ?_,
      window_eq_nil⟩
    exact underlines_window hexact hstart hstop hlt htext hends
      (mark_eq (by omega) (hlength ▸ hmark)) hcontext

def dollarFile : SourceFile := .ofText 0 "test.c" "int main() \x7b\n  return 0 $;\n\x7d\n"

theorem positions_exact_dollarFile :
    (FileSet.ofFile dollarFile).resolve ⟨0, 24, 25⟩ = some (⟨2, 12⟩, ⟨2, 13⟩) ∧
    LineCol.Exact dollarFile.content 24 ⟨2, 12⟩ ∧ LineCol.Exact dollarFile.content 25 ⟨2, 13⟩ ∧
    LineCol.Before ⟨2, 12⟩ ⟨2, 13⟩ ∧ ∃ out,
      snippet { context := 1 } (.ofFile dollarFile) ⟨0, 24, 25⟩ .error = some out ∧
      Underlines { context := 1 } .error dollarFile.content ⟨2, 12⟩ (Bytes.ofString "$") out := by
  have hresolve : (FileSet.ofFile dollarFile).resolve ⟨0, 24, 25⟩ = some (⟨2, 12⟩, ⟨2, 13⟩) := by
    decide +kernel
  obtain ⟨hplaces, hmarks⟩ := @positions_exact (.ofFile dollarFile) dollarFile ⟨0, 24, 25⟩ rfl
    (by decide +kernel) (by decide +kernel) (by decide +kernel)
  obtain ⟨start, stop, heq, hstart, hstop, hbefore⟩ :=
    hplaces (.inl (by decide)) (.inl (by decide))
  obtain ⟨rfl, rfl⟩ := Prod.mk.inj (Option.some.inj (hresolve.symm.trans heq))
  obtain ⟨start', stop', out, heq', -, hsnippet, hshown, -⟩ := hmarks (Bytes.ofString "$")
    (by decide +kernel) (by decide) (by decide +kernel) (.inl (by decide)) { context := 1 } .error
  obtain ⟨rfl, rfl⟩ := Prod.mk.inj (Option.some.inj (hresolve.symm.trans heq'))
  exact ⟨hresolve, hstart, hstop, hbefore (by decide), out, hsnippet, hshown (by decide)⟩

def evenFile (n : Nat) (x : UInt8) : SourceFile := .ofText 0 "a.c" (List.replicate n x)

theorem resolve_letters {n i j : Nat} (hi : i ≤ n) (hj : j ≤ n) :
    (FileSet.ofFile (evenFile n 97)).resolve ⟨0, i, j⟩ =
      some (⟨1, (i + 1) % 0x100000000⟩, ⟨1, (j + 1) % 0x100000000⟩) := by
  have hnone : 10 ∉ (evenFile n 97).content := fun h => by cases (List.mem_replicate.mp h).2
  have hlen : (evenFile n 97).content.length = n := List.length_replicate
  exact resolve_eq rfl (LineCol.ofOffset_of_notMem (hi.trans_eq hlen.symm) hnone)
    (LineCol.ofOffset_of_notMem (hj.trans_eq hlen.symm) hnone)

theorem resolve_newlines {n : Nat} (h : 0x100000000 ≤ n + 1) :
    (FileSet.ofFile (evenFile n 10)).resolve ⟨0, n, n⟩ = none := by
  have hlen : (evenFile n 10).content.length = n := List.length_replicate
  have hcount : ((evenFile n 10).content.take n).count 10 = n := by
    rw [List.take_of_length_le hlen.le]
    exact List.count_replicate_self
  have hplace : LineCol.ofOffset (evenFile n 10).newlines n = none := by
    rw [LineCol.ofOffset_newlines _ hlen.ge, hcount, if_neg (by omega)]
  change (LineCol.ofOffset (evenFile n 10).newlines n).bind _ = none
  rw [hplace, Option.bind_none]

theorem notMem_window {start stop : LineCol} (hnone : 10 ∉ content) (htilde : 126 ∉ content)
    (hline : start.line = 1) (hcol : stop.col ≤ start.col) :
    126 ∉ ({} : ReportStyle).window sev content start stop := by
  have hwindow : ({} : ReportStyle).window sev content start stop =
      ({} : ReportStyle).sourceLine sev 1 start stop 1 content := by
    have hgutter : (toString (min (((1 : Nat) : Int) + 0) ((1 : Nat) : Int))).length = 1 := by
      decide +kernel
    simp only [window, Bytes.lines_of_notMem hnone, hline, List.length_singleton, hgutter]
    rw [List.zipIdx_singleton, List.flatMap_singleton]
    exact if_pos (show (max (((1 : Nat) : Int) - 0) 1 ≤ ((1 : Nat) : Int) ∧
      ((1 : Nat) : Int) ≤ min (((1 : Nat) : Int) + 0) ((1 : Nat) : Int)) by decide)
  have hmark : mark start stop = "^" := by
    rw [mark, if_neg (by omega)]
    rfl
  have hindent : 126 ∉ Bytes.ofString (copies (start.col - 1) " ") := fun h =>
    absurd (mem_ofString_copies _ h) (by decide)
  have htrim : 126 ∉ Bytes.trimRight (· = 13) content := fun h =>
    htilde (List.mem_reverse.mp ((List.dropWhile_suffix _).mem (List.mem_reverse.mp h)))
  have hplain : sev.paint.apply ({} : ReportStyle).colour "^" = "^" := rfl
  have hgutter : 126 ∉ Bytes.ofString (padLeft 1 (toString 1)) := by decide +kernel
  rw [hwindow, sourceLine, if_pos hline.symm, hmark, hplain]
  simp only [Bytes.ofString_append, List.mem_append, not_or]
  exact ⟨⟨⟨⟨hgutter, by decide⟩, htrim⟩, by decide⟩,
    ⟨⟨⟨by decide, by decide⟩, hindent⟩, by decide⟩, by decide⟩

theorem not_underlines_of_notMem {start : LineCol} {text out : Bytes} (htext : 1 < text.length)
    (hout : 126 ∉ out) : ¬ ({} : ReportStyle).Underlines sev content start text out := by
  rintro ⟨line, width, above, below, -, rfl, -⟩
  apply hout
  obtain ⟨k, hk⟩ : ∃ k, text.length - 1 = k + 1 := ⟨text.length - 2, by omega⟩
  have hmark : 126 ∈ Bytes.ofString (markOf text.length) := by
    rw [markOf, hk, copies, List.replicate_succ, String.join_cons, Bytes.ofString_append,
      Bytes.ofString_append]
    exact List.mem_append_right _ (List.mem_append_left _ (by decide))
  simp only [markLine, Bytes.ofString_append, List.mem_append]
  exact .inl (.inr (.inr (.inl (.inr hmark))))

/-- At offset 2³² - 1, the column behind letters is zero, there is no place behind newlines, and the
mark below the last two letters is too short. -/
theorem not_positions_exact :
    (∃ p, (FileSet.ofFile (evenFile 0xFFFFFFFF 97)).resolve ⟨0, 0xFFFFFFFF, 0xFFFFFFFF⟩ =
        some (p, p) ∧
      p.col ≠ 1 + Bytes.tailLength ((evenFile 0xFFFFFFFF 97).content.take 0xFFFFFFFF)) ∧
    ((evenFile 0xFFFFFFFF 10).content.length < 0x100000000 ∧
      (FileSet.ofFile (evenFile 0xFFFFFFFF 10)).resolve ⟨0, 0xFFFFFFFF, 0xFFFFFFFF⟩ = none) ∧
    ∃ start stop out,
      (FileSet.ofFile (evenFile 0xFFFFFFFF 97)).resolve ⟨0, 0xFFFFFFFD, 0xFFFFFFFF⟩ =
        some (start, stop) ∧
      ((evenFile 0xFFFFFFFF 97).content.drop 0xFFFFFFFD).take 2 = [97, 97] ∧
      snippet {} (.ofFile (evenFile 0xFFFFFFFF 97)) ⟨0, 0xFFFFFFFD, 0xFFFFFFFF⟩ .error = some out ∧
      ¬ Underlines {} .error (evenFile 0xFFFFFFFF 97).content start [97, 97] out := by
  have hother (x : UInt8) (hx : x ≠ 97) : x ∉ (evenFile 0xFFFFFFFF 97).content := fun h =>
    hx (List.mem_replicate.mp h).2
  have hlen : (evenFile 0xFFFFFFFF 97).content.length = 0xFFFFFFFF := List.length_replicate
  refine ⟨⟨_, resolve_letters le_rfl le_rfl, ?_⟩, ⟨?_, resolve_newlines le_rfl⟩, ?_⟩
  · have htake := Bytes.tailLength_of_notMem fun h =>
      hother 10 (by decide) (List.mem_of_mem_take (i := 0xFFFFFFFF) h)
    rw [htake, List.length_take, hlen]
    decide
  · change (List.replicate 0xFFFFFFFF (10 : UInt8)).length < 0x100000000
    rw [List.length_replicate]
    decide
  · have hresolve := @resolve_letters 0xFFFFFFFF 0xFFFFFFFD 0xFFFFFFFF (by decide) le_rfl
    refine ⟨_, _, _, hresolve, ?_, snippet_eq rfl hresolve (by decide), ?_⟩
    · change ((List.replicate 0xFFFFFFFF (97 : UInt8)).drop 0xFFFFFFFD).take 2 = [97, 97]
      rw [List.drop_replicate, List.take_replicate]
      rfl
    · exact not_underlines_of_notMem (by decide)
        (notMem_window (hother 10 (by decide)) (hother 126 (by decide)) rfl (by decide))

end ReportStyle

end Sysy
