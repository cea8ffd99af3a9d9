import Mathlib.Algebra.BigOperators.Group.List.Basic
import Mathlib.Algebra.GroupWithZero.Nat
import Mathlib.Data.List.Count
import Mathlib.Data.List.Induction
import Mathlib.Data.List.TakeWhile
import Sysy.Source.File

/-!
Places in a file. A content is cut at its newlines in two ways: into lines, and into a place for
each offset, by looking up the newlines before it. Both agree: before an offset stand the lines
above it and a part of its own line.
-/

namespace Sysy

namespace Bytes

/-- How many bytes stand behind the last newline of a text, or in all of it if there is none. -/
def tailLength (b : Bytes) : Nat := (b.reverse.takeWhile (· ≠ 10)).length

def lineStart (content : Bytes) (line : Nat) : Nat :=
  (((lines content).take (line - 1)).map (·.length + 1)).sum

section Lines
variable {b l m pre post content : Bytes} {ls ms : List Bytes} {x : UInt8}

theorem tailLength_concat (b : Bytes) (x : UInt8) :
    tailLength (b ++ [x]) = if x = 10 then 0 else tailLength b + 1 := by
  rw [tailLength, List.reverse_concat, List.takeWhile_cons]
  by_cases hx : x = 10 <;> simp [hx, tailLength]

theorem tailLength_le (b : Bytes) : tailLength b ≤ b.length :=
  (List.takeWhile_prefix _).length_le.trans_eq List.length_reverse

theorem tailLength_lt (h : 10 ∈ b) : tailLength b < b.length := by
  refine lt_of_le_of_ne (tailLength_le b) fun heq => ?_
  have hself : b.reverse.takeWhile (· ≠ 10) = b.reverse :=
    (List.takeWhile_prefix _).eq_of_length (by rw [List.length_reverse]; exact heq)
  simpa using List.takeWhile_eq_self_iff.mp hself 10 (List.mem_reverse.mpr h)

theorem tailLength_of_notMem (h : 10 ∉ b) : tailLength b = b.length := by
  have hself : b.reverse.takeWhile (· ≠ 10) = b.reverse :=
    List.takeWhile_eq_self_iff.mpr fun x hx => by
      have hne : x ≠ 10 := fun heq => h (heq ▸ List.mem_reverse.mp hx)
      simpa using hne
  rw [tailLength, hself, List.length_reverse]

theorem lines_newline (b : Bytes) : lines (10 :: b) = [] :: lines b := by
  rw [lines, if_pos rfl]

theorem lines_cons (hx : x ≠ 10) (h : lines b = m :: ms) : lines (x :: b) = (x :: m) :: ms := by
  rw [lines, if_neg hx, h]

theorem exists_lines_cons (b : Bytes) : ∃ m ms, lines b = m :: ms := by
  cases b with
  | nil => exact ⟨[], [], rfl⟩
  | cons x b =>
    obtain ⟨m, ms, h⟩ := exists_lines_cons b
    by_cases hx : x = 10
    · exact ⟨[], lines b, hx ▸ lines_newline b⟩
    · exact ⟨x :: m, ms, lines_cons hx h⟩

theorem lines_append (hpost : lines post = m :: ms) :
    ∀ {pre : Bytes} {ls : List Bytes} {l : Bytes}, lines pre = ls ++ [l] →
    lines (pre ++ post) = ls ++ (l ++ m) :: ms := by
  intro pre
  induction pre with
  | nil =>
    intro ls l hpre
    obtain ⟨rfl, rfl⟩ : ls = [] ∧ l = [] := by
      cases ls with
      | nil => exact ⟨rfl, (List.singleton_inj.mp hpre).symm⟩
      | cons => simp [lines] at hpre
    exact hpost
  | cons x pre ih =>
    intro ls l hpre
    obtain ⟨n, ns, hn⟩ := exists_lines_cons pre
    by_cases hx : x = 10
    · rw [hx, lines_newline] at hpre
      rw [hx, List.cons_append, lines_newline]
      cases ls with
      | nil =>
        rw [hn] at hpre
        cases hpre
      | cons k ls =>
        obtain ⟨rfl, hrest⟩ := List.cons.inj hpre
        rw [ih hrest]
        rfl
    · rw [lines_cons hx hn] at hpre
      cases ls with
      | nil =>
        obtain ⟨rfl, rfl⟩ := List.cons.inj hpre
        have hfirst := ih (show lines pre = [] ++ [n] from hn)
        exact lines_cons hx hfirst
      | cons k ls =>
        obtain ⟨rfl, rfl⟩ := List.cons.inj hpre
        have hfirst := ih (show lines pre = (n :: ls) ++ [l] from hn)
        exact lines_cons hx hfirst

theorem exists_lines_concat (b : Bytes) : ∃ ls l, lines b = ls ++ [l] := by
  obtain ⟨m, ms, h⟩ := exists_lines_cons b
  exact ⟨(m :: ms).dropLast, (m :: ms).getLast (by simp), by rw [h, List.dropLast_concat_getLast]⟩

theorem head_lines : ∀ {b m : Bytes} {ms : List Bytes}, lines b = m :: ms →
    m = b.takeWhile (· ≠ 10) := by
  intro b
  induction b with
  | nil =>
    intro m ms h
    obtain ⟨rfl, -⟩ := List.cons.inj h
    rfl
  | cons x b ih =>
    intro m ms h
    obtain ⟨n, ns, hn⟩ := exists_lines_cons b
    by_cases hx : x = 10
    · rw [hx, lines_newline] at h
      obtain ⟨rfl, -⟩ := List.cons.inj h
      simp [hx]
    · rw [lines_cons hx hn] at h
      obtain ⟨rfl, -⟩ := List.cons.inj h
      simp [hx, ih hn]

theorem lines_of_notMem (h : 10 ∉ b) : lines b = [b] := by
  induction b with
  | nil => rfl
  | cons x b ih =>
    obtain ⟨hx, hb⟩ := not_or.mp (List.mem_cons.not.mp h)
    exact lines_cons (fun heq => hx heq.symm) (ih hb)

/-- The lines of a text, its last line apart, are as many as its newlines, and hold all but the tail
of it. -/
theorem lines_spec (b : Bytes) : ∀ {ls : List Bytes} {l : Bytes}, lines b = ls ++ [l] →
    ls.length = b.count 10 ∧ (ls.map (·.length + 1)).sum + l.length = b.length ∧
    l.length = tailLength b := by
  induction b using List.reverseRecOn with
  | nil =>
    intro ls l h
    cases ls with
    | nil =>
      obtain rfl := List.singleton_inj.mp h
      exact ⟨rfl, rfl, rfl⟩
    | cons => simp [lines] at h
  | append_singleton b x ih =>
    -- one more byte ends the last line or makes it longer
    intro ls l h
    obtain ⟨ks, k, hk⟩ := exists_lines_concat b
    obtain ⟨hcount, hsum, htail⟩ := ih hk
    rw [tailLength_concat]
    by_cases hx : x = 10
    · have hpost : lines [x] = [] :: [[]] := hx ▸ lines_newline []
      have hlines := lines_append hpost hk
      rw [h, List.append_nil, List.append_cons ks] at hlines
      obtain ⟨rfl, hlast⟩ := List.append_inj' hlines rfl
      obtain rfl := List.singleton_inj.mp hlast
      simp [hx, hcount, ← hsum]
      omega
    · have hpost : lines [x] = [x] :: [] := lines_cons hx rfl
      have hlines := lines_append hpost hk
      rw [h] at hlines
      obtain ⟨rfl, hlast⟩ := List.append_inj' hlines rfl
      obtain rfl := List.singleton_inj.mp hlast
      simp [hx, hcount, ← hsum, ← htail]
      omega

/-- At an offset, the line is the one behind as many lines as there are newlines before; the part of
it before the offset is as long as the tail of what stands there. -/
theorem lines_at (content : Bytes) {off : Nat} (hoff : off ≤ content.length) : ∃ ls l m ms,
    lines content = ls ++ (l ++ m) :: ms ∧ ls.length = (content.take off).count 10 ∧
    l.length = tailLength (content.take off) ∧
      m = (content.drop off).takeWhile (· ≠ 10) ∧
      content.lineStart ((content.take off).count 10 + 1) + tailLength
        (content.take off) = off := by
  obtain ⟨ls, l, hpre⟩ := exists_lines_concat (content.take off)
  obtain ⟨m, ms, hpost⟩ := exists_lines_cons (content.drop off)
  obtain ⟨hcount, hsum, htail⟩ := lines_spec _ hpre
  have hlines := lines_append hpost hpre
  rw [List.take_append_drop] at hlines
  refine ⟨ls, l, m, ms, hlines, hcount, htail, head_lines hpost, ?_⟩
  rw [lineStart, hlines, Nat.add_sub_cancel, ← hcount, List.take_left, ← htail, hsum,
    List.length_take]
  omega

end Lines

end Bytes

namespace SourceFile

theorem newlinesFrom_concat (x : UInt8) (b : Bytes) : ∀ off,
    newlinesFrom off (b ++ [x]) =
      newlinesFrom off b ++ if x = 10 then [off + b.length] else [] := by
  induction b with
  | nil =>
    intro off
    by_cases hx : x = 10 <;> simp [newlinesFrom, hx]
  | cons y b ih =>
    intro off
    rw [List.cons_append, newlinesFrom, newlinesFrom, ih, List.length_cons, Nat.add_assoc,
      Nat.add_comm 1]
    split <;> simp

theorem le_of_mem_newlinesFrom {n : Nat} (b : Bytes) : ∀ {off : Nat}, n ∈ newlinesFrom off b →
    off ≤ n := by
  induction b with
  | nil =>
    intro off h
    cases h
  | cons x b ih =>
    intro off h
    rw [newlinesFrom] at h
    split at h
    · rcases List.mem_cons.mp h with rfl | h
      · exact le_rfl
      · exact (Nat.le_succ off).trans (ih h)
    · exact (Nat.le_succ off).trans (ih h)

theorem takeWhile_newlinesFrom (b : Bytes) : ∀ {start off : Nat}, start ≤ off →
    (newlinesFrom start b).takeWhile (· < off) = newlinesFrom start (b.take (off - start)) := by
  induction b with
  | nil =>
    intro start off _
    simp [newlinesFrom]
  | cons x b ih =>
    intro start off hle
    rcases Nat.eq_or_lt_of_le hle with rfl | hlt
    · rw [Nat.sub_self, List.take_zero]
      refine List.takeWhile_eq_nil_iff.mpr fun hlen => ?_
      have := le_of_mem_newlinesFrom (x :: b) (List.getElem_mem hlen)
      simpa using this
    · have htake : off - start = (off - (start + 1)) + 1 := by omega
      rw [htake, List.take_succ_cons, newlinesFrom, newlinesFrom]
      split
      · rw [List.takeWhile_cons_of_pos (by simpa using hlt), ih hlt]
      · exact ih hlt

theorem length_newlinesFrom (b : Bytes) : ∀ off, (newlinesFrom off b).length = b.count 10 := by
  induction b with
  | nil => exact fun _ => rfl
  | cons x b ih =>
    intro off
    rw [newlinesFrom, List.count_cons]
    by_cases hx : x = 10 <;> simp [hx, ih]

theorem lastNewline (b : Bytes) :
    (newlinesFrom 0 b).getLast?.elim 0 (· + 1) + b.tailLength = b.length := by
  induction b using List.reverseRecOn with
  | nil => rfl
  | append_singleton b x ih =>
    rw [newlinesFrom_concat, Bytes.tailLength_concat, List.length_append]
    by_cases hx : x = 10
    · simp [hx]
    · rw [if_neg hx, if_neg hx, List.append_nil, ← Nat.add_assoc, ih]
      rfl

end SourceFile

theorem LineCol.ofOffset_newlines (f : SourceFile) {off : Nat} (hoff : off ≤ f.content.length) :
    LineCol.ofOffset f.newlines off =
      if (f.content.take off).count 10 + 1 < 0x100000000 then
        some ⟨(f.content.take off).count 10 + 1,
          (Bytes.tailLength (f.content.take off) + 1) % 0x100000000⟩
      else none := by
  have hlast := SourceFile.lastNewline (f.content.take off)
  rw [List.length_take, Nat.min_eq_left hoff] at hlast
  rw [ofOffset, SourceFile.newlines, SourceFile.takeWhile_newlinesFrom _ (Nat.zero_le off),
    Nat.sub_zero, SourceFile.length_newlinesFrom]
  generalize (SourceFile.newlinesFrom 0 (f.content.take off)).getLast? = last at hlast
  congr 4
  cases last with
  | none =>
    rw [Option.elim_none] at hlast
    dsimp only
    omega
  | some n =>
    rw [Option.elim_some] at hlast
    dsimp only
    omega

namespace LineCol

structure Exact (content : Bytes) (off : Nat) (p : LineCol) : Prop where
  line : p.line = 1 + (content.take off).count 10
  col : p.col = 1 + Bytes.tailLength (content.take off)
  offset : off = content.lineStart p.line + p.col - 1

def Before (p q : LineCol) : Prop := p.line < q.line ∨ p.line = q.line ∧ p.col < q.col

/-- Line and column of an offset fit into 32 bits: it is not the end of 2³² - 1 bytes that hold no
newline or nothing else. -/
def Fits (content : Bytes) (off : Nat) : Prop :=
  off < 0xFFFFFFFF ∨ 10 ∈ content ∧ ∃ x ∈ content, x ≠ 10

section Places
variable {f : SourceFile} {content : Bytes} {off off' : Nat} {p p' : LineCol}

theorem Fits.count_lt (h : Fits content off) (hsize : content.length < 0x100000000) :
    (content.take off).count 10 + 1 < 0x100000000 := by
  have hle : (content.take off).count 10 ≤ off :=
    List.count_le_length.trans (List.length_take_le ..)
  rcases h with hlt | ⟨-, hother⟩
  · omega
  · have hall : (content.take off).count 10 ≤ content.count 10 :=
      (List.take_sublist off content).count_le 10
    have hfew : content.count 10 < content.length := List.count_lt_length_iff.mpr hother
    omega

theorem Fits.tailLength_lt (h : Fits content off) (hsize : content.length < 0x100000000)
    (hoff : off ≤ content.length) : Bytes.tailLength (content.take off) + 1 < 0x100000000 := by
  have hle := Bytes.tailLength_le (content.take off)
  rw [List.length_take] at hle
  rcases h with hlt | ⟨hmem, -⟩
  · omega
  · by_cases hall : off = content.length
    · have := Bytes.tailLength_lt hmem
      rw [hall, List.take_length]
      omega
    · omega

theorem exact_ofOffset (hsize : f.content.length < 0x100000000) (hoff : off ≤ f.content.length)
    (hfits : Fits f.content off) :
    ∃ p, ofOffset f.newlines off = some p ∧ p.Exact f.content off := by
  obtain ⟨-, -, -, -, -, -, -, -, hstart⟩ := Bytes.lines_at f.content hoff
  rw [ofOffset_newlines f hoff, if_pos (hfits.count_lt hsize),
    Nat.mod_eq_of_lt (hfits.tailLength_lt hsize hoff)]
  exact ⟨_, rfl, Nat.add_comm .., Nat.add_comm .., by dsimp only; omega⟩

theorem ofOffset_of_notMem (hoff : off ≤ f.content.length) (hnone : 10 ∉ f.content) :
    ofOffset f.newlines off = some ⟨1, (off + 1) % 0x100000000⟩ := by
  have hcount : (f.content.take off).count 10 = 0 :=
    List.count_eq_zero.mpr fun hmem => hnone (List.mem_of_mem_take hmem)
  have htail : Bytes.tailLength (f.content.take off) = off := by
    rw [Bytes.tailLength_of_notMem fun hmem => hnone (List.mem_of_mem_take hmem),
      List.length_take, Nat.min_eq_left hoff]
  rw [ofOffset_newlines f hoff, hcount, htail]
  rfl

theorem Exact.before (h : p.Exact content off) (h' : p'.Exact content off') (hlt : off < off') :
    p.Before p' := by
  have hprefix : content.take off <+: content.take off' := List.take_prefix_take_left hlt.le
  have hcount := hprefix.sublist.count_le 10
  have hline := h.line
  have hline' := h'.line
  have hcol := h.col
  have hoffset := h.offset
  have hoffset' := h'.offset
  by_cases heq : p.line = p'.line
  · rw [← heq] at hoffset'
    exact .inr ⟨heq, by omega⟩
  · exact .inl (by omega)

end Places

end LineCol

end Sysy
