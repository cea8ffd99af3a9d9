import Std.Data.String.ToInt
import Sysy.Proofs.Ir.Typing

/-!
When types are the same. Types are equal if they are built alike, and the text of a type shows how
it is built: a text that goes on behind a type without a colon can be read in one way only.
-/

namespace Sysy.Ir.Ty

inductive Whole : Ty → Prop
  | i32 : Whole .i32
  | unit : Whole .unit
  | ptr {e : Ty} (h : Whole e) : Whole (.ptr e)
  | array {e : Ty} (h : Whole e) (n : Int) : Whole (.array e n)
  | func {ps : List Ty} {r : Ty} (hps : ∀ p ∈ ps, Whole p) (hr : Whole r) : Whole (.func ps r)

theorem equal_iff_eq {t o : Ty} : equal t o = true ↔ t = o :=
  ⟨eq_of_equal t o, fun h => h ▸ equal_self t⟩

/-! How the texts of types begin and go on. -/

/-- The text goes on behind a type, and not by the result of a function. -/
def GoesOn (r : List Char) : Prop := r.head? ≠ some ':'

def ReadsBack (t : Ty) : Prop := ∀ o : Ty, Whole o → ∀ r r', GoesOn r → GoesOn r' →
  t.text.toList ++ r = o.text.toList ++ r' → t = o ∧ r = r'

def moreText (ts : List Ty) : List Char := ts.flatMap fun t => ',' :: ' ' :: t.text.toList

theorem toList_listText (t : Ty) (ts : List Ty) :
    (listText (t :: ts)).toList = t.text.toList ++ moreText ts := by
  induction ts generalizing t with
  | nil => simp [listText, moreText]
  | cons u us ih => simp [listText, ih, moreText]

theorem toList_ptr (e : Ty) : (ptr e).text.toList = '*' :: e.text.toList := by simp [text]

theorem toList_array (e : Ty) (n : Int) :
    (array e n).text.toList = '[' :: (e.text.toList ++ ',' :: ' ' :: ((toString n).toList ++
      [']'])) := by
  simp [text]

def retText (r : Ty) : List Char := if r.isUnit then [] else ':' :: ' ' :: r.text.toList

theorem toList_func (ps : List Ty) (r : Ty) :
    (func ps r).text.toList = '(' :: ((listText ps).toList ++ ')' :: retText r) := by
  rw [retText]
  split <;> simp [text, *]

theorem exists_text (t : Ty) : ∃ c cs, t.text.toList = c :: cs ∧ c ≠ ')' := by
  cases t with
  | absent | unit => exact ⟨'u', ['n', 'i', 't'], by simp [text], by decide⟩
  | i32 => exact ⟨'i', ['3', '2'], by simp [text], by decide⟩
  | ptr e => exact ⟨'*', _, toList_ptr e, by decide⟩
  | array e n => exact ⟨'[', _, toList_array e n, by decide⟩
  | func ps r => exact ⟨'(', _, toList_func ps r, by decide⟩

theorem isDigit_of_mem {k : Nat} {c : Char} (h : c ∈ (toString k).toList) : c.isDigit = true := by
  rw [Nat.toString_eq_ofList_toDigits, String.toList_ofList] at h
  exact Nat.isDigit_of_mem_toDigits (by decide) (by decide) h

theorem toList_negSucc (k : Nat) :
    (toString (Int.negSucc k)).toList = '-' :: (toString (k + 1)).toList := by
  have hneg : toString (Int.negSucc k) = "-" ++ toString (k + 1) := rfl
  rw [hneg, String.toList_append]
  rfl

theorem bracket_notMem (n : Int) : ']' ∉ (toString n).toList := by
  cases n with
  | ofNat k => exact fun h => absurd (isDigit_of_mem h) (by decide)
  | negSucc k =>
    rw [toList_negSucc]
    exact List.not_mem_cons_of_ne_of_not_mem (by decide) fun h =>
      absurd (isDigit_of_mem h) (by decide)

theorem cut_bracket {xs ys r r' : List Char} (hxs : ']' ∉ xs) (hys : ']' ∉ ys)
    (h : xs ++ ']' :: r = ys ++ ']' :: r') :
    xs = ys ∧ r = r' := by
  induction xs generalizing ys with
  | nil =>
    cases ys with
    | nil => exact ⟨rfl, (List.cons.inj h).2⟩
    | cons y ys => exact absurd ((List.cons.inj h).1 ▸ List.mem_cons_self) hys
  | cons x xs ih =>
    cases ys with
    | nil => exact absurd ((List.cons.inj h).1 ▸ List.mem_cons_self) hxs
    | cons y ys =>
      obtain ⟨rfl, hrest⟩ := List.cons.inj h
      obtain ⟨rfl, rfl⟩ :=
        ih (List.not_mem_of_not_mem_cons hxs) (List.not_mem_of_not_mem_cons hys) hrest
      exact ⟨rfl, rfl⟩

theorem goesOn_moreText (ts : List Ty) (r : List Char) : GoesOn (moreText ts ++ ')' :: r) := by
  cases ts <;> simp [GoesOn, moreText]

theorem moreText_inj {ps : List Ty} (hps : ∀ p ∈ ps, ReadsBack p) :
    ∀ {qs : List Ty}, (∀ q ∈ qs, Whole q) → ∀ {r r'},
    moreText ps ++ ')' :: r = moreText qs ++ ')' :: r' → ps = qs ∧ r = r' := by
  induction ps with
  | nil =>
    intro qs hqs r r' h
    cases qs with
    | nil => exact ⟨rfl, (List.cons.inj h).2⟩
    | cons q qs => simp [moreText] at h
  | cons p ps ih =>
    intro qs hqs r r' h
    cases qs with
    | nil => simp [moreText] at h
    | cons q qs =>
      have hcons (t : Ty) (ts : List Ty) (z : List Char) :
          moreText (t :: ts) ++ ')' :: z = ',' :: ' ' :: (t.text.toList ++
            (moreText ts ++ ')' :: z)) := by
        simp [moreText]
      rw [hcons, hcons, List.cons.injEq, List.cons.injEq] at h
      obtain ⟨rfl, hrest⟩ :=
        hps p (by simp) q (hqs q (by simp)) _ _ (goesOn_moreText _ _) (goesOn_moreText _ _) h.2.2
      obtain ⟨rfl, rfl⟩ :=
        ih (fun p hp => hps p (by simp [hp])) (fun q hq => hqs q (by simp [hq])) hrest
      exact ⟨rfl, rfl⟩

theorem listText_ne_nil (t : Ty) (ts : List Ty) (r r' : List Char) :
    (listText (t :: ts)).toList ++ r ≠ ')' :: r' := by
  obtain ⟨c, cs, htext, hc⟩ := exists_text t
  rw [toList_listText, htext]
  simp [hc]

theorem listText_inj {ps qs : List Ty} (hps : ∀ p ∈ ps, ReadsBack p) (hqs : ∀ q ∈ qs, Whole q)
    {r r' : List Char} (h : (listText ps).toList ++ ')' :: r = (listText qs).toList ++ ')' :: r') :
    ps = qs ∧ r = r' := by
  have hnil (z : List Char) : (listText []).toList ++ ')' :: z = ')' :: z := by simp [listText]
  cases ps with
  | nil =>
    cases qs with
    | nil => exact ⟨rfl, by simpa using h⟩
    | cons q qs => exact absurd ((hnil r).symm.trans h).symm (listText_ne_nil _ _ _ _)
  | cons p ps =>
    cases qs with
    | nil => exact absurd (h.trans (hnil r')) (listText_ne_nil _ _ _ _)
    | cons q qs =>
      rw [toList_listText, toList_listText, List.append_assoc, List.append_assoc] at h
      obtain ⟨rfl, hrest⟩ :=
        hps p (by simp) q (hqs q (by simp)) _ _ (goesOn_moreText _ _) (goesOn_moreText _ _) h
      obtain ⟨rfl, rfl⟩ :=
        moreText_inj (fun p hp => hps p (by simp [hp])) (fun q hq => hqs q (by simp [hq])) hrest
      exact ⟨rfl, rfl⟩

theorem isUnit_iff {t : Ty} (h : Whole t) : t.isUnit = true ↔ t = unit := by
  cases h <;> simp [isUnit]

/-- That a function has no result shows in that its text does not go on with a colon. -/
theorem retText_inj {t o : Ty} (ht : Whole t) (ho : Whole o) (hback : ReadsBack t)
    {r r' : List Char} (hr : GoesOn r) (hr' : GoesOn r') (h : retText t ++ r = retText o ++ r') :
    t = o ∧ r = r' := by
  unfold retText at h
  split at h <;> split at h
  next htu hou => exact ⟨((isUnit_iff ht).mp htu).trans ((isUnit_iff ho).mp hou).symm, h⟩
  next => exact absurd (by rw [show r = _ from h]; rfl) hr
  next => exact absurd (by rw [show r' = _ from h.symm]; rfl) hr'
  next => exact hback o ho r r' hr hr' (by simpa using h)

/-- By the first letter of the texts both types are built in the same way; their parts follow. -/
theorem Whole.readsBack {t : Ty} (ht : Whole t) : ReadsBack t := by
  induction ht with
  | i32 =>
    intro o ho r r' hr hr' h
    cases ho with
    | i32 => exact ⟨rfl, by simpa using h⟩
    | unit => simp [text] at h
    | ptr => simp [text] at h
    | array => simp [text] at h
    | func => rw [toList_func] at h; simp [text] at h
  | unit =>
    intro o ho r r' hr hr' h
    cases ho with
    | i32 => simp [text] at h
    | unit => exact ⟨rfl, by simpa using h⟩
    | ptr => simp [text] at h
    | array => simp [text] at h
    | func => rw [toList_func] at h; simp [text] at h
  | @ptr e he ih =>
    intro o ho r r' hr hr' h
    rw [toList_ptr] at h
    cases ho with
    | i32 => simp [text] at h
    | unit => simp [text] at h
    | @ptr e' he' =>
      rw [toList_ptr] at h
      obtain ⟨rfl, rfl⟩ := ih e' he' r r' hr hr' (List.cons.inj h).2
      exact ⟨rfl, rfl⟩
    | array => simp [toList_array] at h
    | func => simp [toList_func] at h
  | @array e he n ih =>
    intro o ho r r' hr hr' h
    rw [toList_array] at h
    cases ho with
    | i32 => simp [text] at h
    | unit => simp [text] at h
    | ptr => simp [toList_ptr] at h
    | @array e' he' n' =>
      rw [toList_array] at h
      simp only [List.cons_append, List.append_assoc, List.cons.injEq, true_and,
        List.nil_append] at h
      -- the element comes first, and behind it a comma, so both elements end in one place
      obtain ⟨rfl, hlen⟩ := ih e' he' _ _ (by simp [GoesOn]) (by simp [GoesOn]) h
      simp only [List.cons.injEq, true_and] at hlen
      obtain ⟨hnum, hrest⟩ := cut_bracket (bracket_notMem n) (bracket_notMem n') hlen
      exact ⟨by rw [Int.repr_inj.mp (String.toList_inj.mp hnum)], hrest⟩
    | func => simp [toList_func] at h
  | @func ps ret hps hret ihps ihret =>
    intro o ho r r' hr hr' h
    rw [toList_func] at h
    cases ho with
    | i32 => simp [text] at h
    | unit => simp [text] at h
    | ptr => simp [toList_ptr] at h
    | array => simp [toList_array] at h
    | @func qs ret' hqs hret' =>
      rw [toList_func] at h
      simp only [List.cons_append, List.append_assoc, List.cons.injEq, true_and] at h
      obtain ⟨rfl, hrest⟩ := listText_inj ihps hqs h
      obtain ⟨rfl, rfl⟩ := retText_inj hret hret' ihret hr hr' hrest
      exact ⟨rfl, rfl⟩

theorem text_inj {t o : Ty} (ht : Whole t) (ho : Whole o) (h : t.text = o.text) : t = o :=
  (ht.readsBack o ho [] [] (by simp [GoesOn]) (by simp [GoesOn]) (by rw [h])).1

/-- Among the types that are given with all of their parts, equality is an equivalence. Two of them
are equal if they are built alike, and if their texts are the same; equal types take the same number
of bytes. -/
theorem equal_iff_text_eq :
    Equivalence (fun t o : Subtype Whole => equal t.1 o.1 = true) ∧
      ∀ t o : Ty, Whole t → Whole o →
        (equal t o = true ↔ t = o) ∧ (equal t o = true ↔ t.text = o.text) ∧
        (equal t o = true → t.size = o.size) := by
  refine ⟨⟨fun t => equal_self t.1, fun h => ?symm, fun h h' => ?trans⟩,
    fun t o ht ho => ⟨equal_iff_eq, ⟨fun h => ?text, fun h => ?back⟩, fun h => ?size⟩⟩
  case symm => exact equal_iff_eq.mpr (equal_iff_eq.mp h).symm
  case trans => exact equal_iff_eq.mpr ((equal_iff_eq.mp h).trans (equal_iff_eq.mp h'))
  case text => rw [equal_iff_eq.mp h]
  case back => exact equal_iff_eq.mpr (text_inj ht ho h)
  case size => rw [equal_iff_eq.mp h]

/-- A function that is given rows, and one that gives a function. -/
def takesRows : Ty := func [ptr (array i32 4), array (array i32 3) 2] unit

def givesTaker : Ty := func [] (func [ptr i32] unit)

theorem equal_iff_text_eq_functions : Whole takesRows ∧ Whole givesTaker ∧
    takesRows.text = "(*[i32, 4], [[i32, 3], 2])" ∧ givesTaker.text = "(): (*i32)" ∧
    (equal takesRows givesTaker = true ↔ takesRows.text = givesTaker.text) := by
  have htakes : Whole takesRows :=
    .func (by simpa using ⟨.ptr (.array .i32 4), .array (.array .i32 3) 2⟩) .unit
  have hgives : Whole givesTaker := .func (by simp) (.func (by simpa using .ptr .i32) .unit)
  exact ⟨htakes, hgives, by
    decide, by decide, (equal_iff_text_eq.2 takesRows givesTaker htakes hgives).2.1⟩

/-- A type that was not given reads as another one that is not equal to it. -/
example : absent.text = unit.text ∧ equal absent unit = false := by decide

end Sysy.Ir.Ty
