import Sysy.Proofs.Lowering.Validity
import Sysy.Proofs.Static.Names

/-!
How an initialiser is laid out as the cells of an array. The cells hold the expressions of the
initialiser in the order of the source, and each list inside of another one gets the cells of the
largest part of the array that can begin at its place. An initialiser that is no list, or in which a
list finds no such part or too little room, is rejected, and no other one is.
-/

namespace Sysy

mutual

/-- The expressions of an initialiser, in the order of the source. -/
def Init.leaves : Init → List Expr
  | .expr e => [e]
  | .list _ elems => leavesOf elems

def Init.leavesOf : List Init → List Expr
  | [] => []
  | i :: is => i.leaves ++ leavesOf is

end

namespace Static
open Lowering

variable {dims part : List Nat} {out cells : Cells} {e : LoweringError} {n k : Nat} {i : Init}
  {is : List Init}

/-- A list that does not fit into an array with dimensions `dims`, whose elements go behind `n`
cells. -/
inductive Misfit : (dims : List Nat) → (n : Nat) → List Init → Prop
  /-- The list holds more cells than the array. -/
  | overfull {dims : List Nat} {n : Nat} {is : List Init} (h : product dims < n) : Misfit dims n is
  /-- A list stands in an array without rows, or where no innermost row begins. -/
  | unaligned {dims : List Nat} {n : Nat} {span : Span} {elems is : List Init}
      (h : dims.length ≤ 1 ∨ ∃ d, dims.getLast? = some d ∧ ¬ d ∣ n) :
        Misfit dims n (.list span elems :: is)
  | inside {dims part : List Nat} {n : Nat} {span : Span} {elems is : List Init}
      (hpart : IsPart dims n part)
      (h : Misfit part 0 elems) : Misfit dims n (.list span elems :: is)
  | behindExpr {dims : List Nat} {n : Nat} {e : Expr} {is : List Init}
      (h : Misfit dims (n + 1) is) :
      Misfit dims n (.expr e :: is)
  | behindList {dims part : List Nat} {n : Nat} {span : Span} {elems is : List Init}
      (hpart : IsPart dims n part)
      (h : Misfit dims (n + product part) is) : Misfit dims n (.list span elems :: is)

mutual

/-- The cells of an array with dimensions `dims` that a list of elements stands for: the cells that
the elements fill, and then empty ones. Each element has its place behind those before it. -/
inductive Reshapes : (dims : List Nat) → List Init → List (Option Expr) → Prop
  | intro {dims : List Nat} {elems : List Init} {filled : List (Option Expr)} {k : Nat}
      (hsize : filled.length + k = product dims) (hfills : Fills dims 0 elems filled.length)
      (hplaces : ∀ before i after, elems = before ++ i :: after →
        Place dims before i (filled ++ List.replicate k none)) :
      Reshapes dims elems (filled ++ List.replicate k none)

inductive Place : (dims : List Nat) → (before : List Init) → Init → List (Option Expr) → Prop
  | expr {dims : List Nat} {before : List Init} {e : Expr} {pre post : List (Option Expr)}
      (hbefore : Fills dims 0 before pre.length)
        (hleaves : pre.filterMap id = Init.leavesOf before) :
      Place dims before (.expr e) (pre ++ some e :: post)
  /-- A list gets the cells of the largest part that can begin at its place. -/
  | list {dims part : List Nat} {before elems : List Init} {span : Span}
      {pre own post : List (Option Expr)}
      (hbefore : Fills dims 0 before pre.length) (hleaves : pre.filterMap id = Init.leavesOf before)
      (hpart : IsPart dims pre.length part)
      (hlargest : ∀ other, other <:+ dims.tail → product other ∣ pre.length →
        product other ≤ product part)
      (hown : Reshapes part elems own) : Place dims before (.list span elems) (pre ++ own ++ post)

end

/-! Parts of an array. -/

theorem product_eq_prod (ds : List Nat) : product ds = ds.prod := by
  induction ds with
  | nil => rfl
  | cons d ds ih => rw [product_cons, List.prod_cons, ih]

theorem IsPart.product_le (h : IsPart dims n part) (hpos : ∀ d ∈ dims, 0 < d) {other : List Nat}
    (hother : other <:+ dims.tail) (hdvd : product other ∣ n) : product other ≤ product part := by
  obtain ⟨ds, rfl⟩ := List.suffix_of_suffix_length_le hother h.suffix (h.largest other hother hdvd)
  have hds : 0 < product ds := product_pos fun d hd =>
    hpos d (List.mem_of_mem_tail (h.suffix.subset (List.mem_append_left _ hd)))
  rw [product_eq_prod] at hds
  rw [product_eq_prod, product_eq_prod, List.prod_append]
  exact Nat.le_mul_of_pos_left _ hds

theorem exists_subShape? (hrank : 1 < dims.length) (hlast : ∀ d, dims.getLast? = some d → d ∣ n) :
    ∃ part, subShape? n dims = some part := by
  induction dims with
  | nil => simp at hrank
  | cons c ds ih =>
    have hne : ds ≠ [] := by
      rintro rfl
      simp at hrank
    rw [subShape?, if_neg hne]
    split
    · exact ⟨ds, rfl⟩
    · rename_i hmod
      rw [List.getLast?_cons_of_ne_nil hne] at hlast
      refine ih ?_ hlast
      by_contra hshort
      obtain ⟨d, rfl⟩ : ∃ d, ds = [d] :=
        List.length_eq_one_iff.mp (by have := List.length_pos_of_ne_nil hne; omega)
      exact hmod (Nat.mod_eq_zero_of_dvd (by simpa [product_eq_prod] using hlast d rfl))

/-- A list finds a part of the array exactly where an innermost row begins. -/
theorem exists_isPart_iff : (∃ part, IsPart dims n part) ↔
    ¬ (dims.length ≤ 1 ∨ ∃ d, dims.getLast? = some d ∧ ¬ d ∣ n) := by
  constructor
  · rintro ⟨part, hpart⟩
    obtain ⟨es, d, rfl⟩ := List.eq_nil_or_concat part |>.resolve_left hpart.nonempty
    obtain ⟨ds, htail⟩ := hpart.suffix
    obtain ⟨c, rest, rfl⟩ : ∃ c rest, dims = c :: rest := List.exists_cons_of_ne_nil fun hnil => by
      simp [hnil] at htail
    rw [List.tail_cons] at htail
    subst htail
    have hdvd : d ∣ n := (List.dvd_prod (by simp)).trans (product_eq_prod _ ▸ hpart.begins)
    simp [← List.append_assoc, List.getLast?_cons, hdvd]
  · intro h
    obtain ⟨hrank, hlast⟩ := not_or.mp h
    obtain ⟨part, hpart⟩ := exists_subShape? (n := n) (not_le.mp hrank) fun d hd => by
      by_contra hnot
      exact hlast ⟨d, hd, hnot⟩
    exact ⟨part, subShape?_eq_some_iff.mp hpart⟩

theorem IsPart.eq {part' : List Nat} (h : IsPart dims n part) (h' : IsPart dims n part') :
    part = part' :=
  Option.some.inj ((subShape?_eq_some_iff.mpr h).symm.trans (subShape?_eq_some_iff.mpr h'))

/-! Lists that do not fit. -/

theorem Misfit.not_fills (h : Misfit dims n is) (hn : n ≤ product dims) :
    ¬ ∃ k, Fills dims n is k := by
  induction h with
  | overfull hover => exact absurd hn (not_le.mpr hover)
  | unaligned hnone =>
    rintro ⟨k, hfills⟩
    cases hfills with
    | list hpart _ _ _ => exact exists_isPart_iff.mp ⟨_, hpart⟩ hnone
  | inside hpart _ ih =>
    rintro ⟨k, hfills⟩
    cases hfills with
    | list hpart' helems _ _ =>
      obtain rfl := hpart.eq hpart'
      exact ih (Nat.zero_le _) ⟨_, helems⟩
  | behindExpr _ ih =>
    rintro ⟨k, hfills⟩
    cases hfills with
    | expr hroom hrest => exact ih hroom ⟨k, hrest⟩
  | behindList hpart _ ih =>
    rintro ⟨k, hfills⟩
    cases hfills with
    | list hpart' _ hroom hrest =>
      obtain rfl := hpart.eq hpart'
      exact ih hroom ⟨k, hrest⟩

theorem fills_or_misfit : ∀ (is : List Init) (dims : List Nat) (n : Nat), n ≤ product dims →
    (∃ k, Fills dims n is k) ∨ Misfit dims n is
  | [], _, n, _ => .inl ⟨n, .nil⟩
  | .expr e :: is, dims, n, _ => by
    by_cases hroom : n + 1 ≤ product dims
    · rcases fills_or_misfit is dims (n + 1) hroom with ⟨k, hk⟩ | hmis
      · exact .inl ⟨k, .expr hroom hk⟩
      · exact .inr (.behindExpr hmis)
    · exact .inr (.behindExpr (.overfull (not_le.mp hroom)))
  | .list span elems :: is, dims, n, _ => by
    by_cases hpart : ∃ part, IsPart dims n part
    · obtain ⟨part, hpart⟩ := hpart
      rcases fills_or_misfit elems part 0 (Nat.zero_le _) with ⟨j, hj⟩ | hmis
      · by_cases hroom : n + product part ≤ product dims
        · rcases fills_or_misfit is dims (n + product part) hroom with ⟨k, hk⟩ | hmis
          · exact .inl ⟨k, .list hpart hj hroom hk⟩
          · exact .inr (.behindList hpart hmis)
        · exact .inr (.behindList hpart (.overfull (not_le.mp hroom)))
      · exact .inr (.inside hpart hmis)
    · exact .inr (.unaligned (not_not.mp (exists_isPart_iff.not.mp hpart)))

theorem flatten_error_iff (dims : List Nat) (i : Init) : (∃ e, flatten dims i = .error e) ↔
    (∀ span elems, i ≠ .list span elems) ∨ ∃ span elems, i = .list span elems ∧
    Misfit dims 0 elems := by
  have hfits : (∃ e, flatten dims i = .error e) ↔ ¬ FitsShape dims i := by
    rcases flatten_cases dims i with ⟨herror, hnot⟩ | ⟨cells, hok, hfits, -⟩
    · exact iff_of_true herror hnot
    · exact iff_of_false (by simp [hok]) (not_not.mpr hfits)
  rw [hfits]
  cases i with
  | expr e => exact iff_of_true (by simp [FitsShape]) (.inl (by simp))
  | list span elems =>
    have hmisfit : ¬ (∃ k, Fills dims 0 elems k) ↔ Misfit dims 0 elems :=
      ⟨fun h => (fills_or_misfit elems dims 0 (Nat.zero_le _)).resolve_left h,
        fun h => h.not_fills (Nat.zero_le _)⟩
    simp [FitsShape, ← hmisfit]

/-! Steps of laying out. -/

theorem placeElems_cons_ok (h : placeElems dims out (i :: is) = .ok cells) :
    ∃ first, placeElem dims out i = .ok first ∧ first.size ≤ product dims ∧
    placeElems dims first is = .ok cells := by
  rw [placeElems] at h
  simp only [bind, Except.bind] at h
  split at h
  · cases h
  · rename_i first hfirst
    split at h
    · cases h
    · exact ⟨first, hfirst, not_lt.mp ‹_›, h⟩

theorem placeElems_append_ok {before after : List Init}
    (h : placeElems dims out (before ++ after) = .ok cells) :
    ∃ mid, placeElems dims out before = .ok mid ∧ placeElems dims mid after = .ok cells := by
  induction before generalizing out with
  | nil => exact ⟨out, by rw [placeElems], h⟩
  | cons i before ih =>
    obtain ⟨first, hfirst, hroom, hrest⟩ := placeElems_cons_ok h
    obtain ⟨mid, hmid, hafter⟩ := ih hrest
    refine ⟨mid, ?_, hafter⟩
    rw [placeElems, hfirst]
    exact (if_neg (not_lt.mpr hroom)).trans hmid

theorem placeElem_list_ok {span : Span} {elems : List Init}
    (h : placeElem dims out (.list span elems) = .ok cells) :
    ∃ part own, IsPart dims out.size part ∧ flatten part (.list span elems) = .ok own ∧
    cells = out ++ own := by
  rw [placeElem] at h
  split at h
  · cases h
  · rename_i part hpart
    simp only [bind, Except.bind, pure, Except.pure] at h
    split at h
    · cases h
    · rename_i inner hinner
      obtain rfl := Except.ok.inj h
      refine ⟨part, _, subShape?_eq_some_iff.mp hpart, ?_, Array.append_assoc⟩
      rw [flatten, hinner]
      rfl

theorem flatten_list_ok {span : Span} {elems : List Init}
    (h : flatten dims (.list span elems) = .ok cells) :
    ∃ inner, placeElems dims #[] elems = .ok inner ∧
      cells.toList = inner.toList ++ List.replicate (product dims - inner.size) none := by
  rw [flatten] at h
  simp only [bind, Except.bind, pure, Except.pure] at h
  split at h
  · cases h
  · rename_i inner hinner
    obtain rfl := Except.ok.inj h
    exact ⟨inner, hinner, by simp⟩

theorem prefix_placeElem (h : placeElem dims out i = .ok cells) :
    ∃ own, cells.toList = out.toList ++ own := by
  cases i with
  | expr e =>
    rw [placeElem] at h
    obtain rfl := Except.ok.inj h
    exact ⟨[some e], by simp⟩
  | list span elems =>
    obtain ⟨part, own, -, -, rfl⟩ := placeElem_list_ok h
    exact ⟨own.toList, by simp⟩

theorem prefix_placeElems (h : placeElems dims out is = .ok cells) :
    ∃ own, cells.toList = out.toList ++ own := by
  induction is generalizing out with
  | nil =>
    rw [placeElems] at h
    obtain rfl := Except.ok.inj h
    exact ⟨[], by simp⟩
  | cons i is ih =>
    obtain ⟨first, hfirst, -, hrest⟩ := placeElems_cons_ok h
    obtain ⟨own, hown⟩ := prefix_placeElem hfirst
    obtain ⟨more, hmore⟩ := ih hrest
    exact ⟨own ++ more, by rw [hmore, hown, List.append_assoc]⟩

mutual

theorem leaves_placeElem :
    ∀ {i : Init} {dims : List Nat} {out cells : Cells}, placeElem dims out i = .ok cells →
    cells.toList.filterMap id = out.toList.filterMap id ++ i.leaves
  | .expr e, dims, out, cells, h => by
    rw [placeElem] at h
    obtain rfl := Except.ok.inj h
    simp [Init.leaves]
  | .list span elems, dims, out, cells, h => by
    obtain ⟨part, own, -, hown, rfl⟩ := placeElem_list_ok h
    obtain ⟨inner, hinner, hcells⟩ := flatten_list_ok hown
    rw [Array.toList_append, List.filterMap_append, hcells, List.filterMap_append,
      leaves_placeElems hinner, Init.leaves]
    simp

theorem leaves_placeElems :
    ∀ {is : List Init} {dims : List Nat} {out cells : Cells}, placeElems dims out is = .ok cells →
    cells.toList.filterMap id = out.toList.filterMap id ++ Init.leavesOf is
  | [], dims, out, cells, h => by
    rw [placeElems] at h
    obtain rfl := Except.ok.inj h
    simp [Init.leavesOf]
  | i :: is, dims, out, cells, h => by
    obtain ⟨first, hfirst, -, hrest⟩ := placeElems_cons_ok h
    rw [leaves_placeElems hrest, leaves_placeElem hfirst, Init.leavesOf, List.append_assoc]

end

/-- Each list, on every level, is laid out in the cells of its part. -/
theorem reshapes_of_flatten (elems : List Init) {dims : List Nat} {span : Span} {cells : Cells}
    (hpos : ∀ d ∈ dims, 0 < d) (h : flatten dims (.list span elems) = .ok cells) :
    Reshapes dims elems cells.toList := by
  obtain ⟨inner, hinner, hcells⟩ := flatten_list_ok h
  have hroom := size_placeElems elems hinner (Nat.zero_le _)
  have hfills {is : List Init} {out : Cells} (hrun : placeElems dims #[] is = .ok out) :
    Fills dims 0 is out.toList.length :=
    (placeElems_ok_iff dims #[] is _).mp ⟨out, hrun, Array.length_toList.symm⟩
  rw [hcells]
  refine .intro (by rw [Array.length_toList]; omega) (hfills hinner) fun before i after hsplit => ?_
  rw [hsplit] at hinner
  obtain ⟨mid, hmid, hafter⟩ := placeElems_append_ok hinner
  obtain ⟨first, hfirst, -, hrest⟩ := placeElems_cons_ok hafter
  obtain ⟨more, hmore⟩ := prefix_placeElems hrest
  have hleaves : mid.toList.filterMap id = Init.leavesOf before := leaves_placeElems hmid
  rw [hmore, List.append_assoc]
  cases i with
  | expr e =>
    rw [placeElem] at hfirst
    obtain rfl := Except.ok.inj hfirst
    rw [Array.toList_push, List.append_assoc]
    exact .expr (hfills hmid) hleaves
  | list span' elems' =>
    obtain ⟨part, own, hpart, hown, rfl⟩ := placeElem_list_ok hfirst
    have hpart' : ∀ d ∈ part, 0 < d :=
      fun d hd => hpos d (List.mem_of_mem_tail (hpart.suffix.subset hd))
    have hsmaller : sizeOf elems' < sizeOf elems := by
      have := List.sizeOf_lt_of_mem (show Init.list span' elems' ∈ elems by simp [hsplit])
      simp at this
      omega
    rw [Array.toList_append]
    exact .list (hfills hmid) hleaves (Array.length_toList.symm ▸ hpart)
      (fun other hother hdvd => hpart.product_le hpos hother (Array.length_toList ▸ hdvd))
        (reshapes_of_flatten elems' hpart' hown)
termination_by sizeOf elems

mutual

theorem flaw_placeElem :
    ∀ {i : Init} {dims : List Nat} {out : Cells}, placeElem dims out i = .error e →
    e.flaw = .invalidInit
  | .expr _, dims, out, h => by
    rw [placeElem] at h
    cases h
  | .list span elems, dims, out, h => by
    rw [placeElem] at h
    split at h
    · cases h
      rfl
    · simp only [bind, Except.bind, pure, Except.pure] at h
      split at h
      · rename_i e' he'
        cases h
        exact flaw_placeElems he'
      · cases h

theorem flaw_placeElems :
    ∀ {is : List Init} {dims : List Nat} {out : Cells}, placeElems dims out is = .error e →
    e.flaw = .invalidInit
  | [], dims, out, h => by
    rw [placeElems] at h
    cases h
  | i :: is, dims, out, h => by
    rw [placeElems] at h
    simp only [bind, Except.bind] at h
    split at h
    · rename_i e' he'
      cases h
      exact flaw_placeElem he'
    · split at h
      · cases h
        rfl
      · exact flaw_placeElems h

end

theorem flaw_flatten (h : flatten dims i = .error e) : e.flaw = .invalidInit := by
  cases i with
  | expr x =>
    cases h
    rfl
  | list span elems =>
    rw [flatten] at h
    simp only [bind, Except.bind, pure, Except.pure] at h
    split at h
    · rename_i e' he'
      cases h
      exact flaw_placeElems he'
    · cases h

/-- An initialiser is rejected exactly if it is no list, or if a list in it finds no part of the
array or holds more than its part. Otherwise every list fills the first cells of the largest part
that can begin at its place. -/
theorem flatten_reshapes (dims : List Nat) (hpos : ∀ d ∈ dims, 0 < d) (i : Init) :
    ((∃ e, flatten dims i = .error e) ↔ (∀ span elems, i ≠ .list span elems) ∨
      ∃ span elems, i = .list span elems ∧ Misfit dims 0 elems) ∧
    (∀ e, flatten dims i = .error e → e.flaw = .invalidInit) ∧
    ∀ cells, flatten dims i = .ok cells →
      cells.size = product dims ∧ cells.toList.filterMap id = i.leaves ∧
      ∃ span elems, i = .list span elems ∧ Reshapes dims elems cells.toList := by
  refine ⟨flatten_error_iff dims i, fun e => flaw_flatten, fun cells h => ⟨size_flatten h, ?_⟩⟩
  cases i with
  | expr e => cases h
  | list span elems =>
    refine ⟨?_, span, elems, rfl, reshapes_of_flatten elems hpos h⟩
    obtain ⟨inner, hinner, hcells⟩ := flatten_list_ok h
    rw [hcells, List.filterMap_append, leaves_placeElems hinner, Init.leaves]
    simp

/-- `{1, 2, {3}, {{4}, 5}}`, for an array of three times two times two. -/
def rowsSample : Init :=
  .list {} [.expr (.lit {} 1), .expr (.lit {} 2), .list {} [.expr (.lit {} 3)],
    .list {} [.list {} [.expr (.lit {} 4)], .expr (.lit {} 5)]]

theorem flatten_reshapes_rowsSample :
    (∀ d ∈ [3, 2, 2], 0 < d) ∧ ∃ cells, flatten [3, 2, 2] rowsSample = .ok cells ∧
    cells.size = 12 ∧ cells.toList.filterMap id = [1, 2, 3, 4, 5].map (.lit {} ·) ∧
    ∃ span elems, rowsSample = .list span elems ∧ Reshapes [3, 2, 2] elems cells.toList := by
  have hpos : ∀ d ∈ [3, 2, 2], 0 < d := by decide
  obtain ⟨cells, hcells⟩ : ∃ cells, flatten [3, 2, 2] rowsSample = .ok cells :=
    exists_of_isOk (by decide +kernel)
  obtain ⟨-, -, hok⟩ := flatten_reshapes [3, 2, 2] hpos rowsSample
  exact ⟨hpos, cells, hcells, hok cells hcells⟩

end Static

end Sysy
