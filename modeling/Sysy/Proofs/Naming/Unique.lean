import Sysy.Proofs.Naming.Ownership
import Sysy.Proofs.Naming.Spelling

/-!
Every name in the text of a module is defined once. Each value is printed under one name wherever it
is mentioned; names are given in the order in which values are mentioned, and within a function no
two of them are equal, nor is one equal to the name of a global.
-/

namespace Sysy.Ir

namespace Printer
open Lowering

variable {m : Module} {s t s' : Names} {f : FuncId} {fn : Func} {id : ValueId}
  {taken : List (String × Nat)} {l : List Func}
  {scope : Scope Binding}

theorem spells_definition (hargs : ArgsOk m fn) :
    Spells m (definition m fn) (fn.mentions m) (m.funcText · fn) := by
  have hparam : ∀ q ∈ fn.args.zip fn.params,
      Spells m (param m q) [q.1] fun ν => ν q.1 ++ ": " ++ q.2.text := by
    rintro ⟨x, ty⟩ hq
    obtain ⟨v, i, hv, -⟩ := arg_of_mem hargs (List.of_mem_zip hq).1
    exact (Spells.nameOf (Module.bounds_of_value? hv).2).map (· ++ ": " ++ ty.text)
  have hmentions : fn.mentions m = (fn.args.zip fn.params).flatMap (fun q => [q.1]) ++
      fn.layout.toList.flatMap fun bb =>
        (((fn.block? bb).map (·.insts.toList)).getD []).flatMap m.instMentions := by
    rw [Func.mentions, Func.insts, List.flatMap_assoc, List.map_eq_flatMap]
  let head (params : List String) : String := "fun @" ++ fn.name ++ "(" ++
    String.intercalate ", " params ++ ")" ++ retText fn.ret ++ " \x7b\n"
  rw [hmentions]
  exact (Spells.mapM _ hparam).bind
    (b := fun params ν =>
      head params ++ String.join (fn.layout.toList.map (m.blockText ν fn)) ++ "\x7d\n")
    fun params => (Spells.mapM _ fun bb _ => Spells.block m fn bb).map
      (head params ++ String.join · ++ "\x7d\n")

theorem prints_func (hargs : ArgsOk m fn) (taken : List (String × Nat)) :
    Prints m (func m taken fn) (fn.mentions m) (m.funcText · fn) := by
  have hrestart : Prints m (modify fun s => { s with taken, next := 0 } : Print PUnit)
    [] fun _ => ⟨⟩ :=
    ⟨by simp, fun s h => h, fun s _ id n h => h, by simp, fun _ _ _ _ => rfl⟩
  exact hrestart.bind (b := fun _ ν => m.funcText ν fn) fun _ => (spells_definition hargs).toPrints

theorem spells_global (h : GlobalOk m id) : Spells m (global m id) [id] (m.globalText · id) := by
  obtain ⟨v, init, ds, ws, hv, hnode, -, -, hholds⟩ := h
  have huse : Spells m (use m init) [] (m.useText · init) := by
    rw [← operandMentions_of_holds (m.values.size + 1) hholds]
    exact Spells.use m init
  have hnode' := Module.node?_eq hv
  rw [hnode] at hnode'
  have htext : (m.globalText · id) = fun ν => "global " ++ ν id ++ " = alloc " ++
      (m.tyOf id).elem.text ++ ", " ++ m.useText ν init ++ "\n" := by
    funext ν
    rw [Module.globalText, hnode']
  rw [htext]
  let head (n : String) : String := "global " ++ n ++ " = alloc " ++ (m.tyOf id).elem.text ++ ", "
  refine (Spells.nameOf (Module.bounds_of_value? hv).2).bind
    (b := fun n ν => head n ++ m.useText ν init ++ "\n") fun n => ?_
  rw [hnode']
  exact huse.map (head n ++ · ++ "\n")

theorem tracks_nil (m : Module) :
    Tracks m [] [] { given := Array.replicate (m.values.size + 1) none } where
  fits := Array.size_replicate ..
  named := by simp
  taken n := by simp [count]
  tidy base j _ hlt := by simp [count] at hlt
  next := rfl
  numbered := by simp
  worded := by simp
  distinct := by simp

/-- The names of a function start over from those of the globals. -/
theorem Tracks.restart {globals : List ValueId} (h : Tracks m [] globals s)
    (hbase : ∀ x ∈ globals, m.baseName? x ≠ none) (hfits : s'.Fits m)
    (hname : ∀ x ∈ globals, s'.name? x = s.name? x) :
    Tracks m globals [] { s' with taken := s.taken, next := 0 } where
  fits := hfits
  named x hx := by
    rw [List.append_nil] at hx
    obtain ⟨n, hn⟩ := h.named x hx
    exact ⟨n, (hname x hx).trans hn⟩
  taken n := by
    refine (h.taken n).trans (exists_congr fun x => ?_)
    rw [List.append_nil, List.nil_append]
    exact and_congr_right fun hx => and_congr_right fun _ => by rw [← hname x hx]; rfl
  tidy := h.tidy
  next := rfl
  numbered x hx hnone := absurd hnone (hbase x (by simpa using hx))
  worded x hx hsome k := by
    rw [List.append_nil] at hx
    exact fun heq => h.worded x hx hsome k ((hname x hx).symm.trans heq)
  distinct x hx y hy heq := by
    rw [List.append_nil] at hx hy
    exact h.distinct x hx y hy ((hname x hx).symm.trans (heq.trans (hname y hy)))

def NamedFrom (m : Module) (fn : Func) (s : Names) : Prop :=
  ∃ r, Tracks m m.globals.toList [] r ∧ (∀ id ∈ fn.mentions m, id ∉ m.globals.toList →
    r.name? id = none) ∧
    ∀ x n, (nameAll m (fn.mentions m) r).name? x = some n → s.name? x = some n

variable {s₁ : Names}

theorem namedFrom_funcs (hm : Sound m) (h₁ : Tracks m [] m.globals.toList s₁)
    (hbase : ∀ x ∈ m.globals.toList, m.baseName? x ≠ none) (l : List Func) : ∀ {s : Names},
    (∀ fn ∈ l, ∃ f, Finished m f fn) → l.Pairwise (fun fn gn => fn.id ≠ gn.id) → s.Fits m →
    (∀ x ∈ m.globals.toList, s.name? x = s₁.name? x) →
    (∀ fn ∈ l, ∀ id ∈ fn.mentions m, id ∉ m.globals.toList → s.name? id = none) →
    ∀ fn ∈ l, NamedFrom m fn (l.mapM (func m s₁.taken) s).2 := by
  induction l with
  | nil => simp
  | cons fn l ih =>
    intro s hfins hids hs hglobals hfresh gn hgn
    obtain ⟨f, hfin⟩ := hfins fn (List.mem_cons_self ..)
    obtain ⟨hids, hidsl⟩ := List.pairwise_cons.mp hids
    obtain ⟨hident, hargs, -⟩ := hm.funcs f fn hfin.found
    let r : Names := { s with taken := s₁.taken, next := 0 }
    have hr : Tracks m m.globals.toList [] r := h₁.restart hbase hs hglobals
    have hwithin : ∀ id ∈ fn.mentions m, id ≤ m.values.size := (spells_definition hargs).within
    have hstate : (func m s₁.taken fn s).2 = nameAll m (fn.mentions m) r :=
      (spells_definition hargs).order r
    have hkeeps : ∀ x n, s.name? x = some n → (func m s₁.taken fn s).2.name? x = some n :=
      (prints_func hargs _).keeps s hs
    have hrest : Prints m (l.mapM (func m s₁.taken)) (l.flatMap (Func.mentions m))
        fun ν => l.map (m.funcText ν) := Prints.mapM l fun gn hgn => by
      obtain ⟨g, hg⟩ := hfins gn (List.mem_cons_of_mem _ hgn)
      exact prints_func (hm.funcs g gn hg.found).2.1 _
    have hfits := (prints_func hargs s₁.taken).fits s hs
    have hlast : ((fn :: l).mapM (func m s₁.taken) s).2 =
      (l.mapM (func m s₁.taken) (func m s₁.taken fn s).2).2 := by
      rw [List.mapM_cons]
      rfl
    rw [hlast]
    rcases List.mem_cons.mp hgn with rfl | hgn
    · exact ⟨r, hr, hfresh gn (List.mem_cons_self ..), fun x n hn => hrest.keeps _ hfits x n
        (by rw [hstate]; exact hn)⟩
    · refine ih (fun gn hgn => hfins gn (List.mem_cons_of_mem _ hgn)) hidsl hfits (fun x hx => ?_)
        (fun gn hgn id hid hnot => ?_) gn hgn
      · obtain ⟨n, hn⟩ := h₁.named x hx
        rw [hn]
        exact hkeeps x n ((hglobals x hx).trans hn)
      · obtain ⟨g, hg⟩ := hfins gn (List.mem_cons_of_mem _ hgn)
        have hne : g ≠ f := by
          rintro rfl
          exact hids gn hgn (hident.trans (hm.funcs g gn hg.found).1.symm)
        have hother : id ∉ fn.mentions m := fun hmem =>
          hnot ((owned_of_mentions hm hg hid).global (owned_of_mentions hm hfin hmem) hne)
        rw [hstate, name?_nameAll_of_notMem hwithin hr.fits hother]
        exact hfresh gn (List.mem_cons_of_mem _ hgn) id hid hnot

def afterGlobals (m : Module) : Names :=
  (m.globals.toList.mapM (global m) { given := Array.replicate (m.values.size + 1) none }).2

def afterFuncs (m : Module) : Names :=
  (m.defined.mapM (func m (afterGlobals m).taken) (afterGlobals m)).2

def nameIn (m : Module) (id : ValueId) : String := ((afterFuncs m).name? id).getD ""

theorem spells_globals (h : Sound m) :
    Spells m (m.globals.toList.mapM (global m)) m.globals.toList
      fun ν => m.globals.toList.map (m.globalText ν) := by
  have hglobals := Spells.mapM (g := fun id => [id]) m.globals.toList fun id hid =>
    spells_global (h.globals id (Array.mem_toList_iff.mp hid))
  rwa [← List.map_eq_flatMap, List.map_id'] at hglobals

theorem prints_funcs (h : Sound m) (taken : List (String × Nat)) :
    Prints m (m.defined.mapM (func m taken)) (m.defined.flatMap (Func.mentions m))
      fun ν => m.defined.map (m.funcText ν) :=
  Prints.mapM m.defined fun fn hfn => by
    obtain ⟨f, hfin⟩ := Assembly.exists_finished h hfn
    exact prints_func (h.funcs f fn hfin.found).2.1 taken

theorem prints_sections (h : Sound m) : Prints m (sections m)
    (m.globals.toList ++ m.defined.flatMap (Func.mentions m)) m.sectionTexts := by
  let first : List String := if m.declText = "" then [] else [m.declText]
  let second (globals : List String) : List String :=
    if globals.isEmpty then [] else [String.join globals]
  refine (spells_globals h).toPrints.bind
    (b := fun globals ν => first ++ second globals ++ m.defined.map (m.funcText ν))
      fun globals => ?_
  refine .get_bind fun s => ?_
  rw [← List.append_nil (m.defined.flatMap _)]
  exact (prints_funcs h s.taken).bind (b :=
    fun funcs _ => first ++ second globals ++ funcs) fun funcs =>
    .pure m _

theorem afterFuncs_keeps (h : Sound m) {x : ValueId} {n : String}
    (hn : (afterGlobals m).name? x = some n) :
    (afterFuncs m).name? x = some n :=
  (prints_funcs h _).keeps _ ((spells_globals h).fits _ (tracks_nil m).fits) x n hn

theorem name?_nameIn {x : ValueId} {n : String} (hn : (afterFuncs m).name? x = some n) :
    (afterFuncs m).name? x = some (nameIn m x) := by
  rw [nameIn, hn, Option.getD_some]

theorem tracks_globals (h : Sound m) (hplain : m.Plain) :
    Tracks m [] m.globals.toList (afterGlobals m) := by
  rw [afterGlobals, (spells_globals h).order]
  exact (tracks_nil m).nameAll hplain (by simp) (spells_globals h).within fun id hid _ => by
    have hle := (spells_globals h).within id hid
    simp [Names.name?, Array.getD_eq_getD_getElem?, Nat.lt_succ_of_le hle]

theorem text_eq_textUnder (h : Sound m) : m.text = m.textUnder (nameIn m) := by
  have hs : ({ given := Array.replicate (m.values.size + 1) none } : Names).Fits m :=
    (tracks_nil m).fits
  refine congrArg (String.intercalate "\n")
    ((prints_sections h).reads _ (nameIn m) hs fun id hid => ?_)
  obtain ⟨n, hn⟩ := (prints_sections h).named _ hs id hid
  exact name?_nameIn hn

theorem baseName?_global (h : Ready ⟨m, scope⟩) {x : ValueId} (hx : x ∈ m.globals.toList) :
    ∃ name c, (name, .var x c) ∈ scope.outermost ∧ m.baseName? x = some ("@" ++ name) := by
  obtain ⟨name, c, v, hmem, hv, hname⟩ := h.listed.vars x (Array.mem_toList_iff.mp hx)
  exact ⟨name, c, hmem, by simp [Module.baseName?, hv, Value.baseName?, hname]⟩

theorem globals_have_names (h : Ready ⟨m, scope⟩) :
    ∀ x ∈ m.globals.toList, m.baseName? x ≠ none := by
  intro x hx
  obtain ⟨name, c, -, hbase⟩ := baseName?_global h hx
  simp [hbase]

end Printer

open Lowering Printer

theorem Printer.NamedFrom.names {m : Module} {fn : Func} {f : FuncId}
    (h : NamedFrom m fn (afterFuncs m)) (hm : Sound m) (hfin : Finished m f fn) (hplain : m.Plain)
    (hbase : ∀ x ∈ m.globals.toList, m.baseName? x ≠ none) :
    m.Named (nameIn m) m.globals.toList (fn.mentions m) ∧
      (∀ id ∈ m.globals.toList ++ fn.mentions m, ∀ x ∈ m.globals.toList ++ fn.mentions m,
        nameIn m id = nameIn m x → id = x) ∧
      ∀ id ∈ m.globals.toList ++ fn.mentions m,
        m.baseName? id = none ↔ ∃ k : Nat, nameIn m id = "%" ++ toString k := by
  obtain ⟨r, hr, hfresh, hnames⟩ := h
  have hwithin : ∀ id ∈ fn.mentions m, id ≤ m.values.size :=
    fun id hid => (owned_of_mentions hm hfin hid).le hm
  have htracks := hr.nameAll hplain hbase hwithin hfresh
  have hν : ∀ x ∈ m.globals.toList ++ fn.mentions m, (nameAll m (fn.mentions m) r).name? x =
    some (nameIn m x) := by
    intro x hx
    obtain ⟨n, hn⟩ := htracks.named x hx
    have hlast := hnames x n hn
    rw [hn, ← hlast, name?_nameIn hlast]
  refine ⟨hr.namedAll hplain hbase hwithin hfresh hν, fun id hid x hx heq => ?_,
    fun id hid => ⟨fun hnone => ?_, ?_⟩⟩
  · exact htracks.distinct id hid x hx (by rw [hν id hid, hν x hx, heq])
  · obtain ⟨k, -, hk⟩ := htracks.numbered id hid hnone
    exact ⟨k, Option.some.inj ((hν id hid).symm.trans hk)⟩
  · rintro ⟨k, hk⟩
    by_contra hsome
    exact htracks.worded id hid hsome k (by rw [hν id hid, hk])

theorem Printer.named_globals {m : Module} (hm : Sound m) (hplain : m.Plain) :
    m.Named (nameIn m) [] m.globals.toList := by
  refine (tracks_nil m).namedAll hplain (by simp) (spells_globals hm).within (fun id hid _ => ?_)
    fun x hx => ?_
  · simp [Names.name?, Array.getD_eq_getD_getElem?,
      Nat.lt_succ_of_le ((spells_globals hm).within id hid)]
  · obtain ⟨n, hn⟩ := (tracks_globals hm hplain).named x hx
    have hlast := afterFuncs_keeps hm hn
    rw [← (spells_globals hm).order, ← name?_nameIn hlast, hlast]
    exact hn

/-- The values of a function are named in the order in which they are mentioned. -/
theorem Printer.named_mentions {m : Module} {fn : Func} {scope : Scope Binding}
    (hready : Ready ⟨m, scope⟩) (hplain : m.Plain) (hfn : fn ∈ m.defined) :
    m.Named (nameIn m) m.globals.toList (fn.mentions m) ∧
      (∀ id ∈ m.globals.toList ++ fn.mentions m, ∀ x ∈ m.globals.toList ++ fn.mentions m,
        nameIn m id = nameIn m x → id = x) ∧
      ∀ id ∈ m.globals.toList ++ fn.mentions m,
        m.baseName? id = none ↔ ∃ k : Nat, nameIn m id = "%" ++ toString k := by
  have hm := hready.sound
  have hbase := globals_have_names hready
  have hglobals := tracks_globals hm hplain
  have hfuncs := namedFrom_funcs hm hglobals hbase m.defined
    (fun fn hfn => Assembly.exists_finished hm hfn) (pairwise_ids hm)
    hglobals.fits (fun _ _ => rfl) fun fn hfn id hid hnot => ?_
  · obtain ⟨f, hfin⟩ := Assembly.exists_finished hm hfn
    exact (hfuncs fn hfn).names hm hfin hplain hbase
  · -- nothing but the globals has a name before the first function
    obtain ⟨f, hfin⟩ := Assembly.exists_finished hm hfn
    have hle := (owned_of_mentions hm hfin hid).le hm
    rw [afterGlobals, (spells_globals hm).order, name?_nameAll_of_notMem (spells_globals hm).within
      (tracks_nil m).fits hnot]
    simp [Names.name?, Array.getD_eq_getD_getElem?, Nat.lt_succ_of_le hle]

/-- Every name in the text of a module is defined once. A value is printed under one name wherever
it is mentioned: the one it asks for, with the smallest number that makes it new, or the number of
unnamed values before it. -/
theorem names_unique :
    (∀ file content, (parse file 0 (lexemes file content)).errors = 0 →
      (parse file 0 (lexemes file content)).program.Spelled) ∧
    ∀ (p : Program) (m : Module), p.Spelled → p.lower = .ok m → ∃ ν : ValueId → String,
      m.text = m.textUnder ν ∧ m.Named ν [] m.globals.toList ∧
      ∀ fn ∈ m.defined,
        m.Named ν m.globals.toList (fn.mentions m) ∧
        (∀ id ∈ m.globals.toList ++ fn.mentions m, ∀ x ∈ m.globals.toList ++ fn.mentions m,
          ν id = ν x → id = x) ∧
        (∀ id ∈ m.globals.toList ++ fn.mentions m,
          m.baseName? id = none ↔ ∃ k : Nat, ν id = "%" ++ toString k) ∧
        (∀ id ∈ fn.definitions m, id ∈ fn.mentions m) ∧
        ((m.globals.toList ++ fn.definitions m).map ν).Nodup := by
  refine ⟨fun _ _ => Parser.spelled_of_parse, fun p m hp hlower => ⟨nameIn m, ?_⟩⟩
  obtain ⟨scope, hready⟩ := ready_of_lower hlower
  have hm := hready.sound
  have hplain := (spelled_of_lower hp hlower).plain
  refine ⟨text_eq_textUnder hm, named_globals hm hplain, fun fn hfn => ?_⟩
  obtain ⟨f, hfin⟩ := Assembly.exists_finished hm hfn
  obtain ⟨hnamed, hdistinct, hnumbers⟩ := named_mentions hready hplain hfn
  have hmentioned : ∀ id ∈ fn.definitions m, id ∈ fn.mentions m :=
    fun id => mem_mentions_of_definitions hm hfin
  refine ⟨hnamed, hdistinct, hnumbers, hmentioned, ?_⟩
  have hsub : ∀ id ∈ m.globals.toList ++ fn.definitions m, id ∈ m.globals.toList ++ fn.mentions m :=
    fun id hid =>
    List.mem_append.mpr ((List.mem_append.mp hid).imp_right (hmentioned id))
  exact (nodup_definitions hm hready.listed.globals hfin).map_on fun id hid x hx heq =>
    hdistinct id (hsub id hid) x (hsub x hx) heq

/-- Names that clash: `int a_1, a; int f(int ret, int a) { int arg0 = 1, a_1; return a; }`. -/
def clashSample : Program where
  span := {}
  items := [
    .decl {} { isConst := false, defs := [⟨"a_1", {}, [], none⟩, ⟨"a", {}, [], none⟩] },
    .func {} {
      name := "f", nameSpan := {}, isVoid := false, bodySpan := {}, params :=
        [⟨"ret", {}, none⟩, ⟨"a", {}, none⟩]
      body := [.decl {}
        { isConst := false,
          defs := [⟨"arg0", {}, [], some (.expr (.lit {} 1))⟩, ⟨"a_1", {}, [], none⟩] },
        .ret {} (some (.lval {} "a" []))] }]

/-- The slots of `ret`, of `arg0` and of the local `a_1` get numbers. -/
def clashText : String :=
  "decl @getint(): i32\ndecl @getch(): i32\ndecl @getarray(*i32): i32\ndecl @putint(i32)\n" ++
  "decl @putch(i32)\ndecl @putarray(i32, *i32)\ndecl @starttime()\ndecl @stoptime()\n\n" ++
  "global @a_1 = alloc i32, zeroinit\nglobal @a = alloc i32, zeroinit\n\n" ++
  "fun @f(@arg0: i32, @arg1: i32): i32 \x7b\n%entry_1:\n" ++
  "  %ret = alloc i32\n  %ret_1 = alloc i32\n  store @arg0, %ret_1\n  %a = alloc i32\n" ++
  "  store @arg1, %a\n  @arg0_1 = alloc i32\n  @a_1_1 = alloc i32\n  jump %bb_3\n%bb_3:\n" ++
  "  store 1, @arg0_1\n  %0 = load %a\n  store %0, %ret\n  jump %end_2\n%end_2:\n" ++
  "  %1 = load %ret\n  ret %1\n\x7d\n"

theorem names_unique_clashSample : ∃ m ν, clashSample.Spelled ∧ clashSample.lower = .ok m ∧
    m.text = clashText ∧ m.textUnder ν = clashText ∧ m.defined.length = 1 ∧
    ∀ fn ∈ m.defined, ((m.globals.toList ++ fn.definitions m).map ν).Nodup := by
  have hspelled : clashSample.Spelled := by
    intro span d hitem prm hprm
    simp only [clashSample, List.mem_cons, reduceCtorEq, Item.func.injEq,
      List.not_mem_nil, or_false,
      false_or] at hitem
    obtain ⟨-, rfl⟩ := hitem
    simp only [List.mem_cons, List.not_mem_nil, or_false] at hprm
    rcases hprm with rfl | rfl
    · exact ne_toString (by decide : 'r' ∈ "ret".toList) (by decide)
    · exact ne_toString (by decide : 'a' ∈ "a".toList) (by decide)
  obtain ⟨m, hm⟩ : ∃ m, clashSample.lower = .ok m := exists_of_isOk (by decide +kernel)
  have hprinted : clashSample.lower.toOption.map (fun m => (m.text, m.defined.length)) =
      some (clashText, 1) := by decide +kernel
  rw [hm] at hprinted
  obtain ⟨htext, hdefined⟩ := Prod.mk.inj (Option.some.inj hprinted)
  obtain ⟨ν, hnames, -, hfuncs⟩ := names_unique.2 clashSample m hspelled hm
  exact ⟨m, ν, hspelled, hm, htext, hnames.symm.trans htext, hdefined, fun fn hfn =>
    (hfuncs fn hfn).2.2.2.2⟩

end Sysy.Ir
