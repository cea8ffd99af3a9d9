import Sysy.Build
import Sysy.Proofs.Paths.Routes

/-!
When inputs of a build share an output.

The check before a build compares the outputs as clean texts and does not know the working
directory. Main statement: it refuses exactly the requests with no input and those where two
comparable outputs are at one place, without a request to the host. Outputs in a given directory are
all comparable; next to the inputs, one at the root and one that is not are never, and may be the
same file.
-/

namespace Sysy.BuildRequest
open Sysy.Path
variable {q : BuildRequest} {files : List String} {owners : List (String × String)}

/-- Where the output for an input is, seen from a working directory. -/
def location (q : BuildRequest) (cwd input : String) : String := locate cwd (q.outputFor input)

/-- The outputs for two inputs can be told apart without the working directory. -/
def Comparable (q : BuildRequest) (a b : String) : Prop :=
  Path.Comparable (q.outputFor a) (q.outputFor b)

/-! What an output is called. -/

theorem dropEnding_prefix (s ending : List Char) : dropEnding s ending <+: s := by
  unfold dropEnding
  split
  · exact List.take_prefix _ _
  · exact List.prefix_refl s

theorem baseChars_eq (p : List Char) : baseChars p = ['/'] ∨ '/' ∉ baseChars p := by
  rcases p with _ | ⟨c, p⟩
  · exact .inr (by decide)
  · rw [baseChars]
    split
    · exact .inl rfl
    · refine .inr fun h => ?_
      have hslash := List.all_eq_true.mp List.all_takeWhile _ (List.mem_reverse.mp h)
      exact absurd hslash (by decide)

theorem isName_extension {s : List Char} (hs : '/' ∉ s) (e : Emit) :
    IsName (s ++ e.extension.toList) := by
  have hextension : e.extension = ".koopa" ∨ e.extension = ".S" := by
    rw [Emit.extension]
    split
    · exact .inl rfl
    · exact .inr rfl
  obtain ⟨c, hc, hdot⟩ : ∃ c ∈ e.extension.toList, c ≠ '.' := by
    rcases hextension with h | h <;> rw [h]
    · exact ⟨'k', by decide, by decide⟩
    · exact ⟨'S', by decide, by decide⟩
  have hslash : '/' ∉ e.extension.toList := by
    rcases hextension with h | h <;> rw [h] <;> decide
  have hmem : c ∈ s ++ e.extension.toList := List.mem_append_right s hc
  constructor
  · exact List.ne_nil_of_mem hmem
  · intro h
    rw [h, List.mem_singleton] at hmem
    exact hdot hmem
  · intro h
    rw [h] at hmem
    exact hdot (by simpa using hmem)
  · intro h
    rcases List.mem_append.mp h with h | h
    · exact hs h
    · exact hslash h

theorem exists_outputFor (h : q.output = "") (input : String) :
    ∃ name n, q.outputFor input = join [if q.outDir ≠ "" then q.outDir else dir input, name] ∧
      ∀ w : Route, w.follow (split name.toList) = { w with names := n :: w.names } := by
  have hjoin : q.outputFor input = join [if q.outDir ≠ "" then q.outDir else dir input,
      String.ofList (dropEnding (baseChars input.toList) (extensionChars input.toList)) ++
        q.emit.orDefault.extension] := by
    rw [outputFor, outputPath, if_neg (not_not_intro h)]
  generalize hstem : dropEnding (baseChars input.toList) (extensionChars input.toList) =
    stem at hjoin
  have hfront : stem <+: baseChars input.toList := hstem ▸ dropEnding_prefix _ _
  -- at the root there is an empty element before the name
  have hsplit : ∃ s, '/' ∉ s ∧ (stem = s ∨ stem = '/' :: s) := by
    rcases baseChars_eq input.toList with hbase | hbase
    · rw [hbase] at hfront
      rcases List.prefix_cons_iff.mp hfront with rfl | ⟨t, rfl, ht⟩
      · exact ⟨[], List.not_mem_nil, .inl rfl⟩
      · rw [List.prefix_nil.mp ht]
        exact ⟨[], List.not_mem_nil, .inr rfl⟩
    · exact ⟨stem, fun hslash => hbase (hfront.subset hslash), .inl rfl⟩
  obtain ⟨s, hs, hstem⟩ := hsplit
  have hname := isName_extension hs q.emit.orDefault
  refine ⟨_, _, hjoin, fun w =>
    (?_ : _ = { w with names := (s ++ q.emit.orDefault.extension.toList) :: w.names })⟩
  rw [String.toList_append, String.toList_ofList, ← Route.push_name hname]
  rcases hstem with rfl | rfl
  · rw [split_of_no_slash hname.no_slash, Route.follow_single]
  · rw [List.cons_append, split_slash, split_of_no_slash hname.no_slash]
    rfl

theorem join_name {d name : String} {n : List Char} (hd : d ≠ "")
    (hname : ∀ w : Route, w.follow (split name.toList) = { w with names := n :: w.names }) :
    isAbsolute (join [d, name]) = isAbsolute d ∧
      (isAbsolute d = false → climbs (join [d, name]) = climbs d) := by
  have hd' : d.toList ≠ [] := fun h => hd (String.toList_eq_nil_iff.mp h)
  obtain ⟨hrooted, hroute⟩ := rooted_route_cleanChars (d.toList ++ '/' :: name.toList)
  rw [rooted_append hd'] at hrooted
  rw [join_pair hd]
  refine ⟨?_, fun hrelative => ?_⟩
  · show rooted (String.ofList _).toList = _
    rw [String.toList_ofList]
    exact hrooted
  · have hseen : rooted d.toList = false := hrelative
    rw [climbs, String.toList_ofList, hroute, shown, rooted_append hd', route_append, hname, hseen]
    rfl

theorem dir_ne_empty (input : String) : dir input ≠ "" := by
  intro h
  have hnil : (dir input).toList = [] := String.toList_eq_nil_iff.mpr h
  rw [dir, String.toList_ofList] at hnil
  exact cleanChars_ne_nil _ hnil

/-- Outputs can be compared as their directories can. -/
theorem comparable_iff (h : q.output = "") (a b : String) : q.Comparable a b ↔
    Path.Comparable (if q.outDir ≠ "" then q.outDir else dir a)
      (if q.outDir ≠ "" then q.outDir else dir b) := by
  have hdir (input : String) : (if q.outDir ≠ "" then q.outDir else dir input) ≠ "" := by
    split
    · assumption
    · exact dir_ne_empty input
  obtain ⟨name, n, ha, hname⟩ := exists_outputFor h a
  obtain ⟨name', n', hb, hname'⟩ := exists_outputFor h b
  obtain ⟨hkind, hclimbs⟩ := join_name (hdir a) hname
  obtain ⟨hkind', hclimbs'⟩ := join_name (hdir b) hname'
  rw [Comparable, ha, hb, Path.Comparable, Path.Comparable, hkind, hkind']
  refine and_congr_right fun hsame => forall_congr' fun hrelative => ?_
  rw [hclimbs hrelative, hclimbs' (hsame ▸ hrelative)]

/-! The check. -/

theorem collision?_none_iff : q.collision? owners files = none ↔
    (∀ f ∈ files, owners.lookup (clean (q.outputFor f)) = none) ∧
      files.Pairwise fun a b => clean (q.outputFor a) ≠ clean (q.outputFor b) := by
  induction files generalizing owners with
  | nil => exact iff_of_true rfl ⟨fun f hf => absurd hf List.not_mem_nil, .nil⟩
  | cons f files ih =>
    rw [collision?, List.forall_mem_cons, List.pairwise_cons]
    cases howner : owners.lookup (clean (q.outputFor f)) with
    | some owner => exact iff_of_false nofun fun h => nomatch h.1.1
    | none =>
      have hlookup (g : String) : ((clean (q.outputFor f), f) :: owners).lookup
        (clean (q.outputFor g)) = none ↔
          clean (q.outputFor f) ≠ clean (q.outputFor g) ∧
            owners.lookup (clean (q.outputFor g)) = none := by
        rw [List.lookup_cons]
        by_cases hsame : clean (q.outputFor f) = clean (q.outputFor g)
        · rw [hsame, beq_self_eq_true]
          exact iff_of_false nofun fun h => h.1 rfl
        · rw [beq_false_of_ne (Ne.symm hsame)]
          exact (and_iff_right hsame).symm
      simp only [ih, hlookup, forall_and]
      tauto

theorem eq_of_collision? {e : BuildError} (h : q.collision? owners files = some e) :
    ∃ a b, e = .collision a b (clean (q.outputFor b)) ∧ b ∈ files ∧
      ((clean (q.outputFor b), a) ∈ owners ∨ [a, b].Sublist files ∧ clean (q.outputFor a) =
        clean (q.outputFor b)) := by
  induction files generalizing owners with
  | nil => cases h
  | cons f files ih =>
    rw [collision?] at h
    cases howner : owners.lookup (clean (q.outputFor f)) with
    | some owner =>
      rw [howner] at h
      obtain rfl := Option.some.inj h
      obtain ⟨front, back, rfl, -⟩ := List.lookup_eq_some_iff.mp howner
      exact ⟨owner, f, rfl, List.mem_cons_self,
        .inl (List.mem_append_right front List.mem_cons_self)⟩
    | none =>
      rw [howner] at h
      obtain ⟨a, b, he, hb, hshared⟩ := ih h
      refine ⟨a, b, he, List.mem_cons_of_mem f hb, ?_⟩
      rcases hshared with hmem | ⟨hsub, hsame⟩
      · rcases List.mem_cons.mp hmem with heq | hmem
        · obtain ⟨hsame, rfl⟩ := Prod.mk.inj heq
          exact .inr ⟨(List.singleton_sublist.mpr hb).cons_cons a, hsame.symm⟩
        · exact .inl hmem
      · exact .inr ⟨hsub.cons f, hsame⟩

theorem fault?_none_iff : q.fault? = none ↔
    q.files ≠ [] ∧ q.files.Pairwise fun a b => clean (q.outputFor a) ≠ clean (q.outputFor b) := by
  rw [fault?]
  by_cases hnone : q.files = []
  · rw [if_pos (List.isEmpty_iff.mpr hnone)]
    exact iff_of_false nofun fun h => h.1 hnone
  rw [if_neg fun h => hnone (List.isEmpty_iff.mp h)]
  split
  · -- an output that is given is that of every input
    rename_i hgiven
    obtain ⟨a, b, files, hfiles⟩ : ∃ a b files, q.files = a :: b :: files := by
      rcases hq : q.files with _ | ⟨a, _ | ⟨b, files⟩⟩
      · exact absurd hq hnone
      · rw [hq] at hgiven
        exact absurd hgiven.2 (Nat.lt_irrefl 1)
      · exact ⟨a, b, files, rfl⟩
    have hout (f : String) : q.outputFor f = q.output := if_pos hgiven.1
    refine iff_of_false nofun fun h => ?_
    rw [hfiles] at h
    exact List.rel_of_pairwise_cons h.2 List.mem_cons_self (by rw [hout, hout])
  · rw [collision?_none_iff]
    simp [hnone]

theorem collision_of_fault? {a b out : String} (h : q.fault? = some (.collision a b out)) :
    [a, b].Sublist q.files ∧ clean (q.outputFor a) = out ∧ clean (q.outputFor b) = out := by
  rw [fault?] at h
  split at h
  · cases h
  · split at h
    · cases h
    · obtain ⟨a', b', he, -, hshared⟩ := eq_of_collision? h
      obtain ⟨rfl, rfl, rfl⟩ := BuildError.collision.inj he
      obtain ⟨hsub, hsame⟩ := hshared.resolve_left List.not_mem_nil
      exact ⟨hsub, hsame, rfl⟩

/-- The check before a build refuses the requests without an input and those where two outputs that
can be compared are at one place, wherever the build runs. -/
theorem outputs_apart (q : BuildRequest) {cwd : String} (hcwd : isAbsolute cwd = true) :
    (q.fault? = none ↔ q.files ≠ [] ∧ q.files.Pairwise fun a b =>
      q.Comparable a b → q.location cwd a ≠ q.location cwd b) ∧
    (∀ e, q.fault? = some e → build q = pure { error := some e }) ∧
    (∀ a b out, q.fault? = some (.collision a b out) →
      [a, b].Sublist q.files ∧ q.Comparable a b ∧ q.location cwd a = q.location cwd b) ∧
    (q.outDir ≠ "" → ∀ a b, q.Comparable a b) ∧
    (q.output = "" → q.outDir = "" →
      ∀ a b, q.Comparable a b ↔ Path.Comparable (dir a) (dir b)) := by
  have hclean (a b : String) : clean (q.outputFor a) = clean (q.outputFor b) ↔
      q.Comparable a b ∧ q.location cwd a = q.location cwd b := clean_eq_iff hcwd _ _
  refine ⟨?_, fun e he => ?_, fun a b out h => ?_, fun hdir a b => ?_, fun houtput hdir a b => ?_⟩
  · rw [fault?_none_iff]
    simp only [Ne, hclean, not_and]
  · rw [build, he]
  · obtain ⟨hsub, ha, hb⟩ := collision_of_fault? h
    exact ⟨hsub, (hclean a b).mp (ha.trans hb.symm)⟩
  · by_cases houtput : q.output = ""
    · rw [comparable_iff houtput, if_pos hdir, if_pos hdir]
      exact comparable_refl q.outDir
    · rw [Comparable, outputFor, outputPath, if_pos houtput, outputFor, outputPath, if_pos houtput]
      exact comparable_refl q.output
  · rw [comparable_iff houtput, if_neg (not_not_intro hdir), if_neg (not_not_intro hdir)]

def roundaboutSample : BuildRequest := { files := ["a.c", "../d/a.cc"] }

/-- Outputs next to inputs of different kinds pass the check and overwrite each other. -/
theorem not_forall_outputs_apart :
    ¬ ∀ (q : BuildRequest) (cwd : String), isAbsolute cwd = true → q.fault? = none →
    q.files.Pairwise fun a b => q.location cwd a ≠ q.location cwd b := by
  intro h
  have hpairwise := h roundaboutSample "/w/d" (by decide) (by decide +kernel)
  have hapart := List.rel_of_pairwise_cons hpairwise List.mem_cons_self
  exact hapart (by decide +kernel)

/-- Two spellings of one output, both below the working directory. -/
def spellingsSample : BuildRequest := { files := ["src/../a.c", "./b.c", "a.cc"] }

theorem outputs_apart_spellingsSample :
    isAbsolute "/w" = true ∧
    spellingsSample.fault? = some (.collision "src/../a.c" "a.cc" "a.S") ∧
    build spellingsSample = pure { error := some (.collision "src/../a.c" "a.cc" "a.S") } ∧
    spellingsSample.location "/w" "src/../a.c" = spellingsSample.location "/w" "a.cc" ∧
    ({ files := ["a.c", "b.c"] } : BuildRequest).location "/w" "a.c" ≠
      ({ files := ["a.c", "b.c"] } : BuildRequest).location "/w" "b.c" := by
  have hcwd : isAbsolute "/w" = true := by decide
  have hfault : spellingsSample.fault? = some (.collision "src/../a.c" "a.cc" "a.S") :=
    by decide +kernel
  obtain ⟨-, hbuild, hshared, -⟩ := outputs_apart spellingsSample hcwd
  obtain ⟨-, -, hsame⟩ := hshared _ _ _ hfault
  let pair : BuildRequest := { files := ["a.c", "b.c"] }
  obtain ⟨hnone, -, -, -, hcomparable⟩ := outputs_apart pair hcwd
  have happart := (hnone.mp (by decide +kernel)).2
  have hdirs : pair.Comparable "a.c" "b.c" :=
    (hcomparable rfl rfl "a.c" "b.c").mpr (by decide +kernel)
  exact ⟨hcwd, hfault, hbuild _ hfault, hsame,
    List.rel_of_pairwise_cons happart List.mem_cons_self hdirs⟩

end Sysy.BuildRequest
