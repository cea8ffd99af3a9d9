import Sysy.Proofs.Assembly.Instructions
import Sysy.Proofs.Assembly.Names
import Sysy.Proofs.Lowering.WellTyped

/-!
The labels of assembly. Each one is defined once, be it the name of a global, the name of a function
or the label of a block, and every label that code uses is defined or is a function of the run-time
library.
-/

namespace Sysy.Assembly
open Ir Lowering

variable {m : Module} {scope : Scope Binding} {gs : List (String × List Word)} {ls : List Line}

theorem labels_of_emit (h : Sound m) (hls : emit .rv32 m = .ok ls) :
    ∃ gs, List.Forall₂ (GlobalPiece m) m.globals.toList gs ∧
      List.Perm (labels ls) (gs.map (·.1) ++ (m.funcs.toList.filter (!·.isDeclared)).flatMap
        labelsOf) := by
  obtain ⟨gs, qss, hloaded, hgs, hqss⟩ := loaded_of_emit (b := .small) hls
  refine ⟨gs, hgs, (labels_ofLines .small ls).trans ?_⟩
  rw [hloaded.symbolNames, hloaded.labelNames, names_flatten h hqss]
  exact (List.reverse_perm _).append (List.reverse_perm _)

theorem symbols_disjoint (h : Ready ⟨m, scope⟩)
    (hwords : ∀ q ∈ scope.outermost, q.1.toList.head? ≠ some '.')
    (hgs : List.Forall₂ (GlobalPiece m) m.globals.toList gs) :
    List.Disjoint (gs.map (·.1)) ((m.funcs.toList.filter (!·.isDeclared)).flatMap labelsOf) := by
  intro l hl hl'
  obtain ⟨g, hg, rfl⟩ := List.mem_map.mp hl
  obtain ⟨l', id, r', heq, hpiece⟩ := exists_split hgs.flip hg
  obtain ⟨c, hc⟩ := GlobalPiece.listed h (by rw [heq]; simp) hpiece
  obtain ⟨fn, hfn, hmem⟩ := List.mem_flatMap.mp hl'
  obtain ⟨f, hfin⟩ := exists_finished h.sound hfn
  rcases List.mem_cons.mp hmem with hname | hmem
  · have hfunc := h.listed.funcs f fn hfin.found
    rw [hname] at hc
    cases List.inj_on_of_nodup_map h.listed.nodup hc hfunc rfl
  · obtain ⟨bb, hbb, hlabel⟩ := List.mem_map.mp hmem
    exact hwords _ hc (by rw [← hlabel]; exact head_blockLabel hfin hbb)

theorem target_cases (h : Sound m) (hls : emit .rv32 m = .ok ls) {i : Instr} {l : String}
    (hi : i ∈ instrs ls) (hl : i.target? = some l) :
    (∃ id ∈ m.globals, ∃ v, m.value? id = some v ∧ l = symbol v.name) ∨
      (∃ fn ∈ m.funcs.toList.filter (!·.isDeclared), l ∈ labelsOf fn) ∨
      l ∈ Build.libraryFuncs.map (·.1) := by
  obtain ⟨f, fn, fr, hfin, hfr, hfits, hprologue | ⟨bb, id, v, hid, hv, hstems⟩⟩ :=
    instr_cases h hls hi
  · rcases mem_prologue hprologue with hplain | rfl | ⟨-, rfl⟩
    · rw [hplain.1] at hl
      cases hl
    · cases hl
    · cases hl
  have hdefined {g : FuncId} {gn : Func} (hg : Finished m g gn) : gn ∈ m.funcs.toList.filter
    (!·.isDeclared) := by
    rw [List.mem_filter, hg.isDeclared]
    exact ⟨Module.mem_funcs hg.found, rfl⟩
  have hblock (x : BlockId) (hx : x ∈ v.node.successors) :
    ∃ fn ∈ m.funcs.toList.filter (!·.isDeclared), fr.label x ∈ labelsOf fn := by
    have hlaid := hfin.targets x id ((hfin.jumps x id).mpr ⟨v, bb, hv, hid, hx⟩)
    refine ⟨fn, hdefined hfin, List.mem_cons_of_mem _ (List.mem_map.mpr ⟨x, hlaid, ?_⟩)⟩
    exact (hfits.label x hlaid).symm
  cases hstems with
  | plain hplain =>
    rw [hplain.1] at hl
    cases hl
  | integer | slot | incoming | outgoing | pointee | element | link | close => cases hl
  | «global» rd hx hnode =>
    cases hl
    exact .inl ⟨_, h.listed _ _ _ hx hnode, _, hx, rfl⟩
  | jump hx =>
    cases hl
    exact .inr (.inl (hblock _ hx))
  | branch rs hx =>
    cases hl
    exact .inr (.inl (hblock _ hx))
  | call hnode hg =>
    cases hl
    obtain ⟨-, -, ⟨-, hlib⟩ | hfin'⟩ := h.funcs _ _ hg
    · exact .inr (.inr (List.mem_map_of_mem hlib))
    · exact .inr (.inl ⟨_, hdefined hfin', List.mem_cons_self ..⟩)

/-- The symbols of assembly are unambiguous. In code for a program in which nothing is named like a
label of a block, as in any program that was read from a file, each label is defined once, and every
label that an instruction uses is defined or is the name of a function of the library. -/
theorem symbols_unambiguous :
    (∀ file content, (parse file 0 (lexemes file content)).errors = 0 →
      (parse file 0 (lexemes file content)).program.Worded) ∧
    ∀ p m ls, Program.Worded p → p.lower = .ok m → emit .rv32 m = .ok ls →
      (labels ls).Nodup ∧ ∀ i ∈ instrs ls, ∀ l, i.target? = some l →
        l ∈ labels ls ∨ l ∈ Build.libraryFuncs.map (·.1) := by
  refine ⟨fun _ _ => Parser.worded_of_parse, fun p m ls hn hp hls => ?_⟩
  obtain ⟨scope, h, hwords⟩ := ready_of_worded hp hn
  obtain ⟨gs, hgs, hperm⟩ := labels_of_emit h.sound hls
  have hnamed : Named m := fun g fn hg => hwords _ (h.listed.funcs g fn hg)
  refine ⟨?_, fun i hi l hl => ?_⟩
  · rw [hperm.nodup_iff]
    exact (nodup_symbols h hgs).append (nodup_flatMap_labelsOf h hnamed)
      (symbols_disjoint h hwords hgs)
  · rw [hperm.mem_iff, List.mem_append]
    rcases target_cases h.sound hls hi hl with ⟨id, hid, v, hv, rfl⟩ | hfunc | hlib
    · obtain ⟨l', g, r', rfl, w, hw, rfl⟩ := exists_split hgs (Array.mem_toList_iff.mpr hid)
      obtain rfl := Option.some.inj (hv.symm.trans hw)
      exact .inl (.inl (by simp))
    · exact .inl (.inr (List.mem_flatMap.mpr hfunc))
    · exact .inr hlib

theorem symbols_unambiguous_gridSample :
    ∃ m ls, gridSample.Worded ∧ gridSample.lower = .ok m ∧ emit .rv32 m = .ok ls ∧
      (labels ls).Nodup := by
  have hworded : gridSample.Worded := by
    unfold Program.Worded
    decide
  have hsome : (assembly? gridSample).isSome = true := by decide +kernel
  obtain ⟨⟨m, ls⟩, heq⟩ := Option.isSome_iff_exists.mp hsome
  obtain ⟨hm, hls⟩ := of_assembly? heq
  exact ⟨m, ls, hworded, hm, hls, (symbols_unambiguous.2 _ m ls hworded hm hls).1⟩

end Sysy.Assembly
