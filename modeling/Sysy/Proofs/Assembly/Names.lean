import Sysy.Proofs.Assembly.Loading
import Sysy.Proofs.Parsing.Acceptance
import Sysy.Proofs.Static.Acceptance
import Sysy.Proofs.Token.Tiling

/-!
The names of functions and globals. Words of a file begin with a letter, so nothing in a program
that was read from a file is named like a label of a block.
-/

namespace Sysy

def Program.Named (p : Program) : Prop :=
  ∀ span d, .func span d ∈ p.items → d.name.toList.head? ≠ some '.'

def Item.names : Item → List String
  | .decl _ d => d.defs.map (·.name)
  | .func _ d => [d.name]

/-- No function and no global is named like a label of a block. -/
def Program.Worded (p : Program) : Prop :=
  ∀ i ∈ p.items, ∀ name ∈ i.names, name.toList.head? ≠ some '.'

end Sysy

namespace Sysy.Static
open Ir Lowering

variable {Γ Γ' : Env} {name : String} {P : Entry → Prop}

def Has (P : Entry → Prop) (Γ : Env) (name : String) : Prop :=
  ∃ frame ∈ Γ, ∃ entry, (name, entry) ∈ frame ∧ P entry

def IsFunc (entry : Entry) : Prop := ∃ params ret, entry = .func params ret

theorem Defines.has {new : String} {entry : Entry} (h : Defines Γ new entry Γ')
    (hn : Has P Γ' name) :
    Has P Γ name ∨ new = name ∧ P entry := by
  obtain ⟨hfresh⟩ := h
  obtain ⟨frame, hframe, entry', hmem, hP⟩ := hn
  rcases List.mem_cons.mp hframe with rfl | hframe
  · rcases List.mem_cons.mp hmem with heq | hmem
    · cases heq
      exact .inr ⟨rfl, hP⟩
    · exact .inl ⟨_, List.mem_cons_self .., entry', hmem, hP⟩
  · exact .inl ⟨frame, List.mem_cons_of_mem _ hframe, entry', hmem, hP⟩

theorem DefsOk.has {isGlobal isConst : Bool} {ds : List VarDef}
    (h : DefsOk isGlobal isConst Γ ds Γ') (hn : Has P Γ' name) :
    Has P Γ name ∨ name ∈ ds.map (·.name) ∧ ∃ entry, ¬IsFunc entry ∧ P entry := by
  induction h with
  | nil => exact .inl hn
  | cons hok hdef _ ih =>
    rcases ih hn with hn | ⟨hmem, hrest⟩
    · rcases hdef.has hn with hn | ⟨rfl, hP⟩
      · exact .inl hn
      · refine .inr ⟨List.mem_cons_self .., _, ?_, hP⟩
        rintro ⟨params, ret, rfl⟩
        cases hok
    · exact .inr ⟨List.mem_cons_of_mem _ hmem, hrest⟩

theorem ItemsOk.has {is : List Item} (h : ItemsOk Γ is Γ') (hn : Has P Γ' name) :
    Has P Γ name ∨ ∃ i ∈ is, name ∈ i.names ∧ ((∃ span d, i = .func span d) ∨
      ∃ entry, ¬IsFunc entry ∧ P entry) := by
  induction h with
  | nil => exact .inl hn
  | cons hi _ ih =>
    rcases ih hn with hn | ⟨i, hmem, hrest⟩
    · cases hi with
      | decl h =>
        rcases h.has hn with hn | ⟨hmem, hentry⟩
        · exact .inl hn
        · exact .inr ⟨_, List.mem_cons_self .., hmem, .inr hentry⟩
      | func _ hname =>
        rcases hname.has hn with hn | ⟨rfl, -⟩
        · exact .inl hn
        · exact .inr ⟨_, List.mem_cons_self .., List.mem_singleton.mpr rfl, .inl ⟨_, _, rfl⟩⟩
    · exact .inr ⟨i, List.mem_cons_of_mem _ hmem, hrest⟩

theorem has_of_mem_outermost {m : Module} {scope : Scope Binding} (hΓ : Scoped m scope Γ)
    (htop : scope.inner = []) {b : Binding} (h : (name, b) ∈ scope.outermost) :
    Has (EntryIs m b) Γ name := by
  have hframes : List.Forall₂ (List.Forall₂ fun p q => p.1 = q.1 ∧ EntryIs m p.2 q.2)
    [scope.outermost] Γ := by
    simpa [Scoped, framesOf, htop] using hΓ
  cases hframes with
  | @cons _ frame _ _ hframe _ =>
    obtain ⟨i, hi, heq⟩ := List.getElem_of_mem h
    obtain ⟨hname, hentry⟩ := hframe.get hi (hframe.length_eq ▸ hi)
    rw [List.get_eq_getElem, heq] at hname hentry
    generalize hq : frame.get ⟨i, _⟩ = q at hname hentry
    obtain ⟨name', entry⟩ := q
    obtain rfl : name = name' := hname
    exact ⟨frame, List.mem_cons_self .., entry, hq ▸ List.get_mem .., hentry⟩

theorem library_head {P : Entry → Prop} (h : Has P [library] name) :
    name.toList.head? ≠ some '.' := by
  obtain ⟨frame, hframe, entry, hmem, -⟩ := h
  obtain rfl := List.mem_singleton.mp hframe
  have hlibrary : ∀ q ∈ library, q.1.toList.head? ≠ some '.' := by decide
  exact hlibrary _ hmem

end Sysy.Static

namespace Sysy.Assembly
open Ir Lowering Static

variable {m : Module} {p : Program}

theorem named_of_lower (h : p.lower = .ok m) (hn : p.Named) : Named m := by
  rcases lower_cases p with ⟨-, e, he⟩ | ⟨s, Γ, hs, hready, his, hΓ⟩
  · rw [he] at h
    cases h
  rw [hs] at h
  obtain rfl := Except.ok.inj h
  intro g fn hg
  have hfunc := has_of_mem_outermost hΓ hready.top (hready.listed.funcs g fn hg)
  rcases his.has hfunc with hlib | ⟨i, hi, hname, ⟨span, d, rfl⟩ | ⟨entry, hnot, hentry⟩⟩
  · exact library_head hlib
  · rw [List.mem_singleton.mp hname]
    exact hn span d hi
  · cases entry with
    | const _ | var _ _ | param _ => exact hentry.elim
    | func params ret => exact absurd ⟨params, ret, rfl⟩ hnot

theorem ready_of_worded (h : p.lower = .ok m) (hn : p.Worded) : ∃ scope, Ready ⟨m, scope⟩ ∧
    ∀ q ∈ scope.outermost, q.1.toList.head? ≠ some '.' := by
  rcases lower_cases p with ⟨-, e, he⟩ | ⟨⟨m', scope⟩, Γ, hs, hready, his, hΓ⟩
  · rw [he] at h
    cases h
  rw [hs] at h
  obtain rfl := Except.ok.inj h
  refine ⟨scope, hready, fun q hq => ?_⟩
  rcases his.has (has_of_mem_outermost hΓ hready.top hq) with hlib | ⟨i, hi, hname, -⟩
  · exact library_head hlib
  · exact hn i hi q.1 hname

end Sysy.Assembly

namespace Sysy.Parser
open Token Grammar

/-- The text of a word of the language begins with a letter. -/
def Word (t : Token) : Prop := ∃ b rest, t.text = b :: rest ∧ isLetter b = true

theorem word_of_lexeme {b : UInt8} {rest : Bytes} (h : (lexeme b rest).1 = .ident) :
    isLetter b = true ∧ ∃ word, (lexeme b rest).2 = b :: word := by
  by_cases hletter : isLetter b = true
  · rw [lexeme, if_pos hletter]
    exact ⟨hletter, _, rfl⟩
  · rw [lexeme, if_neg hletter] at h
    by_cases hdigit : isDigit b = true
    · rw [if_pos hdigit] at h
      dsimp only at h
      split at h <;> cases h
    · rw [if_neg hdigit] at h
      exact absurd h (punct_ne (by decide) b rest.head?)

theorem word_scan {file off : Nat} {s : Bytes} (h : (Lexeme.scan file off s).token.kind = .ident) :
    Word (Lexeme.scan file off s).token := by
  rw [Lexeme.scan] at h ⊢
  generalize skipTrivia .blank off s = x at h ⊢
  obtain ⟨at_, rest, unclosed⟩ := x
  cases rest with
  | nil => cases h
  | cons b r =>
    obtain ⟨hletter, word, hword⟩ := word_of_lexeme h
    exact ⟨b, word, hword, hletter⟩

theorem word_scanAll (file : Nat) (s : Bytes) :
    ∀ (skip off : Nat), ∀ l ∈ Lexeme.scanAll file skip off s,
    l.token.kind = .ident → Word l.token := by
  induction s with
  | nil =>
    intro skip off l hl hident
    rw [Lexeme.scanAll] at hl
    obtain rfl := List.mem_singleton.mp hl
    exact word_scan hident
  | cons b s ih =>
    rintro (_ | skip) off l hl hident
    · rw [Lexeme.scanAll] at hl
      split at hl
      · obtain rfl := List.mem_singleton.mp hl
        exact word_scan hident
      · rcases List.mem_cons.mp hl with rfl | hl
        · exact word_scan hident
        · exact ih _ _ l hl hident
    · rw [Lexeme.scanAll] at hl
      exact ih _ _ l hl hident

theorem Word.head {t : Token} (h : Word t) : (Bytes.toAscii t.text).toList.head? ≠ some '.' := by
  obtain ⟨b, rest, htext, hletter⟩ := h
  have hdot : ∀ n < 256, Char.ofNat n = '.' → n = 46 := by decide +kernel
  rw [htext, Bytes.toAscii, String.toList_ofList]
  intro heq
  have hb : b = 46 := UInt8.toNat_inj.mp (hdot b.toNat b.toNat_lt (by simpa using heq))
  rw [hb] at hletter
  exact absurd hletter (by decide)

theorem word_of_isVarDef {isConst : Bool} {ts : List Token} {d : VarDef}
    (hts : ∀ t ∈ ts, t.kind = .ident → Word t) (h : IsVarDef isConst ts d) :
    d.name.toList.head? ≠ some '.' := by
  cases h with
  | plain _ ht | init ht => exact (hts _ (List.mem_cons_self ..) ht).head

theorem forall_of_isList {α : Type} {R : List Token → α → Prop} {P : α → Prop}
    (hR : ∀ ts a, (∀ t ∈ ts, t.kind = .ident → Word t) → R ts a → P a) {ts : List Token}
    {as : List α} (hts : ∀ t ∈ ts, t.kind = .ident → Word t) (h : IsList R ts as) :
    ∀ a ∈ as, P a := by
  induction h with
  | one ha =>
    intro a hmem
    obtain rfl := List.mem_singleton.mp hmem
    exact hR _ _ hts ha
  | cons ha _ _ ih =>
    intro a hmem
    rcases List.mem_cons.mp hmem with rfl | hmem
    · exact hR _ _ (fun t ht => hts t (List.mem_append_left _ ht)) ha
    · exact ih (fun t ht => hts t (by simp [ht])) a hmem

theorem words_of_isItem {ts : List Token} {i : Item} (hts : ∀ t ∈ ts, t.kind = .ident → Word t)
    (h : IsItem ts i) :
    ∀ name ∈ i.names, name.toList.head? ≠ some '.' := by
  intro name hname
  cases h with
  | decl hd =>
    obtain ⟨d, hmem, rfl⟩ := List.mem_map.mp hname
    cases hd with
    | var _ hds | const _ _ hds =>
      exact forall_of_isList (fun _ _ hts hd => word_of_isVarDef hts hd)
        (fun t ht => hts t (by simp [ht])) hds d hmem
  | func _ ht =>
    obtain rfl := List.mem_singleton.mp hname
    exact (hts _ (by simp) ht).head

theorem worded_of_isItems {ts : List Token} {is : List Item}
    (hts : ∀ t ∈ ts, t.kind = .ident → Word t) (h : IsItems ts is) :
    ∀ i ∈ is, ∀ name ∈ i.names, name.toList.head? ≠ some '.' := by
  induction h with
  | nil => simp
  | cons hi _ ih =>
    intro i hmem
    rcases List.mem_cons.mp hmem with rfl | hmem
    · exact words_of_isItem (fun t ht => hts t (List.mem_append_left _ ht)) hi
    · exact ih (fun t ht => hts t (List.mem_append_right _ ht)) i hmem

theorem word_of_mem_sentence {file : Nat} {content : Bytes} :
    ∀ t ∈ sentence file content, t.kind = .ident → Word t := by
  intro t ht
  obtain ⟨l, hl, rfl⟩ := List.mem_map.mp (List.dropLast_subset _ ht)
  exact word_scanAll file content 0 0 l hl

/-- Nothing in a program that was read from a file is named like a label of a block. -/
theorem worded_of_parse {file : Nat} {content : Bytes}
    (h : (parse file 0 (lexemes file content)).errors = 0) :
    (parse file 0 (lexemes file content)).program.Worded :=
  worded_of_isItems word_of_mem_sentence (isItems_of_parse h)

theorem named_of_parse {file : Nat} {content : Bytes}
    (h : (parse file 0 (lexemes file content)).errors = 0) :
    (parse file 0 (lexemes file content)).program.Named := fun _ d hmem =>
  worded_of_parse h _ hmem d.name (List.mem_singleton.mpr rfl)

end Sysy.Parser
