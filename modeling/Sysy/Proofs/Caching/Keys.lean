import Sysy.Proofs.Phases

/-!
What a key stands for. The message that is digested tells the content of a file, the name of what is
produced and the triple of the machine, as long as there is no zero byte in the two names. If the
output for a file can be made, it depends on the content, on what is produced, and on the machine;
the path and the number of diagnostics that are kept do not matter.
-/

namespace Sysy

theorem Bytes.ofString_injective : Function.Injective Bytes.ofString :=
  fun _ _ h => String.toByteArray_inj.1 (ByteArray.ext (Array.toList_inj.1 h))

namespace Cache

def message (content : Bytes) (emit : Emit) (triple : String) : Bytes :=
  Bytes.ofString Version.current.version ++ 0 :: (Bytes.ofString emit.name ++
    0 :: (Bytes.ofString triple ++ 0 :: content))

theorem key_eq_digest (content : Bytes) (emit : Emit) (triple : String) :
    key content emit triple = Digest.digest (message content emit triple) := by
  simp only [key, message, List.append_assoc, List.cons_append, List.nil_append]

theorem append_zero_inj {a a' b b' : Bytes} (ha : 0 ∉ a) (ha' : 0 ∉ a')
    (h : a ++ 0 :: b = a' ++ 0 :: b') :
    a = a' ∧ b = b' := by
  induction a generalizing a' with
  | nil =>
    cases a' with
    | nil => exact ⟨rfl, (List.cons.inj h).2⟩
    | cons x a' => exact absurd ((List.cons.inj h).1 ▸ List.mem_cons_self) ha'
  | cons x a ih =>
    cases a' with
    | nil => exact absurd ((List.cons.inj h).1 ▸ List.mem_cons_self) ha
    | cons x' a' =>
      obtain ⟨rfl, hrest⟩ := List.cons.inj h
      obtain ⟨rfl, rfl⟩ :=
        ih (List.not_mem_of_not_mem_cons ha) (List.not_mem_of_not_mem_cons ha') hrest
      exact ⟨rfl, rfl⟩

end Cache

namespace CompileOptions
variable {o o' : CompileOptions} {f f' : SourceFile}

def message (o : CompileOptions) (f : SourceFile) : Bytes :=
  Cache.message f.content o.emit o.machine.triple

theorem cacheKey_eq_digest (o : CompileOptions) (f : SourceFile) :
    o.cacheKey f = Digest.digest (o.message f) :=
  Cache.key_eq_digest ..

/-- There is no zero byte in the names that a key is made of. -/
structure IsPlain (o : CompileOptions) : Prop where
  emit : 0 ∉ Bytes.ofString o.emit.name
  triple : 0 ∉ Bytes.ofString o.machine.triple

theorem message_inj (ho : o.IsPlain) (ho' : o'.IsPlain) (h : o.message f = o'.message f') :
    f.content = f'.content ∧ o.emit = o'.emit ∧ o.machine.triple = o'.machine.triple := by
  obtain ⟨hemit, h⟩ :=
    Cache.append_zero_inj ho.emit ho'.emit (List.cons.inj (List.append_cancel_left h)).2
  obtain ⟨htriple, hcontent⟩ := Cache.append_zero_inj ho.triple ho'.triple h
  exact ⟨hcontent, congrArg Emit.mk (Bytes.ofString_injective hemit),
    Bytes.ofString_injective htriple⟩

end CompileOptions

namespace SourceFile
variable {f f' : SourceFile} {files files' : FileSet} {limit limit' : Nat} {p : Program}

theorem program_congr (hid : f'.id = f.id) (hcontent : f'.content = f.content)
    (h : f.program files limit = .ok p) :
    f'.program files' limit' = .ok p := by
  have hsilent : (f.parsed limit).reported = [] := by
    cases hreported : (f.parsed limit).reported with
    | nil => rfl
    | cons d ds =>
      rw [program_of_reported files hreported] at h
      cases h
  have hparsed : f'.parsed limit' = parse f.id limit' (lexemes f.id f.content) :=
    by rw [SourceFile.parsed, hid, hcontent]
  have hsilent' : (f'.parsed limit').reported = [] := by
    rw [hparsed]
    exact (Parser.silent_iff ..).2 ((Parser.silent_iff ..).1 hsilent)
  rw [program_of_silent files hsilent] at h
  rw [program_of_silent files' hsilent', hparsed, ← Except.ok.inj h]
  exact congrArg Except.ok (Parser.stop_under (Parser.stop_of_silent hsilent) limit').2

end SourceFile

namespace Compilation
variable {o o' : CompileOptions} {f f' : SourceFile} {files files' : FileSet} {text : String}

/-- An output is made phase by phase. -/
theorem outputOf_eq_ok_iff : outputOf o files f = .ok text ↔
    ∃ p m, f.program files o.limit = .ok p ∧ p.lower = .ok m ∧ produced o m = .ok text := by
  constructor
  · intro h
    cases hp : f.program files o.limit with
    | error e => simp only [outputOf, hp, bind, Except.bind, reduceCtorEq] at h
    | ok p =>
      cases hm : p.lower with
      | error e => simp only [outputOf, hp, lowered, hm, bind, Except.bind, reduceCtorEq] at h
      | ok m =>
        simp only [outputOf, hp, lowered, hm, bind, Except.bind] at h
        exact ⟨p, m, rfl, hm, h⟩
  · rintro ⟨p, m, hp, hm, hproduced⟩
    simp only [outputOf, hp, lowered, hm, bind, Except.bind, hproduced]

theorem outputOf_congr (hid : f'.id = f.id) (hcontent : f'.content = f.content)
    (hemit : o'.emit = o.emit) (hmachine : o'.machine = o.machine)
    (h : outputOf o files f = .ok text) : outputOf o' files' f' = .ok text := by
  obtain ⟨p, m, hp, hm, hproduced⟩ := outputOf_eq_ok_iff.1 h
  refine outputOf_eq_ok_iff.2 ⟨p, m, SourceFile.program_congr hid hcontent hp, hm, ?_⟩
  rw [← hproduced, produced, produced, hemit, hmachine]

end Compilation

end Sysy
