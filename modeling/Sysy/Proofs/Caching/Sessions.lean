import Sysy.Proofs.Answers
import Sysy.Proofs.Caching.Keys

/-!
Compilations that share a cache. What is found under a key was put there by an earlier compilation
of the session, so a compilation gives the same output as it gives without the cache, if the names
in the keys are plain, no two messages have the same digest, and a triple belongs to one machine. A
machine that differs from another one only in its numbers has the same key, and is given the other
one's output.
-/

namespace Sysy
open Host Compilation

inductive Source where
  | text (name : String) (content : Bytes)
  | path (path : String)

namespace Source

def compile (o : CompileOptions) : Source → Trace.Traced Compilation
  | text name content => compileText o name content
  | path p => compilePath o p

def file (disk : Disk) : Source → Except CompileError SourceFile
  | text name content => .ok (.ofText 0 name content)
  | path p =>
    match disk p with
    | .ok raw => .ok (.ofDisk 0 p raw)
    | .error _ => .error (.loadFailed p)

theorem id_file {disk : Disk} {src : Source} {f : SourceFile} (h : src.file disk = .ok f) :
    f.id = 0 := by
  cases src with
  | text name content =>
    cases h
    rfl
  | path p =>
    simp only [file] at h
    split at h <;> cases h
    rfl

end Source

structure Put where
  options : CompileOptions
  file : SourceFile
  output : Bytes

def Put.key (p : Put) : Bytes := p.options.cacheKey p.file

namespace Disk
variable {disk : Disk} {dir : String}

def held (disk : Disk) (dir : String) (key : Bytes) : Option Bytes :=
  match disk (Cache.entryPath dir key) with
  | .ok bytes =>
    match Cache.Entry.decode bytes with
    | .ok e => (Cache.Lookup.found e).hit?.map (·.output)
    | .error _ => none
  | .error _ => none

/-- The output that is found for a file, if a cache is used. -/
def heldFor (disk : Disk) (o : CompileOptions) (f : SourceFile) : Option Bytes :=
  o.cacheDir.bind fun dir => disk.held dir (o.complete.cacheKey f)

def Serves (disk : Disk) (puts : List Put) (o : CompileOptions) (f : SourceFile) : Prop :=
  ∀ output, disk.heldFor o f = some output → ∃ put ∈ puts, put.key = o.complete.cacheKey f ∧
    put.output = output

theorem endsWith_readFile (disk : Disk) (path : String) :
    (Action.readFile path).EndsWith disk.Answers fun read => read = disk path :=
      fun _ hanswer => hanswer

theorem endsWith_lookUp (disk : Disk) (dir : String) (key : Bytes) :
    (Cache.lookUp dir key).EndsWith disk.Answers fun l =>
      l.hit?.map (·.output) = disk.held dir key := by
  refine Action.EndsWith.andThen ((disk.endsWith_readFile _).mono fun read hread => ?_)
  unfold held
  rw [← hread]
  cases read with
  | error e =>
    dsimp only
    split <;> exact rfl
  | ok bytes =>
    dsimp only
    cases Cache.Entry.decode bytes with
    | error e => exact rfl
    | ok e => exact rfl

end Disk

namespace Compilation
variable {o : CompileOptions} {f : SourceFile} {files : FileSet} {parent : Nat} {disk : Disk}
  {dir : String}

/-- What a compilation puts in the cache: an output that it made itself. -/
def puts (o : CompileOptions) (f : SourceFile) (c : Compilation) : List Put :=
  match c.outcome with
  | .ok { output, module := some _, .. } => [{ options := o.complete, file := f, output }]
  | _ => []

theorem puts_of_error {c : Compilation} {e : CompileError}
    (h : c.outcome.map (·.output) = .error e) : c.puts o f = [] := by
  unfold puts
  cases hc : c.outcome with
  | error e => rfl
  | ok made =>
    rw [hc] at h
    cases h

theorem ends_phases_output (files : FileSet) (hlive : o.isCancelled = false) :
    Ends (phases o files f parent) {} fun r _ => r.map (·.2) = outputOf o files f := by
  refine (ends_phases files hlive).mono fun r l hr => ?_
  rw [outputOf]
  generalize f.program files o.limit = program at hr ⊢
  cases program with
  | error e =>
    rw [hr.1]
    rfl
  | ok p =>
    rw [hr.2]
    simp only [bind, Except.bind]

def Outcome (o : CompileOptions) (f : SourceFile) (held : Option Bytes) (c : Compilation) : Prop :=
  match held with
  | some output => c.outcome.map (·.output) = .ok output ∧ c.puts o f = []
  | none => c.outcome.map (·.output) = (outputOf o.complete (.ofFile f) f).map Bytes.ofString ∧
      ∀ output, c.outcome.map (·.output) = .ok output →
        c.puts o f = [{ options := o.complete, file := f, output }]

theorem endsWith_fromCache (o : CompileOptions) (f : SourceFile) :
    (fromCache o.complete f).EndsWith disk.Answers fun found =>
      found.1 = (disk.heldFor o f).map fun output => { output, module := none, times := {} } := by
  rw [fromCache, Disk.heldFor, show o.complete.cacheDir = o.cacheDir from rfl]
  cases o.cacheDir with
  | none => exact rfl
  | some dir =>
    refine Action.EndsWith.andThen ((disk.endsWith_lookUp dir (o.complete.cacheKey f)).mono
      fun l hl => ?_)
    rw [Option.bind_some, ← hl]
    cases l with
    | missing => exact rfl
    | unreadable reason => exact rfl
    | found e =>
      dsimp only
      cases hhit : (Cache.Lookup.found e).hit? with
      | none => exact rfl
      | some e => exact rfl

theorem endsWith_compile (f : SourceFile) (hlive : o.isCancelled = false) :
    Trace.EndsWith disk.Answers (compile o (.ofFile f) f) (Outcome o f (disk.heldFor o f)) := by
  have hend {span : Trace.Span} {c : Compilation} (hc : Outcome o f (disk.heldFor o f) c) :
      Trace.EndsWith disk.Answers (do Trace.stop span ""; return c)
        (Outcome o f (disk.heldFor o f)) :=
    (Trace.Ends.bind (Trace.ends_of_forall _ fun _ => Trace.Ends.pure hc)).endsWith
  have hlive : o.complete.isCancelled = false := hlive
  rw [compile]
  refine Trace.EndsWith.bind (Trace.ends_of_forall _ fun span => ?_).endsWith
  refine Trace.EndsWith.bind ((Trace.EndsWith.lift (endsWith_fromCache o f)).mono ?_)
  rintro ⟨found, fact⟩ hfound
  dsimp only at hfound ⊢
  rw [hfound]
  generalize disk.heldFor o f = held at hend ⊢
  cases held with
  | some output => exact hend ⟨rfl, rfl⟩
  | none =>
    refine Trace.EndsWith.bind
      (Trace.Ends.endsWith (Trace.Ends.mono (ends_phases_output _ hlive) ?_))
    rintro ⟨r, l⟩ hr
    dsimp only at hr ⊢
    cases r with
    | error e => exact hend ⟨by rw [← hr]; rfl, fun _ h => by cases h⟩
    | ok made =>
      obtain ⟨m, text⟩ := made
      refine Trace.EndsWith.bind (Trace.ends_of_forall _ fun _ => ?_).endsWith
      refine hend ⟨by rw [← hr]; rfl, ?_⟩
      rintro _ ⟨rfl⟩
      rfl

end Compilation

namespace Source
variable {o : CompileOptions} {f : SourceFile} {src : Source} {disk : Disk} {e : CompileError}

theorem endsWith_compile (hlive : o.isCancelled = false) (hfile : src.file disk = .ok f) :
    Trace.EndsWith disk.Answers (src.compile o) (Outcome o f (disk.heldFor o f)) := by
  cases src with
  | text name content =>
    cases hfile
    exact Compilation.endsWith_compile _ hlive
  | path p =>
    refine Trace.EndsWith.bind ((Trace.EndsWith.lift (disk.endsWith_readFile p)).mono
      fun read hread => ?_)
    simp only [file, ← hread] at hfile
    cases read with
    | error e => cases hfile
    | ok raw =>
      cases hfile
      exact Compilation.endsWith_compile _ hlive

theorem endsWith_compile_unread (hfile : src.file disk = .error e) :
    Trace.EndsWith disk.Answers (src.compile o) fun c => c.outcome.map (·.output) = .error e := by
  cases src with
  | text name content => cases hfile
  | path p =>
    refine Trace.EndsWith.bind ((Trace.EndsWith.lift (disk.endsWith_readFile p)).mono
      fun read hread => ?_)
    simp only [file, ← hread] at hfile
    cases read with
    | error e =>
      cases hfile
      exact fun _ => rfl
    | ok raw => cases hfile

end Source

/-- What compilations put in a cache that they share, one after the other. Between them the disk may
change: an entry may be lost, or the files that are compiled may be others. -/
inductive Session (dir : String) : List Put → Prop where
  | start : Session dir []
  | compile {puts : List Put} {o : CompileOptions} {src : Source} {f : SourceFile} {disk : Disk}
      {r r' : Trace.Recorder}
    {c : Compilation} (h : Session dir puts) (hdir : o.cacheDir = some dir)
      (hlive : o.isCancelled = false)
    (hfile : src.file disk = .ok f) (hend : Action.MayEnd disk.Answers (src.compile o r) (c, r')) :
    Session dir (puts ++ c.puts o f)

/-- What was put in the cache was made for its file. -/
theorem Session.made {dir : String} {puts : List Put} (h : Session dir puts) :
    ∀ put ∈ puts, put.file.id = 0 ∧
    ∃ text, outputOf put.options (.ofFile put.file) put.file = .ok text ∧
    put.output = Bytes.ofString text := by
  induction h with
  | start => exact fun put hput => absurd hput List.not_mem_nil
  | @compile puts o src f disk r r' c h hdir hlive hfile hend ih =>
    intro put hput
    obtain hput | hput := List.mem_append.1 hput
    · exact ih put hput
    have hc : Outcome o f (disk.heldFor o f) c :=
      (Source.endsWith_compile hlive hfile r).of_mayEnd hend
    generalize disk.heldFor o f = held at hc
    cases held with
    | some output =>
      rw [hc.2] at hput
      cases hput
    | none =>
      obtain ⟨houtcome, hputs⟩ := hc
      cases hmade : outputOf o.complete (.ofFile f) f with
      | error e =>
        rw [hmade] at houtcome
        rw [puts_of_error houtcome] at hput
        cases hput
      | ok text =>
        rw [hmade] at houtcome
        rw [hputs _ houtcome, List.mem_singleton] at hput
        rw [hput]
        exact ⟨Source.id_file hfile, text, hmade, rfl⟩

/-- A cache is transparent if nothing is found in it but what was put there, no two messages have
the same digest, and a triple belongs to one machine. -/
theorem cache_transparent {dir : String} {puts : List Put} {o : CompileOptions} {src : Source}
    {disk : Disk} (hsession : Session dir puts) (hlive : o.isCancelled = false)
    (hserves : ∀ f, src.file disk = .ok f → disk.Serves puts o f) (hplain : o.complete.IsPlain)
    (hputs : ∀ put ∈ puts, put.options.IsPlain)
    (hdigest : ∀ f, src.file disk = .ok f → ∀ put ∈ puts,
      Digest.digest (put.options.message put.file) = Digest.digest (o.complete.message f) →
        put.options.message put.file = o.complete.message f)
    (hmachine : ∀ put ∈ puts, put.options.machine.triple = o.complete.machine.triple →
      put.options.machine = o.complete.machine) :
    ∃ r, Trace.EndsWith disk.Answers (src.compile o) (fun c => c.outcome.map (·.output) = r) ∧
      Trace.EndsWith disk.Answers (src.compile { o with cacheDir := none })
        fun c => c.outcome.map (·.output) = r := by
  cases hfile : src.file disk with
  | error e =>
    exact ⟨.error e, Source.endsWith_compile_unread hfile, Source.endsWith_compile_unread hfile⟩
  | ok f =>
    refine ⟨(outputOf o.complete (.ofFile f) f).map Bytes.ofString, ?_, ?_⟩
    · refine (Source.endsWith_compile hlive hfile).mono fun c hc => ?_
      have hserved := hserves f hfile
      rw [Disk.Serves] at hserved
      generalize disk.heldFor o f = held at hc hserved
      cases held with
      | none => exact hc.1
      | some output =>
        obtain ⟨put, hmem, hkey, rfl⟩ := hserved output rfl
        obtain ⟨hid, text, hmade, houtput⟩ := hsession.made put hmem
        rw [Put.key, CompileOptions.cacheKey_eq_digest, CompileOptions.cacheKey_eq_digest] at hkey
        obtain ⟨hcontent, hemit, htriple⟩ :=
          CompileOptions.message_inj (hputs put hmem) hplain (hdigest f hfile put hmem hkey)
        have hsame : outputOf o.complete (.ofFile f) f = .ok text :=
          outputOf_congr ((Source.id_file hfile).trans hid.symm) hcontent.symm hemit.symm
            (hmachine put hmem htriple).symm hmade
        rw [hc.1, hsame, houtput]
        rfl
    · exact (Source.endsWith_compile (o := { o with cacheDir := none }) hlive hfile).mono
        fun c hc => hc.1

section Samples

def sourceSample : Source := .text "main.c" (Bytes.ofString "int main() { return 0; }")

def fileSample : SourceFile := .ofText 0 "main.c" (Bytes.ofString "int main() { return 0; }")

/-- A machine that has the triple of the usual one, and larger frames. -/
def wideSample : Machine := { Machine.rv32 with stackAlign := 32 }

def cachedSample (m : Machine) : CompileOptions := { machine := m, cacheDir := some "cache" }

@[irreducible]
def outputSample (m : Machine) : Bytes :=
  match outputOf (cachedSample m).complete (.ofFile fileSample) fileSample with
  | .ok text => Bytes.ofString text
  | .error _ => []

theorem outputOf_sample (m : Machine)
    (h : (outputOf (cachedSample m).complete (.ofFile fileSample) fileSample).isOk = true) :
    (outputOf (cachedSample m).complete (.ofFile fileSample) fileSample).map Bytes.ofString =
      .ok (outputSample m) := by
  unfold outputSample
  cases hmade : outputOf (cachedSample m).complete (.ofFile fileSample) fileSample with
  | error e =>
    rw [hmade] at h
    cases h
  | ok text => rfl

def emptyDiskSample : Disk := fun path => .error ⟨"open", path, .missing⟩

/-- The disk with the output for the usual machine in the cache. -/
def fullDiskSample : Disk := fun path =>
  if path = Cache.entryPath "cache" ((cachedSample .rv32).complete.cacheKey fileSample) then
    .ok (Cache.Entry.encode { schema := Cache.schemaNumber, output := outputSample .rv32 })
  else emptyDiskSample path

def putSample : Put :=
  { options := (cachedSample .rv32).complete, file := fileSample, output := outputSample .rv32 }

theorem session_sample : Session "cache" [putSample] := by
  obtain ⟨⟨c, r⟩, hend⟩ := Action.exists_mayEnd (sourceSample.compile (cachedSample .rv32) {})
    emptyDiskSample.exists_answers
  have hends : Trace.EndsWith emptyDiskSample.Answers (sourceSample.compile (cachedSample .rv32))
      (Outcome (cachedSample .rv32) fileSample none) := Source.endsWith_compile rfl rfl
  have hc : Outcome (cachedSample .rv32) fileSample none c := (hends {}).of_mayEnd hend
  have hmade := outputOf_sample .rv32 (by decide +kernel)
  have hputs : c.puts (cachedSample .rv32) fileSample = [putSample] := hc.2 _ (hc.1.trans hmade)
  rw [← List.nil_append [putSample], ← hputs]
  exact Session.start.compile rfl rfl rfl hend

theorem heldFor_sample {o : CompileOptions} (hdir : o.cacheDir = some "cache")
    (hemit : o.complete.emit = (cachedSample .rv32).complete.emit)
    (htriple : o.complete.machine.triple = (cachedSample .rv32).complete.machine.triple) :
    fullDiskSample.heldFor o fileSample = some (outputSample .rv32) := by
  have hkey : o.complete.cacheKey fileSample = (cachedSample .rv32).complete.cacheKey
    fileSample := by
    rw [CompileOptions.cacheKey, CompileOptions.cacheKey, hemit, htriple]
  rw [Disk.heldFor, hdir, Option.bind_some, hkey, Disk.held, fullDiskSample, if_pos rfl]
  decide +kernel

theorem serves_sample {o : CompileOptions} (hdir : o.cacheDir = some "cache")
    (hemit : o.complete.emit = (cachedSample .rv32).complete.emit)
    (htriple : o.complete.machine.triple = (cachedSample .rv32).complete.machine.triple) :
    fullDiskSample.Serves [putSample] o fileSample := by
  intro output houtput
  rw [heldFor_sample hdir hemit htriple] at houtput
  refine ⟨putSample, List.mem_singleton_self _, ?_, Option.some.inj houtput⟩
  rw [Put.key, putSample, CompileOptions.cacheKey, CompileOptions.cacheKey, hemit, htriple]

theorem message_sample {o : CompileOptions}
    (hemit : o.complete.emit = (cachedSample .rv32).complete.emit)
    (htriple : o.complete.machine.triple = (cachedSample .rv32).complete.machine.triple) :
    ∀ put ∈ [putSample], put.options.message put.file = o.complete.message fileSample := by
  intro put hput
  rw [List.mem_singleton.1 hput, putSample, CompileOptions.message, CompileOptions.message,
    hemit, htriple]

/-- A larger number of diagnostics is kept, and the output is found. -/
theorem cache_transparent_sample :
    ∃ puts o, Session "cache" puts ∧ fullDiskSample.heldFor o fileSample ≠ none ∧
      ∃ r, Trace.EndsWith fullDiskSample.Answers (sourceSample.compile o)
          (fun c => c.outcome.map (·.output) = r) ∧
        Trace.EndsWith fullDiskSample.Answers (sourceSample.compile { o with cacheDir := none })
          fun c => c.outcome.map (·.output) = r := by
  let o : CompileOptions := { cachedSample .rv32 with maxDiagnostics := 200 }
  have hplain : (cachedSample .rv32).complete.IsPlain := ⟨by decide +kernel, by decide +kernel⟩
  refine ⟨[putSample], o, session_sample, by rw [heldFor_sample (o := o) rfl rfl rfl]; nofun, ?_⟩
  refine cache_transparent session_sample rfl ?_ ⟨hplain.emit, hplain.triple⟩ ?_ ?_ ?_
  · rintro f ⟨rfl⟩
    exact serves_sample rfl rfl rfl
  · rintro put hput
    rw [List.mem_singleton.1 hput]
    exact hplain
  · rintro f ⟨rfl⟩ put hput -
    exact message_sample rfl rfl put hput
  · rintro put hput -
    rw [List.mem_singleton.1 hput]
    rfl

/-- A cache is not transparent if two machines have the same triple, although no digest is that of
two messages: the output for the one is found for the other. -/
theorem not_forall_cache_transparent :
    ¬ ∀ (dir : String) (puts : List Put) (o : CompileOptions) (src : Source) (disk : Disk),
      Session dir puts → o.cacheDir = some dir → o.isCancelled = false →
      (∀ f, src.file disk = .ok f → disk.Serves puts o f) →
      (∀ f, src.file disk = .ok f → ∀ put ∈ puts,
        Digest.digest (put.options.message put.file) = Digest.digest (o.complete.message f) →
          put.options.message put.file = o.complete.message f) →
      ∃ r, Trace.EndsWith disk.Answers (src.compile o) (fun c => c.outcome.map (·.output) = r) ∧
        Trace.EndsWith disk.Answers (src.compile { o with cacheDir := none })
          fun c => c.outcome.map (·.output) = r := by
  intro hall
  obtain ⟨r, hcached, hfresh⟩ :=
    hall "cache" [putSample] (cachedSample wideSample) sourceSample fullDiskSample
    session_sample rfl rfl (by rintro f ⟨rfl⟩; exact serves_sample rfl rfl rfl)
    (by rintro f ⟨rfl⟩ put hput -; exact message_sample rfl rfl put hput)
  have hends : Trace.EndsWith fullDiskSample.Answers
    (sourceSample.compile (cachedSample wideSample))
      (Outcome (cachedSample wideSample) fileSample
        (fullDiskSample.heldFor (cachedSample wideSample) fileSample)) :=
    Source.endsWith_compile rfl rfl
  rw [heldFor_sample (o := cachedSample wideSample) rfl rfl rfl] at hends
  have hends' : Trace.EndsWith fullDiskSample.Answers
    (sourceSample.compile { cachedSample wideSample with cacheDir := none })
      (Outcome { cachedSample wideSample with cacheDir := none } fileSample none) :=
        Source.endsWith_compile rfl rfl
  obtain ⟨c, hr, hc⟩ := (hcached.and hends).exists fullDiskSample.exists_answers
  obtain ⟨c', hr', hc'⟩ := (hfresh.and hends').exists fullDiskSample.exists_answers
  have hwide := outputOf_sample wideSample (by decide +kernel)
  have hsame : outputSample .rv32 = outputSample wideSample :=
    Except.ok.inj ((hc.1.symm.trans (hr.trans hr'.symm)).trans (hc'.1.trans hwide))
  exact absurd hsame (by decide +kernel)

end Samples

end Sysy
