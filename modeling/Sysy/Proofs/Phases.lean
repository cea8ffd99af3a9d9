import Sysy.Compilation
import Sysy.Host.Model
import Sysy.Proofs.Parsing.Reports

/-!
A program that is not whole is not lowered. A compilation asks for things outside it, such as the
time, and what it gives is stated for all answers: `Ends` says what holds at every end of an action.
A phase ends as its work does, and the phase of parsing ends with a program only if nothing was
reported about the file.
-/

namespace Sysy.Host.Action
variable {α β : Type} {P P' : α → Prop}

/-- Whatever the answers are, the action ends as `P` tells. -/
def Ends (P : α → Prop) : Action α → Prop
  | done a => P a
  | ask _ next => ∀ answer, (next answer).Ends P

theorem Ends.mono {x : Action α} (h : x.Ends P) (hP : ∀ a, P a → P' a) : x.Ends P' := by
  induction x with
  | done a => exact hP a h
  | ask q next ih => exact fun answer => ih answer (h answer)

theorem ends_of_forall (x : Action α) (h : ∀ a, P a) : x.Ends P := by
  induction x with
  | done a => exact h a
  | ask q next ih => exact ih

theorem Ends.andThen {x : Action α} {k : α → Action β} {Q : β → Prop}
    (h : x.Ends fun a => (k a).Ends Q) :
    (x.andThen k).Ends Q := by
  induction x with
  | done a => exact h
  | ask q next ih => exact fun answer => ih answer (h answer)

theorem Ends.run {x : Action α} (h : x.Ends P) (m : Model) : P (x.run m).1 := by
  induction x generalizing m with
  | done a => exact h
  | ask q next ih => exact ih _ (h _) _

end Sysy.Host.Action

namespace Sysy.Trace
open Host
variable {α β : Type} {P : α → Prop}

/-- Whatever is recorded, and whatever the answers are, `x` ends as `P` tells. -/
def Ends (x : Traced α) (P : α → Prop) : Prop := ∀ r, (x r).Ends fun end_ => P end_.1

theorem Ends.pure {a : α} (h : P a) : Ends (pure a) P := fun _ => h

theorem Ends.mono {x : Traced α} {P' : α → Prop} (h : Ends x P) (hP : ∀ a, P a → P' a) :
    Ends x P' :=
  fun r => (h r).mono fun _ => hP _

theorem Ends.bind {x : Traced α} {k : α → Traced β} {Q : β → Prop}
    (h : Ends x fun a => Ends (k a) Q) :
    Ends (x >>= k) Q :=
  fun r => ((h r).mono fun end_ hend => hend end_.2).andThen

theorem ends_of_forall (x : Traced α) (h : ∀ a, P a) : Ends x P :=
  fun r => (x r).ends_of_forall fun _ => h _

end Sysy.Trace

namespace Sysy.Compilation
open Host

section Runs
variable {α β : Type} {l : Log} {P : Except CompileError α → Log → Prop}

/-- The steps `x` of a compilation, of which `l` was seen, end as `P` tells. -/
def Ends (x : Run α) (l : Log) (P : Except CompileError α → Log → Prop) : Prop :=
  Trace.Ends (x.run.run l) fun end_ => P end_.1 end_.2

theorem Ends.pure {a : α} (h : P (.ok a) l) : Ends (pure a) l P := Trace.Ends.pure h

theorem Ends.throw {e : CompileError} (h : P (.error e) l) : Ends (throw e) l P := Trace.Ends.pure h

theorem Ends.mono {x : Run α} {P' : Except CompileError α → Log → Prop} (h : Ends x l P)
    (hP : ∀ r l', P r l' → P' r l') :
    Ends x l P' :=
  Trace.Ends.mono h fun _ => hP _ _

theorem Ends.bind {x : Run α} {k : α → Run β} {Q : Except CompileError β → Log → Prop}
    (h : Ends x l fun r l' => match r with
      | .ok a => Ends (k a) l' Q
      | .error e => Q (.error e) l') : Ends (x >>= k) l Q := by
  have hrun : (x >>= k).run.run l = x.run.run l >>= fun end_ =>
      (match end_.1 with
        | .ok a => (k a).run
        | .error e => Pure.pure (Except.error e)).run end_.2 := by
    rw [ExceptT.run_bind, StateT.run_bind]
    refine congrArg _ (funext fun end_ => ?_)
    rcases end_ with ⟨_ | a, l'⟩ <;> rfl
  rw [Ends, hrun]
  refine Trace.Ends.bind (Trace.Ends.mono h ?_)
  rintro ⟨_ | a, l'⟩ hend
  · exact Trace.Ends.pure hend
  · exact hend

theorem Ends.traced {x : Trace.Traced α} {k : α → Run β} {Q : Except CompileError β → Log → Prop}
    (h : Trace.Ends x fun a => Ends (k a) l Q) : Ends (Compilation.traced x >>= k) l Q := by
  refine Ends.bind ?_
  have hrun : (Compilation.traced x).run.run l =
      (x >>= fun a => Pure.pure (a, l)) >>= fun end_ => Pure.pure (Except.ok end_.1, end_.2) := rfl
  rw [Ends, hrun]
  exact Trace.Ends.bind (Trace.Ends.bind (Trace.Ends.mono h fun a ha => Trace.Ends.pure
    (Trace.Ends.pure ha)))

theorem Ends.note {e : PhaseEvent} {k : Unit → Run β} {Q : Except CompileError β → Log → Prop}
    (h : Ends (k ()) { l with events := l.events ++ [e] } Q) : Ends (note e >>= k) l Q :=
  Ends.bind (Trace.Ends.pure h)

theorem Ends.get {k : Log → Run β} {Q : Except CompileError β → Log → Prop} (h : Ends (k l) l Q) :
    Ends (get >>= k) l Q :=
  Ends.bind (Trace.Ends.pure h)

theorem Ends.modify {g : Log → Log} {k : Unit → Run β} {Q : Except CompileError β → Log → Prop}
    (h : Ends (k ()) (g l) Q) :
    Ends (modify g >>= k) l Q :=
  Ends.bind (Trace.Ends.pure h)

end Runs

section Phases
variable {α : Type} {o : CompileOptions} {f : SourceFile} {parent : Nat} {p : Phase} {l : Log}

def Step.after (result : Except CompileError α) (elapsed : Int) : Step :=
  match result with
  | .ok _ => .ended elapsed
  | .error e => .failed e elapsed

theorem ends_phase {work : Nat → Trace.Traced (Except CompileError α)}
    {result : Except CompileError α} (hlive : o.isCancelled = false)
    (hwork : ∀ span, Trace.Ends (work span) (· = result)) :
    Ends (phase o f parent p work) l fun r l' => r = result ∧
      ∃ elapsed, l'.events = l.events ++ [⟨f.path, p, .started⟩,
        ⟨f.path, p, Step.after result elapsed⟩] := by
  rw [phase, hlive]
  refine Ends.traced (Trace.ends_of_forall _ fun span => ?_)
  refine Ends.note (Ends.traced (Trace.ends_of_forall _ fun t0 => Ends.get ?_))
  refine Ends.traced (Trace.Ends.mono (hwork _) ?_)
  rintro _ rfl
  refine Ends.traced (Trace.ends_of_forall _ fun t1 => ?_)
  split
  · refine Ends.modify (Ends.note (Ends.traced (Trace.ends_of_forall _ fun _ => Ends.pure ?_)))
    exact ⟨rfl, t1 - t0, List.append_assoc ..⟩
  · refine Ends.modify (Ends.note (Ends.traced (Trace.ends_of_forall _ fun _ => Ends.throw ?_)))
    exact ⟨rfl, t1 - t0, List.append_assoc ..⟩

theorem run_next (x y : Lowering.Lower Unit) (s : Lowering.State) :
    (do x; y : Lowering.Lower Unit) s = (x s).bind fun end_ => y.run end_.2 := rfl

theorem ends_lowerItems (parent : Nat) (is : List Item) (s : Lowering.State) :
    Trace.Ends (lowerItems parent is s) fun r =>
      r = ((Lowering.lowerItems is).run s).map (·.2) := by
  induction is generalizing s with
  | nil => exact Trace.Ends.pure rfl
  | cons i is ih =>
    have hrun : (Lowering.lowerItems (i :: is)).run s = (Lowering.lowerItem i s).bind fun end_ =>
        (Lowering.lowerItems is).run end_.2 := run_next ..
    rw [hrun]
    unfold lowerItems
    cases i with
    | func span d =>
      refine Trace.Ends.bind (Trace.ends_of_forall _ fun span => ?_)
      refine Trace.Ends.bind (Trace.ends_of_forall _ fun _ => Trace.Ends.bind (Trace.Ends.pure ?_))
      cases Lowering.lowerItem (.func _ d) s with
      | error e => exact Trace.Ends.pure rfl
      | ok end_ => exact ih end_.2
    | decl span d =>
      refine Trace.Ends.bind (Trace.Ends.pure ?_)
      cases Lowering.lowerItem (.decl span d) s with
      | error e => exact Trace.Ends.pure rfl
      | ok end_ => exact ih end_.2

theorem ends_lowerTraced (files : FileSet) (program : Program) (parent : Nat) :
    Trace.Ends (lowerTraced files program parent) (· = lowered files program) := by
  rw [lowerTraced]
  refine Trace.Ends.bind (Trace.ends_of_forall _ fun span => ?_)
  have hstop (span : Trace.Span) (detail : String) (r : Except CompileError Ir.Module) :
      Trace.Ends (do Trace.stop span detail; return r) (· = r) :=
    Trace.Ends.bind (Trace.ends_of_forall _ fun _ => Trace.Ends.pure rfl)
  rw [lowered, Program.lower, run_next]
  cases (Lowering.openLibrary : Lowering.Lower Unit) {} with
  | error e => exact Trace.Ends.bind (Trace.Ends.pure (hstop _ _ _))
  | ok end_ =>
    obtain ⟨_, s⟩ := end_
    refine Trace.Ends.bind ((ends_lowerItems _ program.items s).mono ?_)
    rintro _ rfl
    rw [Except.bind]
    cases (Lowering.lowerItems program.items).run s with
    | error e => exact hstop _ _ _
    | ok end_ => exact hstop _ _ _

end Phases

end Sysy.Compilation

namespace Sysy.SourceFile
open Compilation

/-- The program of a file about which nothing is reported. -/
theorem program_of_silent {f : SourceFile} {limit : Nat} (files : FileSet)
    (h : (f.parsed limit).reported = []) :
    f.program files limit = .ok (f.parsed limit).program := by
  unfold SourceFile.program Bag.firstError? Bag.ofList
  simp only [h, List.take_nil, List.find?_nil]

theorem program_of_reported {f : SourceFile} {limit : Nat} {d : Diagnostic} {ds : List Diagnostic}
    (files : FileSet) (h : (f.parsed limit).reported = d :: ds) :
    f.program files limit = .error (.failed (.ofDiagnostic files d)) := by
  have hmem : d ∈ (f.parsed limit).reported := h ▸ List.mem_cons_self
  have herror : d.severity.isError = true := by
    obtain ⟨p, span, rfl⟩ := Parser.located_of_mem_reported hmem
    rfl
  obtain ⟨n, hn⟩ : ∃ n, (Bag.empty limit).capacity = n + 1 := by
    unfold Bag.empty
    split
    · exact ⟨0, rfl⟩
    · rename_i hpos
      exact ⟨limit - 1, by simp only [Int.toNat_natCast]; omega⟩
  unfold SourceFile.program Bag.firstError? Bag.ofList
  simp only [h, hn, List.take_succ_cons, List.find?_cons, herror]

end Sysy.SourceFile

namespace Sysy.Compilation
open Sysy.Parser (Accounts)
variable {o : CompileOptions} {f : SourceFile} {parent : Nat}

/-- Lowering begins, with a program that accounts for its whole file, and the outcome is what
becomes of it. -/
def Goes (o : CompileOptions) (files : FileSet) (f : SourceFile) (c : Compilation) : Prop :=
  ∃ p, f.program files o.limit = .ok p ∧ Accounts f.id f.content p.items ∧
    (⟨f.path, .irgen, .started⟩ : PhaseEvent) ∈ c.events ∧
    c.outcome.map (·.output) = (do produced o (← lowered files p)).map Bytes.ofString

/-- Nothing but parsing is done, and it fails with an error that was reported. -/
def Fails (o : CompileOptions) (files : FileSet) (f : SourceFile) (c : Compilation) : Prop :=
  ∃ d elapsed, d ∈ (f.parsed o.limit).reported ∧
    c.outcome = .error (.failed (.ofDiagnostic files d)) ∧
    c.events = [⟨f.path, .parse, .started⟩,
      ⟨f.path, .parse, .failed (.failed (.ofDiagnostic files d)) elapsed⟩]

/-- Parsing ends with an error, or lowering begins. -/
theorem ends_phases (files : FileSet) (hlive : o.isCancelled = false) :
    Ends (phases o files f parent) {} fun r l => match f.program files o.limit with
      | .ok p => (⟨f.path, .irgen, .started⟩ : PhaseEvent) ∈ l.events ∧
          r.map (·.2) = (do produced o (← lowered files p))
      | .error e => r = .error e ∧ ∃ elapsed,
          l.events = [⟨f.path, .parse, .started⟩, ⟨f.path, .parse, .failed e elapsed⟩] := by
  refine Ends.bind ((ends_phase hlive fun _ => Trace.Ends.pure rfl).mono ?_)
  rintro _ l₁ ⟨rfl, t₁, hl₁⟩
  cases hparse : f.program files o.limit with
  | error e =>
    rw [hparse] at hl₁
    exact ⟨rfl, t₁, hl₁⟩
  | ok p =>
    dsimp only
    refine Ends.bind ((ends_phase hlive (ends_lowerTraced files p)).mono ?_)
    rintro r l₂ ⟨hr, t₂, hl₂⟩
    rw [hr]
    have hbegun : (⟨f.path, .irgen, .started⟩ : PhaseEvent) ∈ l₂.events := by
      rw [hl₂]
      exact List.mem_append_right _ List.mem_cons_self
    cases hlowered : lowered files p with
    | error e => exact ⟨hbegun, rfl⟩
    | ok m =>
      refine Ends.bind ((ends_phase hlive fun _ => Trace.Ends.pure rfl).mono ?_)
      rintro _ l₃ ⟨rfl, t₃, hl₃⟩
      have hbegun : (⟨f.path, .irgen, .started⟩ : PhaseEvent) ∈ l₃.events := by
        rw [hl₃]
        exact List.mem_append_left _ hbegun
      cases hproduced : produced o m with
      | error e => exact ⟨hbegun, hproduced.symm⟩
      | ok output => exact Ends.pure ⟨hbegun, hproduced.symm⟩

theorem ends_compile (files : FileSet) (hcache : o.cacheDir = none)
    (hlive : o.isCancelled = false) :
    Trace.Ends (compile o files f) fun c => match f.program files o.complete.limit with
      | .ok p => (⟨f.path, .irgen, .started⟩ : PhaseEvent) ∈ c.events ∧
          c.outcome.map (·.output) = (do produced o.complete (← lowered files p)).map Bytes.ofString
      | .error e => c.outcome = .error e ∧ ∃ elapsed,
          c.events = [⟨f.path, .parse, .started⟩, ⟨f.path, .parse, .failed e elapsed⟩] := by
  rw [compile]
  refine Trace.Ends.bind (Trace.ends_of_forall _ fun span => Trace.Ends.bind ?_)
  rw [fromCache_of_none hcache]
  refine Trace.Ends.pure ?_
  have hlive : o.complete.isCancelled = false := hlive
  refine Trace.Ends.bind (Trace.Ends.mono (ends_phases files hlive) ?_)
  rintro ⟨r, l⟩ hr
  dsimp only at hr ⊢
  generalize f.program files o.complete.limit = program at hr ⊢
  cases r with
  | error e =>
    refine Trace.Ends.bind (Trace.ends_of_forall _ fun _ => Trace.Ends.pure ?_)
    cases program with
    | error e' => exact ⟨congrArg Except.error (Except.error.inj hr.1), hr.2⟩
    | ok p => exact ⟨hr.1, congrArg (Except.map Bytes.ofString) hr.2⟩
  | ok output =>
    obtain ⟨m, text⟩ := output
    dsimp only
    rw [toCache_of_none hcache]
    refine Trace.Ends.bind
      (Trace.Ends.pure (Trace.Ends.bind (Trace.ends_of_forall _ fun _ => Trace.Ends.pure ?_)))
    cases program with
    | error e' => cases hr.1
    | ok p => exact ⟨hr.1, congrArg (Except.map Bytes.ofString) hr.2⟩

/-- A program is lowered only if it accounts for every token of its file, about which nothing is
wrong. Otherwise the compilation fails when it parses the file. The number of diagnostics that are
kept does not matter. -/
theorem compile_goes_or_fails (o : CompileOptions) (files : FileSet) (f : SourceFile)
    (hcache : o.cacheDir = none) (hlive : o.isCancelled = false) :
    Trace.Ends (compile o files f) fun c =>
      (∃ is, Accounts f.id f.content is) ∧ Goes o.complete files f c ∨
      (¬ ∃ is, Accounts f.id f.content is) ∧ Fails o.complete files f c := by
  refine Trace.Ends.mono (ends_compile files hcache hlive) fun c hc => ?_
  cases hreported : (f.parsed o.complete.limit).reported with
  | nil =>
    have haccounts := Parser.accounts_of_silent hreported
    rw [SourceFile.program_of_silent files hreported] at hc
    exact .inl ⟨⟨_, haccounts⟩, _, SourceFile.program_of_silent files hreported, haccounts, hc⟩
  | cons d ds =>
    rw [SourceFile.program_of_reported files hreported] at hc
    obtain ⟨houtcome, elapsed, hevents⟩ := hc
    have hmem : d ∈ (f.parsed o.complete.limit).reported := hreported ▸ List.mem_cons_self
    refine .inr ⟨fun haccounts => ?_, d, elapsed, hmem, houtcome, hevents⟩
    rw [SourceFile.parsed, (Parser.silent_iff f.id o.complete.limit f.content).mpr haccounts]
      at hreported
    cases hreported

def damagedSample : SourceFile := .ofText 0 "damaged" [64]

theorem not_accounts_damagedSample :
    ¬ ∃ is, Accounts damagedSample.id damagedSample.content is := by
  rintro ⟨is, hlexed, -⟩
  have hall : ∀ l ∈ lexemes 0 [64], l.problems = [] := hlexed
  exact absurd hall (by decide)

theorem compile_goes_or_fails_damagedSample :
    (({} : CompileOptions).cacheDir = none ∧ ({} : CompileOptions).isCancelled = false) ∧
      Trace.Ends (compile {} (.ofFile damagedSample) damagedSample)
        (Fails ({} : CompileOptions).complete (.ofFile damagedSample) damagedSample) := by
  refine ⟨⟨rfl, rfl⟩, Trace.Ends.mono (compile_goes_or_fails {} (.ofFile damagedSample)
    damagedSample rfl rfl) fun c hc => ?_⟩
  exact (hc.resolve_left fun h => not_accounts_damagedSample h.1).2

end Sysy.Compilation
