import Sysy.Compilation

/-!
What a compilation asks for. Without a cache, it makes no file and no directory and removes none,
whatever the answers are; all that it may add to a file is a line of the trace.
-/

namespace Sysy.Host

/-- A request that makes no file and no directory, and removes none. A line that is traced may be
added to a file. -/
def Request.Spares : Request → Prop
  | .write _ _ | .makeDirs _ | .removeTree _ => False
  | _ => True

end Sysy.Host

namespace Sysy.Host.Action
variable {α β : Type} {R : Request → Prop}

def Asks (R : Request → Prop) : Action α → Prop
  | done _ => True
  | ask q next => R q ∧ ∀ answer, (next answer).Asks R

theorem Asks.andThen {x : Action α} {k : α → Action β} (h : x.Asks R) (hk : ∀ a, (k a).Asks R) :
    (x.andThen k).Asks R := by
  induction x with
  | done a => exact hk a
  | ask q next ih => exact ⟨h.1, fun answer => ih answer (h.2 answer)⟩

end Sysy.Host.Action

namespace Sysy.Trace
open Host
variable {α β : Type}

def Spares (x : Traced α) : Prop := ∀ r, (x r).Asks Request.Spares

theorem spares_pure (a : α) : Spares (pure a) := fun _ => trivial

theorem Spares.bind {x : Traced α} {k : α → Traced β} (h : Spares x) (hk : ∀ a, Spares (k a)) :
    Spares (x >>= k) :=
  fun r => (h r).andThen fun end_ => hk end_.1 end_.2

theorem spares_lift {x : Action α} (h : x.Asks Request.Spares) : Spares (StateT.lift x) :=
  fun _ => h.andThen fun _ => trivial

theorem spares_emit (e : Event) : Spares (emit e) := by
  refine fun r => ⟨trivial, fun now => ?_⟩
  cases r with | mk level format output opened spans events =>
  cases output with
  | errors => exact ⟨trivial, fun _ => trivial⟩
  | file path => exact ⟨trivial, fun _ => trivial⟩

theorem spares_start (grain : Grain) (name : String) (parent : Nat) :
    Spares (start grain name parent) := by
  refine Spares.bind (fun _ => trivial) fun r => ?_
  dsimp only
  split
  · exact Spares.bind (fun _ => trivial) fun _ => Spares.bind (spares_emit _) fun _ => spares_pure _
  · exact spares_pure _

theorem spares_stop (s : Span) (detail : String) : Spares (stop s detail) := by
  unfold stop
  split
  · exact spares_emit _
  · exact spares_pure _

end Sysy.Trace

namespace Sysy.Compilation
open Host

section Runs
variable {α β : Type}

/-- Whatever was seen, the steps `x` of a compilation spare the files. -/
def Spares (x : Run α) : Prop := ∀ l, Trace.Spares (x.run.run l)

theorem spares_pure (a : α) : Spares (pure a) := fun _ => Trace.spares_pure _

theorem spares_throw (e : CompileError) : Spares (throw e : Run α) := fun _ => Trace.spares_pure _

theorem spares_get : Spares get := fun _ => Trace.spares_pure _

theorem spares_modify (g : Log → Log) : Spares (modify g) := fun _ => Trace.spares_pure _

theorem Spares.bind {x : Run α} {k : α → Run β} (h : Spares x) (hk : ∀ a, Spares (k a)) :
    Spares (x >>= k) := by
  intro l
  rw [ExceptT.run_bind, StateT.run_bind]
  refine Trace.Spares.bind (h l) ?_
  rintro ⟨_ | a, l'⟩
  · exact Trace.spares_pure _
  · exact hk a l'

theorem spares_traced {x : Trace.Traced α} (h : Trace.Spares x) : Spares (traced x) := by
  intro l
  have hrun : (traced x).run.run l =
      (x >>= fun a => Pure.pure (a, l)) >>= fun end_ => Pure.pure (Except.ok end_.1, end_.2) := rfl
  rw [hrun]
  exact Trace.Spares.bind (Trace.Spares.bind h fun _ => Trace.spares_pure _) fun _ =>
    Trace.spares_pure _

theorem spares_now : Action.now.Asks Request.Spares := ⟨trivial, fun _ => trivial⟩

theorem spares_clock : Spares clock := spares_traced (Trace.spares_lift spares_now)

end Runs

variable {α : Type} {o : CompileOptions} {f : SourceFile} {files : FileSet} {parent : Nat}

theorem spares_phase {p : Phase} {work : Nat → Trace.Traced (Except CompileError α)}
    (hwork : ∀ span, Trace.Spares (work span)) : Spares (phase o f parent p work) := by
  have hstop (span : Trace.Span) (detail : String) : Spares (traced (Trace.stop span detail)) :=
    spares_traced (Trace.spares_stop span detail)
  cases hoff : o.isCancelled with
  | true =>
    rw [phase, hoff]
    exact fun _ => Trace.spares_pure _
  | false =>
    rw [phase, hoff]
    refine Spares.bind (spares_traced (Trace.spares_start _ _ _)) fun span =>
      Spares.bind (spares_modify _) fun _ => ?_
    refine Spares.bind spares_clock fun _ => Spares.bind spares_get fun _ => ?_
    refine Spares.bind (spares_traced (hwork _)) fun result => Spares.bind spares_clock fun _ => ?_
    split
    · refine Spares.bind (spares_modify _) fun _ => Spares.bind (spares_modify _) fun _ => ?_
      exact Spares.bind (hstop _ _) fun _ => spares_pure _
    · refine Spares.bind (spares_modify _) fun _ => Spares.bind (spares_modify _) fun _ => ?_
      exact Spares.bind (hstop _ _) fun _ => spares_throw _

theorem spares_stop_pure (span : Trace.Span) (detail : String) (a : α) :
    Trace.Spares (do Trace.stop span detail; return a) :=
  Trace.Spares.bind (Trace.spares_stop _ _) fun _ => Trace.spares_pure _

theorem spares_lowerItems (is : List Item) (s : Lowering.State) :
    Trace.Spares (lowerItems parent is s) := by
  induction is generalizing s with
  | nil => exact Trace.spares_pure _
  | cons i is ih =>
    unfold lowerItems
    cases i with
    | func span d =>
      refine Trace.Spares.bind (Trace.spares_start _ _ _) fun span => ?_
      refine Trace.Spares.bind (Trace.spares_stop _ _) fun _ =>
        Trace.Spares.bind (Trace.spares_pure _) fun result => ?_
      cases result with
      | ok end_ => exact ih end_.2
      | error e => exact Trace.spares_pure _
    | decl span d =>
      refine Trace.Spares.bind (Trace.spares_pure _) fun result => ?_
      cases result with
      | ok end_ => exact ih end_.2
      | error e => exact Trace.spares_pure _

theorem spares_lowered (span : Trace.Span) (result : Except LoweringStop Lowering.State) :
    Trace.Spares (match result with
      | .ok s => do
        Trace.stop ((span.withFact "funcs" (toString s.module.funcs.size)).withFact "globals"
          (toString s.module.globals.size)) ""
        return (.ok s.module : Except CompileError Ir.Module)
      | .error e => do
        Trace.stop span "failed"
        return .error (e.toError files)) := by
  cases result with
  | error e => exact spares_stop_pure _ _ _
  | ok s => exact spares_stop_pure _ _ _

theorem spares_lowerTraced (p : Program) : Trace.Spares (lowerTraced files p parent) := by
  rw [lowerTraced]
  refine Trace.Spares.bind (Trace.spares_start _ _ _) fun span => ?_
  cases (Lowering.openLibrary : Lowering.Lower Unit) {} with
  | error e => exact Trace.Spares.bind (Trace.spares_pure _) (spares_lowered span)
  | ok end_ => exact Trace.Spares.bind (spares_lowerItems _ _) (spares_lowered span)

theorem spares_phases : Spares (phases o files f parent) := by
  unfold phases
  refine Spares.bind (spares_phase fun _ => Trace.spares_pure _) fun program => ?_
  refine Spares.bind (spares_phase fun _ => spares_lowerTraced program) fun m => ?_
  exact Spares.bind (spares_phase fun _ => Trace.spares_pure _) fun _ => spares_pure _

theorem spares_compile (hcache : o.cacheDir = none) : Trace.Spares (compile o files f) := by
  unfold compile
  refine Trace.Spares.bind (Trace.spares_start _ _ _) fun span =>
    Trace.Spares.bind (Trace.spares_lift ?_) ?_
  · rw [fromCache_of_none hcache]
    trivial
  rintro ⟨held, fact⟩
  dsimp only
  split
  · exact spares_stop_pure _ _ _
  · refine Trace.Spares.bind (spares_phases {}) ?_
    rintro ⟨result, log⟩
    dsimp only
    split
    · exact spares_stop_pure _ _ _
    · rw [toCache_of_none hcache]
      exact Trace.Spares.bind (Trace.spares_lift trivial) fun _ => spares_stop_pure _ _ _

theorem spares_compilePath (path : String) (hcache : o.cacheDir = none) :
    Trace.Spares (compilePath o path) := by
  unfold compilePath
  refine Trace.Spares.bind (Trace.spares_lift (x :=
    Action.readFile path) ⟨trivial, fun _ => trivial⟩) fun read => ?_
  split
  · exact Trace.spares_pure _
  · exact spares_compile hcache

end Sysy.Compilation
