import Sysy.Crew
import Sysy.Proofs.Phases

/-!
What becomes of an action when something is known of the answers to its requests: all of its ends
are as `EndsWith` tells, and `MayEnd` is one of them. A disk answers what is read, and nothing is
known of other answers then.
-/

namespace Sysy.Host.Action
variable {α β : Type} {A : (q : Request) → q.Reply → Prop} {P P' : α → Prop}

/-- With answers that `A` admits, whatever they are, the action ends as `P` tells. -/
def EndsWith (A : (q : Request) → q.Reply → Prop) (P : α → Prop) : Action α → Prop
  | done a => P a
  | ask q next => ∀ answer, A q answer → (next answer).EndsWith A P

theorem Ends.endsWith {x : Action α} (h : x.Ends P) : x.EndsWith A P := by
  induction x with
  | done a => exact h
  | ask q next ih => exact fun answer _ => ih answer (h answer)

theorem EndsWith.mono {x : Action α} (h : x.EndsWith A P) (hP : ∀ a, P a → P' a) :
    x.EndsWith A P' := by
  induction x with
  | done a => exact hP a h
  | ask q next ih => exact fun answer hanswer => ih answer (h answer hanswer)

theorem EndsWith.andThen {x : Action α} {k : α → Action β} {Q : β → Prop}
    (h : x.EndsWith A fun a => (k a).EndsWith A Q) : (x.andThen k).EndsWith A Q := by
  induction x with
  | done a => exact h
  | ask q next ih => exact fun answer hanswer => ih answer (h answer hanswer)

theorem EndsWith.and {x : Action α} (h : x.EndsWith A P) (h' : x.EndsWith A P') :
    x.EndsWith A fun a => P a ∧ P' a := by
  induction x with
  | done a => exact ⟨h, h'⟩
  | ask q next ih => exact fun answer hanswer => ih answer (h answer hanswer) (h' answer hanswer)

inductive MayEnd (A : (q : Request) → q.Reply → Prop) : Action α → α → Prop where
  | done (a : α) : MayEnd A (.done a) a
  | ask {q : Request} {next : q.Reply → Action α} {answer : q.Reply} {a : α} (hanswer : A q answer)
    (h : MayEnd A (next answer) a) : MayEnd A (.ask q next) a

theorem EndsWith.of_mayEnd {x : Action α} {a : α} (h : x.EndsWith A P)
    (ha : MayEnd A x a) : P a := by
  induction ha with
  | done a => exact h
  | ask hanswer _ ih => exact ih (h _ hanswer)

theorem exists_mayEnd (x : Action α) (hA : ∀ q, ∃ answer, A q answer) : ∃ a, MayEnd A x a := by
  induction x with
  | done a => exact ⟨a, .done a⟩
  | ask q next ih =>
    obtain ⟨answer, hanswer⟩ := hA q
    obtain ⟨a, ha⟩ := ih answer
    exact ⟨a, .ask hanswer ha⟩

theorem EndsWith.exists {x : Action α} (h : x.EndsWith A P) (hA : ∀ q, ∃ answer, A q answer) :
    ∃ a, P a :=
  let ⟨a, ha⟩ := x.exists_mayEnd hA
  ⟨a, h.of_mayEnd ha⟩

end Sysy.Host.Action

namespace Sysy.Trace
open Host
variable {α β : Type} {A : (q : Request) → q.Reply → Prop} {P P' : α → Prop}

/-- Whatever is recorded, and with whatever answers that `A` admits, `x` ends as `P` tells. -/
def EndsWith (A : (q : Request) → q.Reply → Prop) (x : Traced α) (P : α → Prop) : Prop :=
  ∀ r, (x r).EndsWith A fun end_ => P end_.1

theorem Ends.endsWith {x : Traced α} (h : Ends x P) : EndsWith A x P := fun r => (h r).endsWith

theorem EndsWith.mono {x : Traced α} (h : EndsWith A x P) (hP : ∀ a, P a → P' a) :
    EndsWith A x P' :=
  fun r => (h r).mono fun _ => hP _

theorem EndsWith.bind {x : Traced α} {k : α → Traced β} {Q : β → Prop}
    (h : EndsWith A x fun a => EndsWith A (k a) Q) :
    EndsWith A (x >>= k) Q :=
  fun r => ((h r).mono fun end_ hend => hend end_.2).andThen

theorem EndsWith.lift {x : Action α} (h : x.EndsWith A P) : EndsWith A (StateT.lift x) P :=
  fun _ => Action.EndsWith.andThen (h.mono fun _ => id)

theorem EndsWith.exists {x : Traced α} (h : EndsWith A x P) (hA : ∀ q, ∃ answer, A q answer) :
    ∃ a, P a :=
  let ⟨end_, hend⟩ := (h {}).exists hA
  ⟨end_.1, hend⟩

theorem EndsWith.and {x : Traced α} (h : EndsWith A x P) (h' : EndsWith A x P') :
    EndsWith A x fun a => P a ∧ P' a :=
  fun r => (h r).and (h' r)

end Sysy.Trace

namespace Sysy.Disk
open Host

/-- Whether an answer is what the disk holds; it holds nothing but files. -/
def Answers (disk : Disk) : (q : Request) → q.Reply → Prop
  | .read path, answer => answer = disk path
  | _, _ => True

theorem exists_answers (disk : Disk) (q : Request) : ∃ answer, disk.Answers q answer := by
  cases q with
  | read path => exact ⟨disk path, rfl⟩
  | write path content => exact ⟨.ok (), trivial⟩
  | append path content => exact ⟨.ok (), trivial⟩
  | makeDirs path => exact ⟨.ok (), trivial⟩
  | removeTree path => exact ⟨.ok (), trivial⟩
  | stat path => exact ⟨.ok (), trivial⟩
  | print stream content => exact ⟨(), trivial⟩
  | now => exact ⟨(0 : Int), trivial⟩
  | env name => exact ⟨"", trivial⟩
  | workDir => exact ⟨"", trivial⟩
  | isTerminal stream => exact ⟨false, trivial⟩

end Sysy.Disk
