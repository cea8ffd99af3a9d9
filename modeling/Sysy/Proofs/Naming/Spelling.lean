import Sysy.Proofs.Assembly.Names
import Sysy.Proofs.Naming.Order
import Sysy.Proofs.Naming.Slots

/-!
How values are named by lowering. No step makes a value whose name is a number behind a percent
sign, unless a parameter of the program is named like a number, which no word of a file is.
-/

namespace Sysy

def Wordy (name : String) : Prop := ∀ k : Nat, name ≠ "%" ++ toString k

def Program.Spelled (p : Program) : Prop :=
  ∀ span d, .func span d ∈ p.items → ∀ prm ∈ d.params, ∀ k : Nat, prm.name ≠ toString k

theorem wordy_of_head {name : String} (h : name.toList.head? ≠ some '%') : Wordy name := by
  rintro k rfl
  simp [String.toList_append] at h

theorem wordy_percent {name : String} (h : ∀ k : Nat, name ≠ toString k) : Wordy ("%" ++ name) := by
  intro k heq
  have hlist := congrArg String.toList heq
  rw [String.toList_append, String.toList_append] at hlist
  exact h k (String.toList_inj.mp (List.append_cancel_left hlist))

theorem wordy_ret : Wordy "%ret" :=
  wordy_percent (Ir.Printer.ne_toString (by decide : 'r' ∈ "ret".toList) (by decide))

namespace Ir

/-- Nothing in a module is named like a value without a name. -/
def Module.Spelled (m : Module) : Prop := ∀ v ∈ m.values, Wordy v.name

end Ir

namespace Lowering
open Ir

theorem spelled_of_lower {p : Program} {m : Module} (hp : p.Spelled) (h : p.lower = .ok m) :
    m.Spelled := by
  intro v hv
  by_cases hmarked : Marked v.name
  · have hmem := Module.mem_slots (Array.mem_toList_iff.mpr hv) hmarked
    rcases slotted_of_lower h v.func with ⟨hnil, -⟩ | ⟨span, d, fn, hitem, -, -, hslots, -⟩
    · rw [hnil] at hmem
      cases hmem
    · rw [hslots] at hmem
      rcases d.mem_slots hmem with ⟨-, hname⟩ | ⟨prm, hprm, hname⟩
      · exact hname ▸ wordy_ret
      · exact hname ▸ wordy_percent (hp span d hitem prm hprm)
  · exact wordy_of_head hmarked

end Lowering

namespace Parser
open Token Grammar

theorem Word.ne_toString {t : Token} (h : Word t) :
    ∀ k : Nat, Bytes.toAscii t.text ≠ toString k := by
  obtain ⟨b, rest, htext, hletter⟩ := h
  have hletters : ∀ n : Fin 256, isLetter (UInt8.ofNat n) = true → (Char.ofNat n).isDigit = false :=
    by decide +kernel
  have hb := hletters ⟨b.toNat, b.toNat_lt⟩ (by simpa using hletter)
  refine Ir.Printer.ne_toString ?_ hb
  rw [htext, Bytes.toAscii, String.toList_ofList]
  exact List.mem_cons_self ..

theorem spelled_of_isItems {ts : List Token} {is : List Item}
    (hts : ∀ t ∈ ts, t.kind = .ident → Word t) (h : IsItems ts is) :
    ∀ span d, .func span d ∈ is → ∀ prm ∈ d.params, ∀ k : Nat, prm.name ≠ toString k := by
  induction h with
  | nil => simp
  | cons hi _ ih =>
    intro span d hmem
    rcases List.mem_cons.mp hmem with rfl | hmem
    · cases hi with
      | func _ _ _ hps =>
        cases hps with
        | nil => simp
        | some hps =>
          refine forall_of_isList (fun ts prm hts hprm => ?_) (fun t ht => hts t (by simp [ht])) hps
          cases hprm with
          | number _ ht | array _ ht => exact (hts _ (by simp) ht).ne_toString
    · exact ih (fun t ht => hts t (List.mem_append_right _ ht)) span d hmem

theorem spelled_of_parse {file : Nat} {content : Bytes}
    (h : (parse file 0 (lexemes file content)).errors = 0) :
    (parse file 0 (lexemes file content)).program.Spelled :=
  spelled_of_isItems word_of_mem_sentence (isItems_of_parse h)

end Parser

namespace Ir

theorem Module.Spelled.plain {m : Module} (h : m.Spelled) : m.Plain := by
  intro id b hb k
  obtain ⟨v, hv, hbase⟩ := Option.bind_eq_some_iff.mp hb
  unfold Value.baseName? at hbase
  split at hbase
  · obtain rfl := Option.some.inj hbase
    exact h v (Array.mem_toList_iff.mp (Module.mem_values hv)) k
  · split at hbase
    · obtain rfl := Option.some.inj hbase
      exact wordy_of_head (by simp [String.toList_append, toString]) k
    · cases hbase

end Ir

end Sysy
