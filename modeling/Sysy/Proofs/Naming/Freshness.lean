import Std.Data.String.ToNat
import Sysy.Ir.Printer
import Mathlib.Tactic

/-!
Fresh names. A name that is taken gets a number, and the search for the number starts behind those
that it has been given before. So the number is the smallest one that is free, and the search ends
before it has passed over more names than are taken.
-/

namespace Sysy.Ir.Printer

variable {table : List (String × Nat)} {base name n : String} {i j k bound : Nat}

def numbered (base : String) (k : Nat) : String := base ++ "_" ++ toString k

theorem append_number_injective (front : String) :
    Function.Injective fun k : Nat => front ++ toString k := fun _ _ h =>
  Nat.repr_inj.mp ((String.append_right_inj front).mp h)

theorem numbered_injective (base : String) : Function.Injective (numbered base) :=
  append_number_injective (base ++ "_")

theorem underscore_mem_numbered (base : String) (k : Nat) : '_' ∈ (numbered base k).toList := by
  simp [numbered, String.toList_append]

/-- The name `n` is given to a value that asks for the name `base` when the names `taken` are taken:
the name itself if it is free, and otherwise the name with the smallest positive number that makes
it free. -/
def Renamed (taken : List String) (base n : String) : Prop :=
  base ∉ taken ∧ n = base ∨
    base ∈ taken ∧ ∃ k, 1 ≤ k ∧ n = numbered base k ∧ n ∉ taken ∧ ∀ j, 1 ≤ j → j < k →
      numbered base j ∈ taken

theorem Renamed.fresh {taken : List String} (h : Renamed taken base n) : n ∉ taken := by
  rcases h with ⟨hfree, rfl⟩ | ⟨-, k, -, -, hfree, -⟩
  · exact hfree
  · exact hfree

theorem count_cons (entry : String × Nat) (table : List (String × Nat)) (name : String) :
    count (entry :: table) name = if name = entry.1 then entry.2 else count table name := by
  obtain ⟨key, times⟩ := entry
  by_cases h : name = key
  · simp [count, h]
  · have hne : (name == key) = false := by simpa using h
    simp [count, List.lookup_cons, hne, h]

theorem count_bump (table : List (String × Nat)) (base name : String) :
    count (bump table base) name = if name = base then count table name +
      1 else count table name := by
  induction table with
  | nil =>
    rw [bump, count_cons]
    by_cases h : name = base <;> simp [count, h]
  | cons entry table ih =>
    obtain ⟨key, times⟩ := entry
    rw [bump]
    split
    · rename_i hkey
      subst hkey
      rw [count_cons, count_cons]
      by_cases h : name = key <;> simp [h]
    · rename_i hkey
      rw [count_cons, count_cons, ih]
      by_cases h : name = key
      · simp [h, hkey]
      · simp [h]

theorem mem_keys_of_count (h : 0 < count table name) : name ∈ table.map (·.1) := by
  induction table with
  | nil => simp [count] at h
  | cons entry table ih =>
    rw [count_cons] at h
    split at h
    · rename_i heq
      exact heq ▸ List.mem_cons_self ..
    · exact List.mem_cons_of_mem _ (ih h)

/-- Not all of the names that are looked at can be taken. -/
theorem exists_free (table : List (String × Nat)) (base : String) (i : Nat) :
    ∃ k, i ≤ k ∧ k ≤ i + table.length ∧ count table (numbered base k) = 0 := by
  by_contra! hall
  have hsub : (List.range (table.length + 1)).map (fun d => numbered base (i + d))
    ⊆ table.map (·.1) := by
    intro n hn
    obtain ⟨d, hd, rfl⟩ := List.mem_map.mp hn
    have hd := List.mem_range.mp hd
    exact mem_keys_of_count (Nat.pos_of_ne_zero (hall (i + d) (by omega) (by omega)))
  have hnodup : ((List.range (table.length + 1)).map fun d => numbered base (i + d)).Nodup :=
    List.Nodup.map (fun d e h => Nat.add_left_cancel (numbered_injective base h)) List.nodup_range
  have hlength := (List.subperm_of_subset hnodup hsub).length_le
  simp at hlength

theorem firstFree_eq (hk : i ≤ k) (hbound : k ≤ i + bound)
    (hfree : count table (numbered base k) = 0)
    (htaken : ∀ j, i ≤ j → j < k → 0 < count table (numbered base j)) :
    firstFree table base bound i = numbered base k := by
  induction bound generalizing i with
  | zero =>
    obtain rfl : k = i := by omega
    rfl
  | succ bound ih =>
    rw [firstFree]
    rcases Nat.eq_or_lt_of_le hk with rfl | hlt
    · exact if_neg (by rw [← numbered, hfree]; omega)
    · exact (if_pos (htaken i le_rfl hlt)).trans (ih hlt (by omega) fun j hj hjk => htaken j
        (by omega) hjk)

def Tidy (table : List (String × Nat)) : Prop :=
  ∀ base j, 1 ≤ j → j < count table base → 0 < count table (numbered base j)

def entered (table : List (String × Nat)) (base n : String) : List (String × Nat) :=
  if n = base then bump table n else bump (bump table n) base

theorem count_entered (table : List (String × Nat)) (base n name : String) :
    count (entered table base n) name =
    if name = n ∨ name = base then count table name + 1 else count table name := by
  unfold entered
  split
  · rename_i heq
    subst heq
    simp [count_bump]
  · rename_i hne
    rw [count_bump, count_bump]
    by_cases hb : name = base
    · subst hb
      simp [Ne.symm hne]
    · simp [hb]

/-- A name that is asked for is given as it is, or with the smallest number that is free. -/
theorem uniqueName_cases (h : Tidy table) (base : String) :
    count table base = 0 ∧ uniqueName table base = base ∨
    0 < count table base ∧ ∃ k, count table base ≤ k ∧ uniqueName table base = numbered base k ∧
      count table (numbered base k) = 0 ∧ ∀ j, 1 ≤ j → j < k →
      0 < count table (numbered base j) := by
  unfold uniqueName
  split
  · rename_i hfree
    exact .inl ⟨hfree, rfl⟩
  · rename_i htaken
    have hexists : ∃ k, count table base ≤ k ∧ count table (numbered base k) = 0 := by
      obtain ⟨k, hk, -, hfree⟩ := exists_free table base (count table base)
      exact ⟨k, hk, hfree⟩
    classical
    have hleast (j : Nat) (hj : count table base ≤ j) (hlt : j < Nat.find hexists) :
      0 < count table (numbered base j) :=
      Nat.pos_of_ne_zero fun hzero => Nat.find_min hexists hlt ⟨hj, hzero⟩
    obtain ⟨hk, hfree⟩ := Nat.find_spec hexists
    obtain ⟨k, hk', hbound, hfree'⟩ := exists_free table base (count table base)
    have hmin : Nat.find hexists ≤ k := Nat.find_min' hexists ⟨hk', hfree'⟩
    refine .inr ⟨Nat.pos_of_ne_zero htaken, Nat.find hexists, hk,
      firstFree_eq hk (hmin.trans hbound) hfree hleast, hfree,
      fun j hj hlt => ?_⟩
    rcases Nat.lt_or_ge j (count table base) with hsmall | hlarge
    · exact h base j hj hsmall
    · exact hleast j hlarge hlt

theorem count_uniqueName (h : Tidy table) (base : String) :
    count table (uniqueName table base) = 0 := by
  rcases uniqueName_cases h base with ⟨hfree, heq⟩ | ⟨-, k, -, heq, hfree, -⟩
  · rw [heq, hfree]
  · rw [heq, hfree]

theorem count_entered_pos (h : Tidy table) (base name : String) :
    0 < count (entered table base (uniqueName table base)) name ↔ 0 < count table name ∨
    name = uniqueName table base := by
  rw [count_entered]
  by_cases hname : name = uniqueName table base
  · simp [hname]
  by_cases hbase : name = base
  · subst hbase
    rcases uniqueName_cases h name with ⟨-, heq⟩ | ⟨htaken, -⟩
    · exact absurd heq.symm hname
    · simp [htaken]
  · simp [hname, hbase]

theorem Tidy.entered (h : Tidy table) (base : String) :
    Tidy (entered table base (uniqueName table base)) := by
  intro b j hj hlt
  rw [count_entered_pos h]
  rw [count_entered] at hlt
  split at hlt
  · rename_i hb
    rcases hb with rfl | rfl
    · have := count_uniqueName h base
      omega
    · rcases Nat.lt_or_ge j (count table b) with hsmall | hlarge
      · exact .inl (h b j hj hsmall)
      · obtain rfl : j = count table b := by omega
        rcases uniqueName_cases h b with ⟨hfree, -⟩ | ⟨-, k, hk, heq, -, hbelow⟩
        · omega
        · rcases Nat.eq_or_lt_of_le hk with rfl | hk
          · exact .inr heq.symm
          · exact .inl (hbelow _ hj hk)
  · exact .inl (h b j hj hlt)

theorem renamed_uniqueName {taken : List String} (h : Tidy table)
    (hbase : 0 < count table base ↔ base ∈ taken)
    (hnumbered : ∀ k, 0 < count table (numbered base k) ↔ numbered base k ∈ taken) :
    Renamed taken base (uniqueName table base) := by
  rcases uniqueName_cases h base with ⟨hfree, heq⟩ | ⟨htaken, k, hk, heq, hfree, hbelow⟩
  · exact .inl ⟨fun hmem => by have := hbase.mpr hmem; omega, heq⟩
  · refine .inr ⟨hbase.mp htaken, k, by
      omega, heq, fun hmem => ?_, fun j hj hlt => (hnumbered j).mp (hbelow j hj hlt)⟩
    have := (hnumbered k).mpr (heq ▸ hmem)
    omega

end Sysy.Ir.Printer
