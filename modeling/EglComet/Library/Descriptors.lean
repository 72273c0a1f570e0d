import EglComet.Library.Table
import Mathlib.Data.Finset.Card
import Mathlib.Data.Finset.Range

/-!
The descriptor table of a process. Descriptors are small numbers that are given
out again as soon as they are free: `open` takes the smallest one, `dup2` takes
the one it is told.
-/
namespace Descriptors

variable {F : Type}

/-- The smallest descriptor that is not in use; one of the first `size + 1` is not. -/
def lowest (t : Table ℕ F) : ℕ :=
  ((List.range (Table.size t + 1)).find? fun n => decide (n ∉ t)).getD 0

theorem lowest_spec (t : Table ℕ F) : lowest t ∉ t ∧ ∀ n < lowest t, n ∈ t := by
  have hcard : t.keys.card < (Finset.range (Table.size t + 1)).card := by
    rw [Finset.card_range]
    exact Nat.lt_succ_self _
  obtain ⟨n, hn, hfree⟩ := Finset.exists_mem_notMem_of_card_lt_card hcard
  cases hfind : (List.range (Table.size t + 1)).find? fun n => decide (n ∉ t) with
  | none =>
    have hall := List.find?_eq_none.mp hfind n (List.mem_range.mpr (Finset.mem_range.mp hn))
    exact absurd (Finmap.mem_keys.mpr (by simpa using hall)) hfree
  | some m =>
    obtain ⟨hm, -, hmin⟩ := List.find?_range_eq_some.mp hfind
    rw [lowest, hfind, Option.getD_some]
    exact ⟨by simpa using hm, fun n hn => by simpa using hmin n hn⟩

theorem lowest_notMem (t : Table ℕ F) : lowest t ∉ t := (lowest_spec t).1

theorem lowest_le {t : Table ℕ F} {n : ℕ} (h : n ∉ t) : lowest t ≤ n :=
  not_lt.mp fun hlt => h ((lowest_spec t).2 n hlt)

/-- A successful `open`: the descriptor, and the table with it. -/
def openFile (f : F) (t : Table ℕ F) : ℕ × Table ℕ F := (lowest t, t.insert (lowest t) f)

/-- `close`, which fails on a descriptor that is not in use. -/
def close (n : ℕ) (t : Table ℕ F) : Option (Table ℕ F) := if n ∈ t then some (t.erase n) else none

/-- `dup2`, which fails if the descriptor to copy is not in use. -/
def dup2 (old new : ℕ) (t : Table ℕ F) : Option (Table ℕ F) :=
  (t.lookup old).map fun f => t.insert new f

theorem lookup_lowest (t : Table ℕ F) : t.lookup (lowest t) = none :=
  Finmap.lookup_eq_none.mpr (lowest_notMem t)

/-- A descriptor in use is not the one that is opened next. -/
theorem ne_lowest {t : Table ℕ F} {n : ℕ} {f : F} (h : t.lookup n = some f) : n ≠ lowest t := by
  rintro rfl
  rw [lookup_lowest] at h
  cases h

end Descriptors
