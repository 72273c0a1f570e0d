import Mathlib.Data.Finmap
import Mathlib.Data.Finset.Sort
import Mathlib.Order.Lattice.Nat

/-!
Finite tables in the manner of an unordered map: a key occurs at most once and
the order of iteration is not part of the value. `insertNew` is the insertion
that leaves an existing entry alone; `Finmap.insert` overwrites it.
-/

/-- A finite table from keys to values. -/
abbrev Table (K V : Type) := Finmap fun _ : K => V

namespace Table

variable {K V : Type} [DecidableEq K]

def insertNew (k : K) (v : V) (m : Table K V) : Table K V := if k ∈ m then m else m.insert k v

theorem lookup_erase_eq (m : Table K V) (a b : K) :
    (m.erase a).lookup b = if b = a then none else m.lookup b := by
  split_ifs with h
  · subst h
    exact Finmap.lookup_erase _ _
  · exact Finmap.lookup_erase_ne h

theorem lookup_of_erase {m : Table K V} {a b : K} {v : V} (h : (m.erase a).lookup b = some v) :
    m.lookup b = some v := by
  rw [lookup_erase_eq] at h
  split_ifs at h
  exact h

theorem lookup_insert_eq (m : Table K V) (a b : K) (v : V) :
    (m.insert a v).lookup b = if b = a then some v else m.lookup b := by
  split_ifs with h
  · subst h
    exact Finmap.lookup_insert _
  · exact Finmap.lookup_insert_of_ne _ h

theorem lookup_insertNew (m : Table K V) (a b : K) (v : V) :
    (insertNew a v m).lookup b = if b = a ∧ a ∉ m then some v else m.lookup b := by
  unfold insertNew
  by_cases ha : a ∈ m
  · simp [ha]
  · simp only [ha, ↓reduceIte, lookup_insert_eq, not_false_eq_true, and_true]

theorem mem_insertNew (m : Table K V) (a b : K) (v : V) :
    b ∈ insertNew a v m ↔ b = a ∨ b ∈ m := by
  unfold insertNew
  split_ifs with ha
  · constructor
    · exact Or.inr
    · rintro (rfl | hb)
      · exact ha
      · exact hb
  · exact Finmap.mem_insert

theorem mem_of_lookup {m : Table K V} {k : K} {v : V} (h : m.lookup k = some v) : k ∈ m :=
  Finmap.mem_of_lookup_eq_some h

theorem erase_of_notMem {m : Table K V} {k : K} (h : k ∉ m) : m.erase k = m := by
  apply Finmap.ext_lookup
  intro x
  rw [lookup_erase_eq]
  split_ifs with hx
  · subst hx
    exact (Finmap.lookup_eq_none.mpr h).symm
  · rfl

/-- Number of entries. -/
def size (m : Table K V) : ℕ := m.keys.card

omit [DecidableEq K] in
@[simp] theorem size_empty : size (∅ : Table K V) = 0 := by simp [size]

theorem size_erase_of_mem {m : Table K V} {k : K} (h : k ∈ m) : size (m.erase k) + 1 = size m := by
  unfold size
  rw [Finmap.keys_erase]
  exact Finset.card_erase_add_one (Finmap.mem_keys.mpr h)

theorem keys_insert (m : Table K V) (k : K) (v : V) : (m.insert k v).keys = insert k m.keys := by
  ext x
  simp [Finmap.mem_keys]

theorem size_insert_of_notMem {m : Table K V} {k : K} (v : V) (h : k ∉ m) :
    size (m.insert k v) = size m + 1 := by
  unfold size
  rw [keys_insert, Finset.card_insert_of_notMem (mt Finmap.mem_keys.mp h)]

theorem size_insert_of_mem {m : Table K V} {k : K} (v : V) (h : k ∈ m) :
    size (m.insert k v) = size m := by
  unfold size
  rw [keys_insert, Finset.insert_eq_of_mem (Finmap.mem_keys.mpr h)]

omit [DecidableEq K] in
theorem size_le_of_subset {m m' : Table K V} (h : ∀ k ∈ m, k ∈ m') : size m ≤ size m' := by
  apply Finset.card_le_card
  intro k hk
  exact Finmap.mem_keys.mpr (h k (Finmap.mem_keys.mp hk))

theorem size_insertNew_le (m : Table K V) (k : K) (v : V) :
    size (insertNew k v m) ≤ size m + 1 := by
  unfold insertNew
  split_ifs with h
  · exact Nat.le_succ _
  · exact (size_insert_of_notMem v h).le

end Table

/-- An order of iteration: some listing, without repetition, of the keys of every table. -/
structure Listing (K V : Type) where
  toList : Table K V → List K
  nodup : ∀ m, (toList m).Nodup
  mem_toList : ∀ m k, k ∈ toList m ↔ k ∈ m

/-- An allocator: any choice, for every heap, of an address that is not in use. -/
structure Allocator (V : Type) where
  next : Table ℕ V → ℕ
  fresh : ∀ m, next m ∉ m

/-- The allocator that prefers a given address and otherwise goes past the highest one in use. -/
def Allocator.prefer (V : Type) (a : ℕ) : Allocator V where
  next m := if a ∈ m then m.keys.sup id + 1 else a
  fresh m := by
    split_ifs with h
    · intro hm
      have := Finset.le_sup (f := id) (Finmap.mem_keys.mpr hm)
      simp only [id_eq] at this
      omega
    · exact h

/-- Iteration in increasing order of the keys. -/
def Listing.sorted (V : Type) : Listing ℕ V where
  toList m := m.keys.sort (· ≤ ·)
  nodup m := Finset.sort_nodup _ _
  mem_toList m k := by simp [Finmap.mem_keys]
