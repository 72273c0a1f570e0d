import EglComet.Library.Table
import Mathlib.Logic.Function.Basic

/-!
A directory kept in two tables: every name may have a holder, and every known
holder carries a name. The tables are updated separately, so each of the two
directions of agreement is an invariant of its own.
-/

/-- The holder of each name, and the name of each known holder. -/
structure Directory (I A : Type) where
  holder : I → Option A
  names : Table A I

namespace Directory

variable {I A : Type} [DecidableEq I] [DecidableEq A]

/-- A new holder enters under a given name unless it is already known. -/
def enter (x : I) (b : A) (d : Directory I A) : Directory I A :=
  { d with names := Table.insertNew b x d.names }

/-- A name is given up, and its holder is forgotten. -/
def remove (x : I) (d : Directory I A) : Directory I A :=
  match d.holder x with
  | none => d
  | some a => ⟨Function.update d.holder x none, d.names.erase a⟩

/-- A holder is forgotten, and the name it carries is given up. -/
def leave (b : A) (d : Directory I A) : Directory I A :=
  match d.names.lookup b with
  | none => d
  | some x => ⟨Function.update d.holder x none, d.names.erase b⟩

/-- A holder takes a name, which keeps its former holder if it has one. -/
def bind (x : I) (b : A) (d : Directory I A) : Directory I A :=
  ⟨Function.update d.holder x (some ((d.holder x).getD b)), d.names.insert b x⟩

/-- Names other than the placeholder are held by whoever carries them. -/
def Backed (x₀ : I) (d : Directory I A) : Prop :=
  ∀ b x, d.names.lookup b = some x → x ≠ x₀ → d.holder x = some b

/-- Whoever holds a name carries it. -/
def Coherent (d : Directory I A) : Prop := ∀ x b, d.holder x = some b → d.names.lookup b = some x

theorem holder_remove (x y : I) (d : Directory I A) :
    (d.remove x).holder y = if y = x then none else d.holder y := by
  unfold remove
  cases hx : d.holder x with
  | none =>
    split_ifs with h
    · rw [h, hx]
    · rfl
  | some a => simp only [Function.update_apply]

theorem lookup_remove (x : I) (b : A) (d : Directory I A) :
    (d.remove x).names.lookup b = if d.holder x = some b then none else d.names.lookup b := by
  unfold remove
  cases hx : d.holder x with
  | none => simp
  | some a => simp only [Table.lookup_erase_eq, Option.some.injEq, eq_comm]

theorem holder_leave (b : A) (y : I) (d : Directory I A) :
    (d.leave b).holder y = if d.names.lookup b = some y then none else d.holder y := by
  unfold leave
  cases hb : d.names.lookup b with
  | none => simp
  | some x => simp only [Function.update_apply, Option.some.injEq, eq_comm]

theorem lookup_leave (b c : A) (d : Directory I A) :
    (d.leave b).names.lookup c = if c = b then none else d.names.lookup c := by
  unfold leave
  cases hb : d.names.lookup b with
  | none =>
    split_ifs with h
    · rw [h, hb]
    · rfl
  | some x => exact Table.lookup_erase_eq _ _ _

theorem holder_bind (x y : I) (b : A) (d : Directory I A) :
    (d.bind x b).holder y = if y = x then some ((d.holder x).getD b) else d.holder y := by
  simp only [bind, Function.update_apply]

theorem lookup_bind (x : I) (b c : A) (d : Directory I A) :
    (d.bind x b).names.lookup c = if c = b then some x else d.names.lookup c :=
  Table.lookup_insert_eq _ _ _ _

omit [DecidableEq I] in
theorem mem_names_iff (d : Directory I A) (b : A) :
    b ∈ d.names ↔ ∃ x, d.names.lookup b = some x := by
  rw [← Option.isSome_iff_exists, Finmap.lookup_isSome]

theorem mem_remove {x : I} {b : A} {d : Directory I A} (h : b ∈ (d.remove x).names) :
    b ∈ d.names ∧ d.holder x ≠ some b := by
  rw [mem_names_iff, lookup_remove] at h
  obtain ⟨y, hy⟩ := h
  split_ifs at hy with hx
  exact ⟨Table.mem_of_lookup hy, hx⟩

theorem mem_leave {b c : A} {d : Directory I A} (h : c ∈ (d.leave b).names) :
    c ∈ d.names ∧ c ≠ b := by
  rw [mem_names_iff, lookup_leave] at h
  obtain ⟨y, hy⟩ := h
  split_ifs at hy with hc
  exact ⟨Table.mem_of_lookup hy, hc⟩

theorem mem_bind {x : I} {b c : A} {d : Directory I A} :
    c ∈ (d.bind x b).names ↔ c = b ∨ c ∈ d.names := Finmap.mem_insert

omit [DecidableEq I] in
theorem mem_enter {x : I} {b c : A} {d : Directory I A} :
    c ∈ (d.enter x b).names ↔ c = b ∨ c ∈ d.names := Table.mem_insertNew _ _ _ _

omit [DecidableEq I] in
theorem Backed.enter {x₀ : I} {d : Directory I A} (h : d.Backed x₀) (b : A) :
    (d.enter x₀ b).Backed x₀ := by
  intro c x hc hx
  simp only [Directory.enter, Table.lookup_insertNew] at hc
  split_ifs at hc with hb
  · exact absurd (Option.some.inj hc).symm hx
  · exact h c x hc hx

theorem Backed.remove {x₀ : I} {d : Directory I A} (h : d.Backed x₀) (y : I) :
    (d.remove y).Backed x₀ := by
  intro b x hb hx
  rw [lookup_remove] at hb
  split_ifs at hb with hy
  have hh := h b x hb hx
  rw [holder_remove, if_neg]
  · exact hh
  · rintro rfl
    exact hy hh

theorem Backed.leave {x₀ : I} {d : Directory I A} (h : d.Backed x₀) (b : A) :
    (d.leave b).Backed x₀ := by
  intro c x hc hx
  rw [lookup_leave] at hc
  split_ifs at hc with hcb
  have hh := h c x hc hx
  rw [holder_leave, if_neg]
  · exact hh
  · intro hb
    exact hcb (Option.some.inj (hh.symm.trans (h b x hb hx)))

/-- A name that nobody holds may be taken. -/
theorem Backed.bind {x₀ : I} {d : Directory I A} (h : d.Backed x₀) {x : I} (b : A)
    (hx : d.holder x = none) : (d.bind x b).Backed x₀ := by
  intro c y hc hy
  rw [lookup_bind] at hc
  rw [holder_bind]
  split_ifs at hc with hcb
  · obtain rfl := Option.some.inj hc
    rw [if_pos rfl, hx, hcb]
    rfl
  · have hh := h c y hc hy
    rw [if_neg]
    · exact hh
    · rintro rfl
      simp [hx] at hh

omit [DecidableEq I] in
theorem Coherent.enter {d : Directory I A} (h : d.Coherent) (x₀ : I) (b : A) :
    (d.enter x₀ b).Coherent := by
  intro x c hc
  have hx := h x c hc
  simp only [Directory.enter, Table.lookup_insertNew]
  rw [if_neg]
  · exact hx
  · rintro ⟨rfl, hn⟩
    exact hn (Table.mem_of_lookup hx)

theorem Coherent.remove {d : Directory I A} (h : d.Coherent) (y : I) : (d.remove y).Coherent := by
  intro x b hb
  rw [holder_remove] at hb
  split_ifs at hb with hxy
  have hx := h x b hb
  rw [lookup_remove, if_neg]
  · exact hx
  · intro hy
    exact hxy (Option.some.inj (hx.symm.trans (h y b hy)))

theorem Coherent.leave {d : Directory I A} (h : d.Coherent) (b : A) : (d.leave b).Coherent := by
  intro x c hc
  rw [holder_leave] at hc
  split_ifs at hc with hb
  have hx := h x c hc
  rw [lookup_leave, if_neg]
  · exact hx
  · rintro rfl
    exact hb hx

/-- A name that nobody holds may be taken by someone who holds no other name. -/
theorem Coherent.bind {d : Directory I A} (h : d.Coherent) {x : I} {b : A}
    (hx : d.holder x = none) (hb : ∀ y, y ≠ x → d.holder y ≠ some b) : (d.bind x b).Coherent := by
  intro y c hc
  rw [holder_bind] at hc
  rw [lookup_bind]
  split_ifs at hc with hy
  · rw [hx] at hc
    obtain rfl : b = c := Option.some.inj hc
    rw [if_pos rfl, hy]
  · rw [if_neg]
    · exact h y c hc
    · rintro rfl
      exact hb y hy hc

omit [DecidableEq I] in
theorem size_enter (x : I) {b : A} {d : Directory I A} (h : b ∉ d.names) :
    Table.size (d.enter x b).names = Table.size d.names + 1 := by
  simp only [enter, Table.insertNew, if_neg h]
  exact Table.size_insert_of_notMem _ h

theorem size_leave {b : A} {d : Directory I A} (h : b ∈ d.names) :
    Table.size (d.leave b).names + 1 = Table.size d.names := by
  obtain ⟨x, hx⟩ := (mem_names_iff d b).mp h
  simp only [leave, hx]
  exact Table.size_erase_of_mem h

theorem names_remove_of_unknown {x : I} {d : Directory I A}
    (h : ∀ a, d.holder x = some a → a ∉ d.names) : (d.remove x).names = d.names := by
  unfold remove
  cases hx : d.holder x with
  | none => rfl
  | some a => exact Table.erase_of_notMem (h a hx)

theorem size_bind {x : I} {b : A} {d : Directory I A} (h : b ∈ d.names) :
    Table.size (d.bind x b).names = Table.size d.names :=
  Table.size_insert_of_mem _ h

end Directory
