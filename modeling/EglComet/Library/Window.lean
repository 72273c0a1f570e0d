import Mathlib.Data.List.TakeDrop
import Mathlib.Tactic.TypeStar

/-!
A window into a block of memory: `off` elements in use behind `misalign` unused
ones, and space behind them. Appending writes into the space, advancing gives up
elements at the front, aligning moves the elements in use to the front of the
block. That the window lies inside the block is part of the value.
-/

/-- A block of memory of which the `off` elements from `misalign` on are in use. -/
structure Window (α : Type*) where
  buffer : List α
  misalign : ℕ
  off : ℕ
  fits : misalign + off ≤ buffer.length

namespace Window

variable {α : Type*} {w : Window α} {xs : List α} {n : ℕ}

/-- The elements in use. -/
def data (w : Window α) : List α := (w.buffer.drop w.misalign).take w.off

/-- The room behind the elements in use. -/
def space (w : Window α) : ℕ := w.buffer.length - (w.misalign + w.off)

/-- A block with nothing in use. -/
def fresh (buffer : List α) : Window α := ⟨buffer, 0, 0, Nat.zero_le _⟩

/-- Write behind the elements in use and take what was written into use. -/
def append (w : Window α) (xs : List α) (h : xs.length ≤ w.space) : Window α where
  buffer := w.buffer.take (w.misalign + w.off) ++ xs ++
    w.buffer.drop (w.misalign + w.off + xs.length)
  misalign := w.misalign
  off := w.off + xs.length
  fits := by
    have hfits := w.fits
    have hspace : xs.length ≤ w.buffer.length - (w.misalign + w.off) := h
    simp only [List.length_append, List.length_take, List.length_drop]
    omega

/-- Give up the first `n` elements. -/
def advance (w : Window α) (n : ℕ) (h : n ≤ w.off) : Window α where
  buffer := w.buffer
  misalign := w.misalign + n
  off := w.off - n
  fits := by
    have := w.fits
    omega

/-- Move the elements in use to the front of the block. -/
def align (w : Window α) : Window α where
  buffer := w.data ++ w.buffer.drop w.off
  misalign := 0
  off := w.off
  fits := by
    have := w.fits
    simp only [data, List.length_append, List.length_take, List.length_drop]
    omega

/-- An unused block is used from its front again. -/
def rewind (w : Window α) (h : w.off = 0) : Window α := ⟨w.buffer, 0, w.off, by omega⟩

@[simp] theorem length_data (w : Window α) : w.data.length = w.off := by
  have := w.fits
  simp only [data, List.length_take, List.length_drop]
  omega

theorem data_eq_nil_iff (w : Window α) : w.data = [] ↔ w.off = 0 := by
  rw [← List.length_eq_zero_iff, length_data]

@[simp] theorem off_fresh (buffer : List α) : (fresh buffer).off = 0 := rfl

@[simp] theorem data_fresh (buffer : List α) : (fresh buffer).data = [] := by
  simp [data, fresh]

@[simp] theorem space_fresh (buffer : List α) : (fresh buffer).space = buffer.length := by
  simp [space, fresh]

@[simp] theorem off_append (h : xs.length ≤ w.space) : (w.append xs h).off = w.off + xs.length :=
  rfl

@[simp] theorem length_buffer_append (h : xs.length ≤ w.space) :
    (w.append xs h).buffer.length = w.buffer.length := by
  have := w.fits
  simp only [space] at h
  simp only [append, List.length_append, List.length_take, List.length_drop]
  omega

@[simp] theorem data_append (h : xs.length ≤ w.space) : (w.append xs h).data = w.data ++ xs := by
  have hfits := w.fits
  have hlen : (w.buffer.take (w.misalign + w.off)).length = w.misalign + w.off := by
    rw [List.length_take]
    omega
  have hfront : (w.buffer.take (w.misalign + w.off)).drop w.misalign = w.data := by
    rw [data, List.drop_take]
    congr 1
    omega
  simp only [data, append, List.append_assoc] at hfront ⊢
  rw [List.drop_append_of_le_length (by omega), hfront, List.take_append]
  have hoff : (List.take w.off (List.drop w.misalign w.buffer)).length = w.off := length_data w
  rw [hoff, Nat.add_sub_cancel_left, List.take_append_of_le_length (Nat.le_refl _),
    List.take_length, List.take_of_length_le (by omega)]

@[simp] theorem off_advance (h : n ≤ w.off) : (w.advance n h).off = w.off - n := rfl

@[simp] theorem buffer_advance (h : n ≤ w.off) : (w.advance n h).buffer = w.buffer := rfl

@[simp] theorem data_advance (h : n ≤ w.off) : (w.advance n h).data = w.data.drop n := by
  simp only [data, advance, List.drop_take, List.drop_drop]

@[simp] theorem off_align (w : Window α) : w.align.off = w.off := rfl

@[simp] theorem data_align (w : Window α) : w.align.data = w.data := by
  have hlen := length_data w
  simp only [data, align, List.drop_zero] at hlen ⊢
  rw [List.take_append_of_le_length (by omega), List.take_of_length_le (by omega)]

@[simp] theorem length_buffer_align (w : Window α) : w.align.buffer.length = w.buffer.length := by
  have := w.fits
  simp only [align, data, List.length_append, List.length_take, List.length_drop]
  omega

theorem space_align (w : Window α) : w.align.space = w.buffer.length - w.off := by
  rw [space, length_buffer_align]
  simp [align]

@[simp] theorem off_rewind (h : w.off = 0) : (w.rewind h).off = w.off := rfl

@[simp] theorem buffer_rewind (h : w.off = 0) : (w.rewind h).buffer = w.buffer := rfl

@[simp] theorem data_rewind (h : w.off = 0) : (w.rewind h).data = w.data := by
  simp [data, rewind, h]

theorem space_rewind (h : w.off = 0) : (w.rewind h).space = w.buffer.length := by
  simp [space, rewind, h]

end Window
