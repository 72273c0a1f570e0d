import Mathlib.Data.Int.ModEq
import Mathlib.Tactic.Ring

/-!
Fixed-width views of exact integers: a 32-bit two's complement `int`, the
conversion of a signed value to a 64-bit unsigned one, and big-endian numerals.
-/
namespace MachineInt

/-- The 32-bit two's complement value congruent to `x`. -/
def wrap32 (x : ℤ) : ℤ := x.bmod (2 ^ 32)

/-- Conversion of a signed value to a 64-bit unsigned one. -/
def sizeT (x : ℤ) : ℕ := (x % 2 ^ 64).toNat

/-- The number a list of bytes denotes, most significant byte first. -/
def bigEndian (bs : List UInt8) : ℕ := bs.foldl (fun acc b => acc * 256 + b.toNat) 0

theorem wrap32_of_range {x : ℤ} (h0 : -2 ^ 31 ≤ x) (h1 : x < 2 ^ 31) : wrap32 x = x := by
  unfold wrap32
  apply Int.bmod_eq_of_le <;> omega

theorem wrap32_of_high {x : ℤ} (h0 : 2 ^ 31 ≤ x) (h1 : x < 2 ^ 32 + 2 ^ 31) :
    wrap32 x = x - 2 ^ 32 := by
  have hx : wrap32 x = wrap32 (x - 2 ^ 32) := (Int.sub_bmod_right x (2 ^ 32)).symm
  rw [hx]
  apply wrap32_of_range <;> omega

theorem wrap32_range (x : ℤ) : -2 ^ 31 ≤ wrap32 x ∧ wrap32 x < 2 ^ 31 := by
  unfold wrap32
  have hl := Int.le_bmod (x := x) (m := 2 ^ 32) (by norm_num)
  have hu := Int.bmod_lt (x := x) (m := 2 ^ 32) (by norm_num)
  constructor <;> omega

theorem wrap32_le {x : ℤ} (h : 0 ≤ x) : wrap32 x ≤ x := by
  unfold wrap32
  rw [Int.bmod_def]
  split_ifs <;> omega

theorem wrap32_add_wrap32 (x y : ℤ) : wrap32 (x + wrap32 y) = wrap32 (x + y) := by
  simp only [wrap32, Int.add_bmod_bmod]

theorem sizeT_of_nonneg {x : ℤ} (h0 : 0 ≤ x) (h1 : x < 2 ^ 64) : sizeT x = x.toNat := by
  unfold sizeT
  rw [Int.emod_eq_of_lt h0 h1]

/-- A negative value converts to a number far beyond any buffer length. -/
theorem sizeT_of_neg {x : ℤ} (h0 : -2 ^ 31 ≤ x) (h1 : x < 0) : 2 ^ 63 ≤ sizeT x := by
  unfold sizeT
  omega

theorem foldl_bigEndian_lt (bs : List UInt8) (acc : ℕ) :
    bs.foldl (fun acc b => acc * 256 + b.toNat) acc < (acc + 1) * 256 ^ bs.length := by
  induction bs generalizing acc with
  | nil => simp
  | cons b bs ih =>
    simp only [List.foldl_cons, List.length_cons, pow_succ]
    have hb := b.toNat_lt
    have hstep : acc * 256 + b.toNat + 1 ≤ (acc + 1) * 256 := by omega
    calc _ < (acc * 256 + b.toNat + 1) * 256 ^ bs.length := ih _
      _ ≤ (acc + 1) * 256 * 256 ^ bs.length := Nat.mul_le_mul_right _ hstep
      _ = (acc + 1) * (256 ^ bs.length * 256) := by ring

theorem bigEndian_lt (bs : List UInt8) : bigEndian bs < 256 ^ bs.length := by
  simpa [bigEndian] using foldl_bigEndian_lt bs 0

end MachineInt
