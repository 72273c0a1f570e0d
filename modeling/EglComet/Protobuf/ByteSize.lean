import EglComet.Library.MachineInt
import EglComet.Protobuf.WriteRead

/-!
The sizes that generated code computes before it serializes. They are sums in a
32-bit `int` of what the size functions of the library return; as long as the
message is shorter than `2 ^ 31` bytes they count the bytes that are written.
-/
namespace Protobuf

open MachineInt

/-- The size functions of `WireFormatLite` that generated code calls: `Int32Size`, `Int64Size`,
and `StringSize` or `BytesSize`. -/
structure Sizes where
  int32 : ℤ → ℤ
  int64 : ℤ → ℤ
  string : Bytes → ℤ

/-- Behind a tag of one byte a field takes the bytes that its size function says. -/
structure Sizes.Exact {σ : Type} (Z : Sizes) (R : Runtime σ) : Prop where
  int32 : ∀ number v, number < 16 → -2 ^ 31 ≤ v ∧ v < 2 ^ 31 →
    ((R.writeInt32 number v).length : ℤ) = 1 + Z.int32 v
  int64 : ∀ number v, number < 16 → -2 ^ 63 ≤ v ∧ v < 2 ^ 63 →
    ((R.writeInt64 number v).length : ℤ) = 1 + Z.int64 v
  string : ∀ number b, number < 15 → b.length < 2 ^ 31 →
    ((R.writeString number b).length : ℤ) = 1 + Z.string b

/-- `total_size`, after the sizes have been added to it in turn. -/
def totalSize (sizes : List ℤ) : ℤ := sizes.foldl (fun total size => wrap32 (total + size)) 0

theorem foldl_wrap32 (sizes : List ℤ) {total : ℤ} (h : wrap32 total = total) :
    sizes.foldl (fun total size => wrap32 (total + size)) total = wrap32 (total + sizes.sum) := by
  induction sizes generalizing total with
  | nil => simpa using h.symm
  | cons size sizes ih =>
    have hw : wrap32 (wrap32 (total + size)) = wrap32 (total + size) :=
      wrap32_of_range (wrap32_range _).1 (wrap32_range _).2
    rw [List.foldl_cons, ih hw, List.sum_cons, add_comm, wrap32_add_wrap32]
    congr 1
    ring

theorem totalSize_of_lt {sizes : List ℤ} {n : ℕ} (hs : sizes.sum = n) (hn : n < 2 ^ 31) :
    totalSize sizes = n := by
  rw [totalSize, foldl_wrap32 sizes rfl, hs, zero_add]
  exact wrap32_of_range (by omega) (by omega)

namespace Wire

/-- `VarintSize32`. -/
def varintSize32 (n : ℕ) : ℕ :=
  if n < 2 ^ 7 then 1 else if n < 2 ^ 14 then 2 else if n < 2 ^ 21 then 3
  else if n < 2 ^ 28 then 4 else 5

/-- `VarintSize64`. -/
def varintSize64 (n : ℕ) : ℕ :=
  if n < 2 ^ 35 then
    if n < 2 ^ 7 then 1 else if n < 2 ^ 14 then 2 else if n < 2 ^ 21 then 3
    else if n < 2 ^ 28 then 4 else 5
  else if n < 2 ^ 42 then 6 else if n < 2 ^ 49 then 7 else if n < 2 ^ 56 then 8
  else if n < 2 ^ 63 then 9 else 10

/-- `Int32Size`: a negative value takes ten bytes. -/
def int32Size (v : ℤ) : ℤ := if v < 0 then 10 else varintSize32 v.toNat

/-- `Int64Size`. -/
def int64Size (v : ℤ) : ℤ := varintSize64 (v % 2 ^ 64).toNat

/-- `StringSize` and `BytesSize`. -/
def stringSize (b : Bytes) : ℤ := varintSize32 b.length + b.length

/-- The number of seven-bit groups is the number of bytes. -/
theorem length_encodeVarint {fuel k n : ℕ} (hk : k < fuel) (hlo : k = 0 ∨ 128 ^ k ≤ n)
    (hhi : n < 128 ^ (k + 1)) : (encodeVarint fuel n).length = k + 1 := by
  induction fuel generalizing k n with
  | zero => omega
  | succ fuel ih =>
    rw [encodeVarint]
    cases k with
    | zero => rw [if_pos (by simpa using hhi)]; rfl
    | succ k =>
      have hge : 128 ^ (k + 1) ≤ n := by simpa using hlo
      have h128 : 128 ≤ n := le_trans (by simpa using Nat.le_self_pow (by omega) 128) hge
      rw [if_neg (by omega), List.length_cons, ih (k := k) (by omega)]
      · right
        rw [Nat.le_div_iff_mul_le (by omega), ← pow_succ]
        exact hge
      · rw [Nat.div_lt_iff_lt_mul (by omega), ← pow_succ]
        exact hhi

theorem varintSize32_eq {n : ℕ} (h : n < 2 ^ 32) : varintSize32 n = varintSize n := by
  unfold varintSize32 varintSize
  split_ifs
  · rw [length_encodeVarint (k := 0)] <;> omega
  · rw [length_encodeVarint (k := 1)] <;> omega
  · rw [length_encodeVarint (k := 2)] <;> omega
  · rw [length_encodeVarint (k := 3)] <;> omega
  · rw [length_encodeVarint (k := 4)] <;> omega

theorem varintSize64_eq {n : ℕ} (h : n < 2 ^ 64) : varintSize64 n = varintSize n := by
  unfold varintSize64 varintSize
  split_ifs
  · rw [length_encodeVarint (k := 0)] <;> omega
  · rw [length_encodeVarint (k := 1)] <;> omega
  · rw [length_encodeVarint (k := 2)] <;> omega
  · rw [length_encodeVarint (k := 3)] <;> omega
  · rw [length_encodeVarint (k := 4)] <;> omega
  · rw [length_encodeVarint (k := 5)] <;> omega
  · rw [length_encodeVarint (k := 6)] <;> omega
  · rw [length_encodeVarint (k := 7)] <;> omega
  · rw [length_encodeVarint (k := 8)] <;> omega
  · rw [length_encodeVarint (k := 9)] <;> omega

theorem int32Size_eq {v : ℤ} (h : -2 ^ 31 ≤ v ∧ v < 2 ^ 31) :
    int32Size v = varintSize (v % 2 ^ 64).toNat := by
  unfold int32Size
  split_ifs with hv
  · rw [varintSize, length_encodeVarint (k := 9)] <;> omega
  · rw [varintSize32_eq (by omega), Int.emod_eq_of_lt (by omega) (by omega)]

theorem int64Size_eq (v : ℤ) : int64Size v = varintSize (v % 2 ^ 64).toNat := by
  rw [int64Size, varintSize64_eq (by omega)]

theorem stringSize_eq {b : Bytes} (h : b.length < 2 ^ 32) :
    stringSize b = varintSize b.length + b.length := by
  rw [stringSize, varintSize32_eq h]

def sizes : Sizes where
  int32 := int32Size
  int64 := int64Size
  string := stringSize

/-- The sizes found by comparing with powers of two are those of the wire format. -/
theorem sizes_exact {σ : Type} {R : Runtime σ} (W : R.Writers) : sizes.Exact R where
  int32 number v hn hv := by
    rw [W.int32, length_writeInt hn]
    show _ = 1 + int32Size v
    rw [int32Size_eq hv]
    push_cast
    ring
  int64 number v hn _ := by
    rw [W.int64, length_writeInt hn]
    show _ = 1 + int64Size v
    rw [int64Size_eq]
    push_cast
    ring
  string number b hn hb := by
    rw [W.length_string hn]
    show _ = 1 + stringSize b
    rw [stringSize_eq (by omega)]
    push_cast
    ring

end Wire

end Protobuf
