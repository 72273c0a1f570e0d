import EglComet.WorkThread.Callbacks
import Mathlib.Data.List.TakeWhile

/-!
Ids in text: friend lists hold them as decimal numbers, which `atoll` reads, and
presence frames hold them as `%ld` prints them.
-/
namespace EglComet

open Protobuf

section Digits

variable {cs : List Char}

theorem toNat_ofNat_digit {c : Char} (h : c.isDigit = true) :
    (UInt8.ofNat c.toNat).toNat = c.toNat ∧ 48 ≤ c.toNat ∧ c.toNat ≤ 57 := by
  have hc : 48 ≤ c.toNat ∧ c.toNat ≤ 57 := by
    simp only [Char.isDigit, ge_iff_le, Bool.and_eq_true, decide_eq_true_eq] at h
    exact ⟨h.1, h.2⟩
  refine ⟨?_, hc⟩
  rw [UInt8.toNat_ofNat']
  omega

theorem isDigit_ofNat {c : Char} (h : c.isDigit = true) : isDigit (UInt8.ofNat c.toNat) = true := by
  obtain ⟨hb, hlo, hhi⟩ := toNat_ofNat_digit h
  simp only [isDigit, Bool.and_eq_true, decide_eq_true_eq, UInt8.le_iff_toNat_le, hb]
  exact ⟨hlo, hhi⟩

theorem foldl_digits (h : ∀ c ∈ cs, c.isDigit = true) (n : ℕ) :
    (cs.map fun c => UInt8.ofNat c.toNat).foldl (fun (n : ℤ) c => n * 10 + (c.toNat - 48)) n =
      Nat.ofDigitChars 10 cs n := by
  induction cs generalizing n with
  | nil => rfl
  | cons c cs ih =>
    obtain ⟨hb, hlo, hhi⟩ := toNat_ofNat_digit (h c List.mem_cons_self)
    have hstep : (n : ℤ) * 10 + ((UInt8.ofNat c.toNat).toNat - 48) =
        ((10 * n + (c.toNat - 48) : ℕ) : ℤ) := by
      rw [hb]
      omega
    rw [List.map_cons, List.foldl_cons, hstep, ih fun d hd => h d (List.mem_cons_of_mem c hd)]
    rfl

theorem ne_of_isDigit {b : UInt8} (h : isDigit b = true) :
    b ≠ 0 ∧ isSpace b = false ∧ b ≠ 45 ∧ b ≠ 43 := by
  simp only [isDigit, Bool.and_eq_true, decide_eq_true_eq, UInt8.le_iff_toNat_le] at h
  have hb : 48 ≤ b.toNat ∧ b.toNat ≤ 57 := h
  refine ⟨?_, ?_, ?_, ?_⟩
  · rintro rfl
    simp at hb
  · simp only [isSpace, Bool.or_eq_false_iff, beq_eq_false_iff_ne, ne_eq, ← UInt8.toNat_inj,
      Bool.and_eq_false_iff, decide_eq_false_iff_not, UInt8.le_iff_toNat_le]
    refine ⟨fun h => ?_, Or.inr fun h => ?_⟩
    · rw [h] at hb
      simp at hb
    · have h : b.toNat ≤ 13 := h
      omega
  · rintro rfl
    simp at hb
  · rintro rfl
    simp at hb

/-- The value of a string of digits. -/
def digitsValue (str : Bytes) : ℤ := str.foldl (fun n c => n * 10 + (c.toNat - 48)) 0

theorem cstr_digits {str : Bytes} (h : ∀ b ∈ str, isDigit b = true) : cstr str = str := by
  rw [cstr, List.takeWhile_eq_self_iff]
  exact fun b hb => decide_eq_true (ne_of_isDigit (h b hb)).1

theorem atoll_digits {str : Bytes} (h : ∀ b ∈ str, isDigit b = true) (h0 : str ≠ []) :
    atoll str = UInt64.ofNat (min (2 ^ 63 - 1) (digitsValue str) % 2 ^ 64).toNat := by
  obtain ⟨b, bs, rfl⟩ := List.exists_cons_of_ne_nil h0
  obtain ⟨-, hspace, hminus, hplus⟩ := ne_of_isDigit (h b List.mem_cons_self)
  have hall : (b :: bs).takeWhile isDigit = b :: bs := List.takeWhile_eq_self_iff.mpr h
  simp [atoll, cstr_digits h, hspace, hminus, hplus, hall, digitsValue]

theorem atoll_minus {str : Bytes} (h : ∀ b ∈ str, isDigit b = true) :
    atoll (45 :: str) = UInt64.ofNat (max (-2 ^ 63) (-digitsValue str) % 2 ^ 64).toNat := by
  have hall : str.takeWhile isDigit = str := List.takeWhile_eq_self_iff.mpr h
  have hstr : cstr (45 :: str) = 45 :: str := by
    simpa [cstr] using cstr_digits h
  have hspace : isSpace 45 = false := by decide
  simp [atoll, hstr, hspace, hall, digitsValue]

theorem ascii_repr (n : ℕ) :
    ascii n.repr = (Nat.toDigits 10 n).map fun c => UInt8.ofNat c.toNat := by
  simp [ascii, Nat.repr_eq_ofList_toDigits]

theorem isDigit_ascii_repr (n : ℕ) : ∀ b ∈ ascii n.repr, isDigit b = true := by
  intro b hb
  rw [ascii_repr] at hb
  obtain ⟨c, hc, rfl⟩ := List.mem_map.mp hb
  exact isDigit_ofNat (Nat.isDigit_of_mem_toDigits (by decide) (by decide) hc)

theorem digitsValue_ascii_repr (n : ℕ) : digitsValue (ascii n.repr) = n := by
  rw [ascii_repr, digitsValue]
  refine (foldl_digits (fun c hc => ?_) 0).trans ?_
  · exact Nat.isDigit_of_mem_toDigits (by decide) (by decide) hc
  · rw [Nat.ofDigitChars_toDigits (by decide) (by decide)]

/-- `atoll` reads back an id that was printed with `%ld`. -/
theorem atoll_signed (id : UInt64) : atoll (ascii (toString (signed id))) = id := by
  have hlt := id.toNat_lt
  by_cases h : id.toNat < 2 ^ 63
  · have hprint : toString (signed id) = id.toNat.repr := by
      rw [signed, if_pos h]
      rfl
    have hne : ascii id.toNat.repr ≠ [] := by simp [ascii_repr]
    rw [hprint, atoll_digits (isDigit_ascii_repr _) hne, digitsValue_ascii_repr]
    have hval : (min (2 ^ 63 - 1) (id.toNat : ℤ) % 2 ^ 64).toNat = id.toNat := by omega
    rw [hval]
    exact UInt64.ofNat_toNat
  · obtain ⟨k, hk⟩ : ∃ k, 2 ^ 64 - id.toNat = k + 1 := ⟨2 ^ 64 - id.toNat - 1, by omega⟩
    have hsigned : signed id = Int.negSucc k := by
      rw [signed, if_neg h]
      omega
    have hprint : ascii (toString (signed id)) = 45 :: ascii (k + 1).repr := by
      rw [hsigned]
      change ascii ("-" ++ (k + 1).repr) = _
      simp [ascii]
    rw [hprint, atoll_minus (isDigit_ascii_repr _), digitsValue_ascii_repr]
    have hval : (max (-2 ^ 63) (-((k + 1 : ℕ) : ℤ)) % 2 ^ 64).toNat = id.toNat := by omega
    rw [hval]
    exact UInt64.ofNat_toNat

/-- A decimal number: digits, possibly after a minus sign. -/
def Decimal (str : Bytes) : Prop :=
  ∃ digits : Bytes, digits ≠ [] ∧ (∀ b ∈ digits, isDigit b = true) ∧
    (str = digits ∨ str = 45 :: digits)

def decimalValue (str : Bytes) : ℤ :=
  if str.head? = some 45 then -digitsValue str.tail else digitsValue str

theorem Decimal.cstr {str : Bytes} (h : Decimal str) : cstr str = str := by
  obtain ⟨digits, -, hdigits, rfl | rfl⟩ := h
  · exact cstr_digits hdigits
  · simpa [EglComet.cstr] using cstr_digits hdigits

theorem signed_ofNat {n : ℤ} (hlo : -2 ^ 63 ≤ n) (hhi : n < 2 ^ 63) :
    signed (UInt64.ofNat (n % 2 ^ 64).toNat) = n := by
  have hnat : (UInt64.ofNat (n % 2 ^ 64).toNat).toNat = (n % 2 ^ 64).toNat := by
    rw [UInt64.toNat_ofNat']
    omega
  rw [signed, hnat]
  split_ifs <;> omega

/-- `atoll` reads a number in the range of `long long` as the id that `%ld` prints so. -/
theorem Decimal.signed_atoll {str : Bytes} (h : Decimal str) (hlo : -2 ^ 63 ≤ decimalValue str)
    (hhi : decimalValue str < 2 ^ 63) : signed (atoll str) = decimalValue str := by
  obtain ⟨digits, hne, hdigits, rfl | rfl⟩ := h
  · have hhead : str.head? ≠ some 45 := by
      intro hhead
      exact (ne_of_isDigit (hdigits 45 (List.mem_of_head? hhead))).2.2.1 rfl
    rw [decimalValue, if_neg hhead] at hlo hhi ⊢
    rw [atoll_digits hdigits hne, min_eq_right (by omega), signed_ofNat hlo hhi]
  · have hvalue : decimalValue (45 :: digits) = -digitsValue digits := rfl
    rw [hvalue] at hlo hhi ⊢
    rw [atoll_minus hdigits, max_eq_right hlo, signed_ofNat hlo hhi]

end Digits

theorem atoll_cstr (str : Bytes) : atoll (cstr str) = atoll str := by
  have hidem : cstr (cstr str) = cstr str := List.takeWhile_idem
  simp only [atoll, hidem]

end EglComet
