import EglComet.AnalyseReq.Framing

/-!
Length arithmetic of the frames `analyse_data` accepts. The announced length is
read off the buffer as an unsigned number and compared with the 32-bit sum the
code computes from it.
-/
namespace EglComet

open Protobuf MachineInt

/-- The two bytes after the property id and format announce a four-byte length. -/
def LongForm (input : Bytes) : Prop :=
  byteAt input (headLen input + 3) = 0xFF ∧ byteAt input (headLen input + 4) = 0x0

instance (input : Bytes) : Decidable (LongForm input) := by unfold LongForm; infer_instance

def dataHeadLen (input : Bytes) : ℕ := if LongForm input then 9 else 5

/-- The announced payload length, as the unsigned number on the wire. -/
def declaredLen (input : Bytes) : ℕ :=
  if LongForm input then bigEndian ((input.drop (headLen input + 5)).take 4)
  else bigEndian ((input.drop (headLen input + 3)).take 2)

theorem headLen_le (input : Bytes) : headLen input ≤ 60 := by
  unfold headLen
  have h : (byteAt input 0 &&& 0x0F).toNat ≤ 15 := by
    rw [UInt8.toNat_and]
    exact Nat.and_le_right
  omega

theorem bigEndian_take_lt (bs : Bytes) (k : ℕ) : bigEndian (bs.take k) < 256 ^ k :=
  lt_of_lt_of_le (bigEndian_lt _) (Nat.pow_le_pow_right (by norm_num) (by simp))

theorem declaredLen_lt (input : Bytes) : declaredLen input < 2 ^ 32 := by
  unfold declaredLen
  split_ifs
  · exact bigEndian_take_lt _ 4
  · exact lt_trans (bigEndian_take_lt _ 2) (by decide)

theorem declaredLen_short {input : Bytes} (h : ¬ LongForm input) : declaredLen input < 2 ^ 16 := by
  rw [declaredLen, if_neg h]
  exact bigEndian_take_lt _ 2

theorem dataHeadLen_le (input : Bytes) : 5 ≤ dataHeadLen input ∧ dataHeadLen input ≤ 9 := by
  unfold dataHeadLen
  split_ifs <;> decide

theorem byteAt_take {bs : Bytes} {i k : ℕ} (h : i < k) : byteAt (bs.take k) i = byteAt bs i := by
  simp [byteAt, List.getElem?_take_of_lt h]

theorem take_drop_take (bs : Bytes) {i k n : ℕ} (h : i + k ≤ n) :
    ((bs.take n).drop i).take k = (bs.drop i).take k := by
  rw [List.drop_take, List.take_take, min_eq_left (by omega)]

/-- The length fields as they stand in the buffer once `buffer_size` covers the data head. -/
theorem dataHead_eq {size : ℤ} {input : Bytes} (hsize : size ≤ input.length) :
    dataHead size input =
      if (headLen input : ℤ) + dataHeadLen input < size then
        some ⟨headLen input, dataHeadLen input, wrap32 (declaredLen input)⟩
      else none := by
  unfold dataHead
  by_cases h5 : (headLen input : ℤ) + 5 < size
  · rw [if_pos h5, evbufferPullup_of_le (by omega) (by omega)]
    have h3 : byteAt (input.take ((headLen input : ℤ) + 5).toNat) (headLen input + 3) =
        byteAt input (headLen input + 3) := byteAt_take (by omega)
    have h4 : byteAt (input.take ((headLen input : ℤ) + 5).toNat) (headLen input + 4) =
        byteAt input (headLen input + 4) := byteAt_take (by omega)
    simp only [h3, h4]
    change (if LongForm input then _ else _) = _
    by_cases hl : LongForm input
    · rw [if_pos hl]
      simp only [dataHeadLen, declaredLen, if_pos hl, Nat.cast_ofNat]
      by_cases h9 : (headLen input : ℤ) + 9 < size
      · rw [if_pos h9, if_pos h9, evbufferPullup_of_le (by omega) (by omega)]
        simp only
        rw [take_drop_take _ (by omega)]
      · rw [if_neg h9, if_neg h9]
    · rw [if_neg hl]
      have hshort : wrap32 (declaredLen input) = declaredLen input := by
        have := declaredLen_short hl
        exact wrap32_of_range (by omega) (by omega)
      rw [hshort]
      simp only [dataHeadLen, declaredLen, if_neg hl, Nat.cast_ofNat]
      rw [if_pos h5, take_drop_take _ (by omega)]
  · have hd := (dataHeadLen_le input).1
    rw [if_neg (by omega), if_neg (by omega)]

/-- Both arrival checks compare with the number of buffered bytes as an `int`. -/
theorem packCall_eq_wrap (input : Bytes) :
    packCall input =
      if (headLen input : ℤ) + dataHeadLen input < wrap32 input.length ∧
          wrap32 (headLen input + dataHeadLen input + wrap32 (declaredLen input)) ≤
            wrap32 input.length then
        some ⟨headLen input, dataHeadLen input, wrap32 (declaredLen input)⟩
      else none := by
  unfold packCall
  simp only
  rw [dataHead_eq (wrap32_le (Int.natCast_nonneg _))]
  by_cases h : (headLen input : ℤ) + dataHeadLen input < wrap32 input.length
  · rw [if_pos h, Option.filter_some]
    simp only [PackCall.packSize, h, true_and, ge_iff_le, decide_eq_true_eq]
  · rw [if_neg h, if_neg fun hc => h hc.1]
    rfl

theorem packCall_eq {input : Bytes} (hlen : input.length < 2 ^ 31) :
    packCall input =
      if headLen input + dataHeadLen input < input.length ∧
          wrap32 (headLen input + dataHeadLen input + wrap32 (declaredLen input)) ≤
            input.length then
        some ⟨headLen input, dataHeadLen input, wrap32 (declaredLen input)⟩
      else none := by
  rw [packCall_eq_wrap, wrap32_of_range (x := (input.length : ℤ)) (by omega) (by omega)]
  norm_cast

/-- `analyse_data` reaches `analyse_pack` with these arguments. -/
def CallsPack (input : Bytes) (c : PackCall) : Prop :=
  byteAt input 1 &&& 0x20 = 0 ∧ packCall input = some c

section Call

variable {σ : Type} (R : Runtime σ)

theorem analyseData_of_callsPack {input : Bytes} {c : PackCall} (hlen : input.length < 2 ^ 31)
    (h : CallsPack input c) (mem : ℕ → UInt8) (a : AnalyseReq) (output : Bytes) :
    analyseData R mem a input output = analysePack R mem a input output c := by
  have hc := h.2
  rw [packCall_eq hlen, Option.ite_none_right_eq_some] at hc
  have hd := (dataHeadLen_le input).1
  unfold analyseData
  rw [evbufferPullup_of_le (by norm_num) (by omega)]
  have hb : byteAt (input.take (2 : ℤ).toNat) 1 = byteAt input 1 := byteAt_take (by decide)
  simp only [hb, h.1, h.2, ne_eq, not_true_eq_false, ↓reduceIte]

theorem analysePack_removes {input : Bytes} {c : PackCall} (h0 : 0 < c.packSize)
    (h1 : c.packSize ≤ input.length) (hd : 0 ≤ c.dataLen) (mem : ℕ → UInt8) (a : AnalyseReq)
    (output : Bytes) :
    ∃ r, analysePack R mem a input output c = some r ∧
      r.input = input.drop c.packSize.toNat := by
  have hw : c.packSize < 2 ^ 31 := (wrap32_range _).2
  have hs : sizeT c.packSize = c.packSize.toNat := sizeT_of_nonneg h0.le (by omega)
  unfold analysePack
  rw [evbufferPullup_of_le h0 h1]
  simp only [hs, analyseLoginPack, evbufferRemove, evbufferDrain, Bool.not_true,
    Bool.false_eq_true, ↓reduceIte]
  split
  · rw [if_neg (by omega)]
    exact ⟨_, rfl, rfl⟩
  · rw [if_neg (by omega)]
    split <;> exact ⟨_, rfl, rfl⟩

end Call

/-- Whenever `analyse_pack` is called, `pack_size` is the exact sum, covers the head, fits the
buffer, and is the number of bytes the call of `analyse_data` removes. -/
def PackSizeExact (input : Bytes) : Prop :=
  ∀ c, CallsPack input c →
    c.packSize = c.headLen + c.dataHeadLen + declaredLen input ∧
    c.headLen + c.dataHeadLen ≤ c.packSize ∧ c.packSize ≤ input.length ∧
    ∀ (σ : Type) (R : Runtime σ) (mem : ℕ → UInt8) (a : AnalyseReq) (output : Bytes),
      ∃ r, analyseData R mem a input output = some r ∧ r.input = input.drop c.packSize.toNat

/-- A data frame in the long form, its nine-byte head arrived, announces a size that an `int`
cannot hold. -/
def LengthOverflows (input : Bytes) : Prop :=
  byteAt input 1 &&& 0x20 = 0 ∧ LongForm input ∧ headLen input + 9 < input.length ∧
    2 ^ 31 ≤ headLen input + 9 + declaredLen input

/-- An overflowing announcement always passes the arrival check, with the sum `2 ^ 32` too small. -/
theorem callsPack_of_overflows {input : Bytes} (hlen : input.length < 2 ^ 31)
    (h : LengthOverflows input) :
    ∃ c, CallsPack input c ∧
      c.packSize = c.headLen + c.dataHeadLen + declaredLen input - 2 ^ 32 := by
  obtain ⟨hb, hl, h9, hover⟩ := h
  have hd : dataHeadLen input = 9 := by rw [dataHeadLen, if_pos hl]
  have hh := headLen_le input
  have hn := declaredLen_lt input
  have hsum : wrap32 (headLen input + dataHeadLen input + wrap32 (declaredLen input)) =
      headLen input + dataHeadLen input + declaredLen input - 2 ^ 32 := by
    rw [hd]
    rcases lt_or_ge (declaredLen input) (2 ^ 31) with hs | hs
    · rw [wrap32_of_range (x := (declaredLen input : ℤ)) (by omega) (by omega),
        wrap32_of_high (by push_cast; omega) (by push_cast; omega)]
    · rw [wrap32_of_high (x := (declaredLen input : ℤ)) (by omega) (by omega),
        wrap32_of_range (by push_cast; omega) (by push_cast; omega)]
      ring
  refine ⟨⟨headLen input, dataHeadLen input, wrap32 (declaredLen input)⟩, ⟨hb, ?_⟩, ?_⟩
  · rw [packCall_eq hlen, if_pos]
    rw [hsum, hd]
    constructor <;> omega
  · rw [PackCall.packSize, hsum]

theorem packSize_of_not_overflows {input : Bytes} {c : PackCall} (hlen : input.length < 2 ^ 31)
    (hc : CallsPack input c) (h : ¬ LengthOverflows input) :
    c.packSize = c.headLen + c.dataHeadLen + declaredLen input ∧
      c.packSize ≤ input.length ∧ 5 ≤ c.dataHeadLen ∧ 0 ≤ c.dataLen := by
  obtain ⟨hb, hp⟩ := hc
  rw [packCall_eq hlen, Option.ite_none_right_eq_some] at hp
  obtain ⟨⟨hsize, hfit⟩, heq⟩ := hp
  obtain rfl := Option.some.inj heq
  have hh := headLen_le input
  have hn := declaredLen_lt input
  have hd := dataHeadLen_le input
  have hbound : headLen input + dataHeadLen input + declaredLen input < 2 ^ 31 := by
    by_cases hl : LongForm input
    · have hd9 : dataHeadLen input = 9 := by rw [dataHeadLen, if_pos hl]
      by_contra hge
      exact h ⟨hb, hl, by omega, by omega⟩
    · have := declaredLen_short hl
      omega
  have hlen : wrap32 (declaredLen input) = declaredLen input :=
    wrap32_of_range (by omega) (by omega)
  have hsum : wrap32 (headLen input + dataHeadLen input + wrap32 (declaredLen input)) =
      headLen input + dataHeadLen input + declaredLen input := by
    rw [hlen, wrap32_of_range (by omega) (by omega)]
  simp only [PackCall.packSize]
  exact ⟨hsum, hfit, hd.1, by omega⟩

/-- The length arithmetic is exact on every buffer except those whose first frame announces, in
the long form, a size of `2 ^ 31` or more. -/
theorem packSizeExact_iff (input : Bytes) (hlen : input.length < 2 ^ 31) :
    PackSizeExact input ↔ ¬ LengthOverflows input := by
  constructor
  · intro h hover
    obtain ⟨c, hc, hsize⟩ := callsPack_of_overflows hlen hover
    have := (h c hc).1
    omega
  · intro hover c hc
    obtain ⟨hsum, hfit, hd, hdata⟩ := packSize_of_not_overflows hlen hc hover
    refine ⟨hsum, by omega, hfit, ?_⟩
    intro σ R mem a output
    rw [analyseData_of_callsPack R hlen hc]
    exact analysePack_removes R (by omega) hfit hdata mem a output

/-- A property frame with a 20-byte header and one payload byte. -/
def shortFrame : Bytes := 0x15 :: List.replicate 19 0 ++ [0, 12, 1, 0, 1, 7]

theorem packSizeExact_shortFrame : shortFrame.length < 2 ^ 31 ∧ PackSizeExact shortFrame := by
  have hlen : shortFrame.length < 2 ^ 31 := by decide
  refine ⟨hlen, (packSizeExact_iff shortFrame hlen).mpr ?_⟩
  rintro ⟨-, hl, -⟩
  exact absurd hl (by decide)

/-- A property frame with a 20-byte header that announces `2 ^ 32 - 1` payload bytes. -/
def wrappedFrame : Bytes :=
  0x15 :: List.replicate 19 0 ++ [0, 12, 1, 0xFF, 0, 0xFF, 0xFF, 0xFF, 0xFF, 0]

/-- On the wrapped frame `pack_size` is 28, one less than its own two heads. -/
theorem wrappedFrame_not_exact : wrappedFrame.length < 2 ^ 31 ∧ ¬ PackSizeExact wrappedFrame := by
  refine ⟨by decide, fun h => ?_⟩
  have hc : CallsPack wrappedFrame ⟨20, 9, -1⟩ := ⟨by decide, by decide +kernel⟩
  have hsize := (h _ hc).2.1
  revert hsize
  decide

end EglComet
