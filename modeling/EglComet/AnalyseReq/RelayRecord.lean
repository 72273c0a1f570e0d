import EglComet.AnalyseReq.FrameStream

/-!
What the record of a relay frame is made of. The two ids stand at fixed offsets,
while the size of the frame follows from a header length and a payload length
that the client chooses; a frame of fewer than 20 bytes takes an id from the
bytes behind it.
-/
namespace EglComet

open Protobuf MachineInt

/-- A complete relay frame: as many bytes as its two heads and its declared length add up to. -/
structure RelayFrame (f : Bytes) : Prop where
  relay : byteAt f 1 &&& 0x40 ≠ 0
  notHeart : byteAt f 1 &&& 0x20 = 0
  size : f.length = headLen f + dataHeadLen f + declaredLen f
  bound : declaredLen f < 2 ^ 31 - 70

/-- Both arrival checks of `analyse_data` pass for a frame with other bytes behind it; the number
of buffered bytes is an `int`. -/
def Arrived (f rest : Bytes) : Prop :=
  (headLen f : ℤ) + dataHeadLen f < wrap32 (f ++ rest).length ∧
    (f.length : ℤ) ≤ wrap32 (f ++ rest).length

instance (f rest : Bytes) : Decidable (Arrived f rest) :=
  inferInstanceAs (Decidable (_ ∧ _))

/-- The indices of `pack_bag` that the relay branch of `analyse_pack` reads: the flags and, each
from its last byte to its first, the recipient and the sender. -/
def relayReads : List ℕ :=
  1 :: ((List.range 8).reverse.map (12 + ·) ++ (List.range 8).reverse.map (4 + ·))

section Record

variable {σ : Type} (R : Runtime σ) {f : Bytes}

/-- A call of `analyse_data` returns true and leaves a record with these ids and these bytes. -/
def HandsOut (mem : ℕ → UInt8) (a : AnalyseReq) (input output : Bytes)
    (record : UInt64 × UInt64 × Bytes) : Prop :=
  ∃ r d, analyseData R mem a input output = some r ∧ r.ret = true ∧ r.req.transData = some d ∧
    (d.fromId, d.toId, d.data) = record

/-- `pack_size` of a relay frame is exact. -/
theorem RelayFrame.sum (h : RelayFrame f) :
    wrap32 (headLen f + dataHeadLen f + declaredLen f) = f.length := by
  have hh := headLen_le f
  have hd := dataHeadLen_le f
  have hsize := h.size
  have hbound := h.bound
  rw [wrap32_of_range (by omega) (by omega)]
  omega

theorem RelayFrame.packCall (h : RelayFrame f) (rest : Bytes) :
    packCall (f ++ rest) =
      if Arrived f rest then some ⟨headLen f, dataHeadLen f, declaredLen f⟩ else none := by
  have hd := dataHeadLen_le f
  have hsize := h.size
  have hbound := h.bound
  have hdecl : wrap32 (declaredLen f) = declaredLen f := wrap32_of_range (by omega) (by omega)
  rw [packCall_eq_wrap, headLen_append rest (by omega), dataHeadLen_append rest (by omega),
    declaredLen_append rest (by omega), hdecl, h.sum]
  by_cases harr : Arrived f rest
  · rw [if_pos harr]
    exact if_pos harr
  · rw [if_neg harr]
    exact if_neg harr

theorem RelayFrame.analysePack (h : RelayFrame f) {c : PackCall} (hpack : c.packSize = f.length)
    (rest output : Bytes) (mem : ℕ → UInt8) (a : AnalyseReq) :
    analysePack R mem a (f ++ rest) output c =
      some ⟨true, { a with transData := some (transOf mem f f.length f) }, rest, output⟩ := by
  have hh := headLen_le f
  have hd := dataHeadLen_le f
  have hsize := h.size
  have hbound := h.bound
  have hs : sizeT (f.length : ℤ) = f.length := by
    rw [sizeT_of_nonneg (by omega) (by omega), Int.toNat_natCast]
  have hpeek : peek mem f 1 = byteAt f 1 := peek_eq_byteAt (by omega)
  unfold EglComet.analysePack
  rw [hpack, evbufferPullup_of_le (by omega) (by rw [List.length_append]; omega)]
  simp only [Int.toNat_natCast, List.take_left', hpeek, hs, evbufferRemove, List.drop_left']
  rw [if_pos h.relay, if_neg (by omega)]

/-- A relay frame is handed out once it has arrived, and is left in the buffer until then. -/
theorem RelayFrame.analyseData (h : RelayFrame f) (rest output : Bytes) (mem : ℕ → UInt8)
    (a : AnalyseReq) :
    analyseData R mem a (f ++ rest) output =
      if Arrived f rest then
        some ⟨true, { a with transData := some (transOf mem f f.length f) }, rest, output⟩
      else some ⟨false, a, f ++ rest, output⟩ := by
  have hd := dataHeadLen_le f
  have hsize := h.size
  have hflag : byteAt ((f ++ rest).take (2 : ℤ).toNat) 1 = byteAt f 1 := by
    rw [byteAt_take (by decide), byteAt_append rest (by omega)]
  unfold EglComet.analyseData
  rw [evbufferPullup_of_le (by norm_num) (by rw [List.length_append]; omega)]
  simp only [hflag, h.notHeart, ne_eq, not_true_eq_false, ↓reduceIte]
  by_cases harr : Arrived f rest
  · rw [h.packCall, if_pos harr, if_pos harr]
    apply h.analysePack
    simp only [PackCall.packSize, h.sum]
  · rw [h.packCall, if_neg harr, if_neg harr]

theorem RelayFrame.handsOut_iff (h : RelayFrame f) (rest output : Bytes) (mem : ℕ → UInt8)
    (a : AnalyseReq) (record : UInt64 × UInt64 × Bytes) :
    HandsOut R mem a (f ++ rest) output record ↔
      Arrived f rest ∧ ((transOf mem f f.length f).fromId, (transOf mem f f.length f).toId, f) =
        record := by
  unfold HandsOut
  rw [h.analyseData]
  split_ifs with harr
  · simp [harr, transOf]
  · simp [harr]

end Record

theorem slice_congr {mem mem' : ℕ → UInt8} {region : Bytes} {off len : ℕ}
    (h : ∀ i < len, peek mem region (off + i) = peek mem' region (off + i)) :
    slice mem region off len = slice mem' region off len := by
  apply List.map_congr_left
  intro i hi
  exact h i (List.mem_range.mp hi)

/-- The record depends on memory only through the bytes the branch reads. -/
theorem transOf_congr {mem mem' : ℕ → UInt8} {f : Bytes} {n : ℤ} {data : Bytes}
    (h : ∀ i ∈ relayReads, peek mem f i = peek mem' f i) :
    transOf mem f n data = transOf mem' f n data := by
  have hread : ∀ i < 8, 4 + i ∈ relayReads ∧ 12 + i ∈ relayReads := by decide
  have hfrom : slice mem f 4 8 = slice mem' f 4 8 := slice_congr fun i hi => h _ (hread i hi).1
  have hto : slice mem f 12 8 = slice mem' f 12 8 := slice_congr fun i hi => h _ (hread i hi).2
  simp only [transOf, hfrom, hto]

theorem bigEndian_append (bs : Bytes) (b : UInt8) :
    bigEndian (bs ++ [b]) = bigEndian bs * 256 + b.toNat := by
  simp [bigEndian]

/-- The last byte of the recipient tells two memories apart. -/
theorem transOf_toId_ne {f : Bytes} (n : ℤ) (data : Bytes) (hf : f.length < 20) :
    (transOf (fun _ => 0) f n data).toId ≠
      (transOf (fun i => if i = 19 then 1 else 0) f n data).toId := by
  have hsplit : ∀ mem, slice mem f 12 8 = slice mem f 12 7 ++ [peek mem f 19] := by
    intro mem
    simp [slice, List.range_succ]
  have hlow : slice (fun _ => 0) f 12 7 = slice (fun i => if i = 19 then 1 else 0) f 12 7 := by
    apply slice_congr
    intro i hi
    have hne : 12 + i ≠ 19 := by omega
    simp [peek, hne]
  have hlast : ∀ mem, peek mem f 19 = mem 19 := by
    intro mem
    simp [peek, List.getElem?_eq_none (show f.length ≤ 19 by omega)]
  have hlt : bigEndian (slice (fun i => if i = 19 then 1 else 0) f 12 7) < 256 ^ 7 := by
    have hb := bigEndian_lt (slice (fun i => if i = 19 then 1 else 0) f 12 7)
    simpa [slice] using hb
  intro heq
  have hn := congrArg UInt64.toNat heq
  simp only [transOf, hsplit, hlast, hlow, bigEndian_append, UInt64.toNat_ofNat'] at hn
  simp at hn
  omega

/-- Two buffers that begin with the same relay frame yield the same record, whatever memory and
whatever parser, exactly when the frame has arrived in both and has the 20 bytes that the branch
reads. -/
theorem relay_record_own_frame_iff {σ : Type} (R : Runtime σ) {f : Bytes} (hf : RelayFrame f)
    (rest rest' : Bytes) :
    ((∀ mem mem' a a' output output', ∃ record,
        HandsOut R mem a (f ++ rest) output record ∧
          HandsOut R mem' a' (f ++ rest') output' record) ↔
      (∀ i ∈ relayReads, i < f.length) ∧ Arrived f rest ∧ Arrived f rest') ∧
    ((∀ i ∈ relayReads, i < f.length) ↔ 20 ≤ f.length) := by
  have hreads : (∀ i ∈ relayReads, i < f.length) ↔ 20 ≤ f.length := by
    constructor
    · intro h
      exact h 19 (by decide)
    · intro h i hi
      have hmax : ∀ i ∈ relayReads, i < 20 := by decide
      exact (hmax i hi).trans_le h
  refine ⟨?_, hreads⟩
  simp only [hf.handsOut_iff]
  constructor
  · intro h
    obtain ⟨record, ⟨harr, hrec⟩, harr', hrec'⟩ := h (fun _ => 0)
      (fun i => if i = 19 then 1 else 0) (.new false) (.new false) [] []
    refine ⟨hreads.mpr ?_, harr, harr'⟩
    by_contra hshort
    have heq := congrArg (fun p => p.2.1) (hrec.trans hrec'.symm)
    exact transOf_toId_ne f.length f (by omega) heq
  · intro h mem mem' a a' output output'
    obtain ⟨hin, harr, harr'⟩ := h
    refine ⟨_, ⟨harr, rfl⟩, harr', ?_⟩
    have hrec : transOf mem' f f.length f = transOf mem f f.length f := by
      apply transOf_congr
      intro i hi
      rw [peek_eq_byteAt (hin i hi), peek_eq_byteAt (hin i hi)]
    rw [hrec]

/-- A relay from 7 to 9 with one payload byte. -/
def plainRelay : Bytes :=
  [0x15, 0x40, 0, 0] ++ [0, 0, 0, 0, 0, 0, 0, 7] ++ [0, 0, 0, 0, 0, 0, 0, 9] ++
    [0, 1, 1, 0, 1, 0x61]

theorem plainRelay_relayFrame : RelayFrame plainRelay :=
  ⟨by decide, by decide, by decide, by decide⟩

theorem plainRelay_own_record :
    RelayFrame plainRelay ∧ ∀ mem mem' a a' output output', ∃ record,
      HandsOut Wire.runtime mem a (plainRelay ++ []) output record ∧
        HandsOut Wire.runtime mem' a' (plainRelay ++ [0x15, 0x20]) output' record := by
  refine ⟨plainRelay_relayFrame, ?_⟩
  apply (relay_record_own_frame_iff Wire.runtime plainRelay_relayFrame [] [0x15, 0x20]).1.mpr
  exact ⟨by decide, by decide +kernel, by decide +kernel⟩

/-- A relay frame without a header of its own: six bytes in all. -/
def shortRelay : Bytes := [0x10, 0x40, 0x00, 0x00, 0x01, 0x61]

/-- Bytes that may follow it, with a given last one. -/
def followedBy (b : UInt8) : Bytes := List.replicate 13 0 ++ [b]

/-- The memory behind a region of a buffer that lies in one piece. -/
def inOnePiece (input : Bytes) : ℕ → UInt8 := fun i => byteAt input i

/-- The recipient of the short frame is taken from the frame behind it. -/
theorem shortRelay_takes_next :
    RelayFrame shortRelay ∧
    HandsOut Wire.runtime (inOnePiece (shortRelay ++ followedBy 8)) (.new false)
      (shortRelay ++ followedBy 8) [] (0x0161000000000000, 8, shortRelay) ∧
    HandsOut Wire.runtime (inOnePiece (shortRelay ++ followedBy 9)) (.new false)
      (shortRelay ++ followedBy 9) [] (0x0161000000000000, 9, shortRelay) := by
  have hf : RelayFrame shortRelay := ⟨by decide, by decide, by decide, by decide⟩
  refine ⟨hf, ?_, ?_⟩
  · exact (hf.handsOut_iff _ _ _ _ _ _).mpr ⟨by decide +kernel, by decide +kernel⟩
  · exact (hf.handsOut_iff _ _ _ _ _ _).mpr ⟨by decide +kernel, by decide +kernel⟩

end EglComet
