import EglComet.AnalyseReq.Encode
import EglComet.AnalyseReq.FrameStream
import EglComet.Protobuf.WireFormat

/-!
The frames the two encoders write, read back by the framing of `analyse_data`.
Both encoders produce one layout; the length field of its short form can spell
the marker that announces the long form.
-/
namespace EglComet

open Protobuf MachineInt

theorem byteAt_append_right (p q : Bytes) (i : ℕ) :
    byteAt (p ++ q) (p.length + i) = byteAt q i := by
  simp [byteAt, List.getElem?_append_right]

theorem blit_inside (mem : ℕ → UInt8) {off i : ℕ} {bs : Bytes} (h : i < bs.length) :
    blit mem off bs (off + i) = byteAt bs i := by
  rw [blit, if_pos ⟨by omega, by omega⟩, Nat.add_sub_cancel_left]

theorem blit_outside (mem : ℕ → UInt8) {off i : ℕ} {bs : Bytes}
    (h : i < off ∨ off + bs.length ≤ i) : blit mem off bs i = mem i := by
  rw [blit, if_neg (by omega)]

/-- Two writes one behind the other are one write. -/
theorem blit_blit (mem : ℕ → UInt8) (off : ℕ) (p q : Bytes) :
    blit (blit mem off p) (off + p.length) q = blit mem off (p ++ q) := by
  funext i
  rcases lt_or_ge i off with hlt | hge
  · rw [blit_outside _ (by omega), blit_outside _ (by omega), blit_outside _ (by omega)]
  · obtain ⟨k, rfl⟩ := Nat.exists_eq_add_of_le hge
    rcases lt_or_ge k p.length with hp | hp
    · rw [blit_outside _ (by omega), blit_inside _ hp, blit_inside _ (by simp; omega),
        byteAt_append q hp]
    · obtain ⟨j, rfl⟩ := Nat.exists_eq_add_of_le hp
      rcases lt_or_ge j q.length with hq | hq
      · rw [← Nat.add_assoc, blit_inside _ hq, Nat.add_assoc, blit_inside _ (by simpa using hq),
          byteAt_append_right]
      · rw [blit_outside _ (by omega), blit_outside _ (by omega), blit_outside _ (by simp; omega)]

/-- A buffer whose part from `off` on is known. -/
theorem map_range_append {f : ℕ → UInt8} {off : ℕ} {bs : Bytes}
    (h : ∀ i < bs.length, f (off + i) = byteAt bs i) :
    (List.range (off + bs.length)).map f = (List.range off).map f ++ bs := by
  rw [List.range_add, List.map_append, List.map_map]
  congr 1
  apply List.ext_getElem
  · simp
  · intro i h0 h1
    simp [h i h1, byteAt, h1]

/-- The length field of a payload of `n` bytes. -/
def lengthField (n : ℕ) : Bytes := if n > 0xFF00 then [0xFF, 0x00] ++ netLong n else netShort n

/-- Both encoders write the length field and the payload behind it from offset 23 on. -/
theorem putPayload_eq (mem : ℕ → UInt8) (src : Bytes) :
    putPayload mem src = (blit mem 23 (lengthField src.length ++ src),
      23 + (lengthField src.length ++ src).length) := by
  unfold putPayload lengthField
  split_ifs with h
  · apply Prod.ext
    · rw [← blit_blit, ← blit_blit]
      rfl
    · simp only [List.length_append]
      exact Nat.add_assoc 23 6 src.length
  · apply Prod.ext
    · rw [← blit_blit]
      rfl
    · simp only [List.length_append]
      exact Nat.add_assoc 23 2 src.length

theorem blit_head (mem : ℕ → UInt8) {off : ℕ} {bs : Bytes} (h : off + bs.length ≤ 23) (i : ℕ) :
    blit mem off bs (23 + i) = mem (23 + i) :=
  blit_outside mem (by omega)

/-- A frame with a 20-byte header, whose two ids are zero, and one payload. -/
def frameOf (ttl : UInt8) (propertyId : ℕ) (src : Bytes) : Bytes :=
  [0x15, 0x0, ttl, 0x0] ++ List.replicate 16 0 ++ netShort propertyId ++ [0x01] ++
    (lengthField src.length ++ src)

theorem packData_eq (src : Bytes) (propertyId : ℕ) (des : ℕ → UInt8) :
    packData src propertyId des = frameOf (des 2) 12 src := by
  unfold packData
  simp only [putPayload_eq]
  rw [map_range_append]
  · rfl
  · intro i hi
    iterate 7 rw [blit_head _ (by decide)]
    exact blit_inside _ hi

section Encoders

variable {σ : Type} (R : Runtime σ)

/-- The serialized `S2CLogin` of a reply. -/
def loginPayload (isSuccess : Bool) (msg : Bytes) (pingTime : ℤ) : Bytes :=
  ({ code := some (if isSuccess then 200 else 401), msg := some msg, pingTime := some pingTime } :
    S2CLogin).serialize R

theorem getLoginRsp_eq (a : AnalyseReq) (isSuccess : Bool) (msg : Bytes) (pingTime : ℤ)
    (mem : ℕ → UInt8) :
    (getLoginRsp R a isSuccess msg pingTime mem).1 =
      frameOf 0 11 (loginPayload R isSuccess msg pingTime) := by
  unfold getLoginRsp
  simp only [putPayload_eq]
  rw [map_range_append]
  · rfl
  · intro i hi
    iterate 8 rw [blit_head _ (by decide)]
    exact blit_inside _ hi

end Encoders

theorem length_lengthField (n : ℕ) : (lengthField n).length = if n > 0xFF00 then 6 else 2 := by
  unfold lengthField
  split_ifs <;> rfl

theorem length_frameOf (ttl : UInt8) (propertyId : ℕ) (src : Bytes) :
    (frameOf ttl propertyId src).length = 23 + (lengthField src.length).length + src.length := by
  simp only [frameOf, List.length_append, List.length_replicate, netShort, List.length_cons,
    List.length_nil]
  omega

theorem frameOf_inj {ttl ttl' : UInt8} {propertyId : ℕ} {src src' : Bytes}
    (h : frameOf ttl propertyId src = frameOf ttl' propertyId src') : src = src' := by
  have hlen := congrArg List.length h
  rw [length_frameOf, length_frameOf, length_lengthField, length_lengthField] at hlen
  have hn : src.length = src'.length := by split_ifs at hlen <;> omega
  have hrest : lengthField src.length ++ src = lengthField src'.length ++ src' :=
    (List.append_inj h (by simp [netShort])).2
  rw [hn] at hrest
  exact List.append_cancel_left hrest

theorem frameOf_ttl_inj {ttl ttl' : UInt8} {propertyId : ℕ} {src : Bytes} :
    frameOf ttl propertyId src = frameOf ttl' propertyId src ↔ ttl = ttl' := by
  constructor
  · intro h
    exact congrArg (byteAt · 2) h
  · intro h
    rw [h]

/-- Presence frames with the same bytes have the same payload. -/
theorem packData_inj {src src' : Bytes} {propertyId : ℕ} {mem mem' : ℕ → UInt8}
    (h : packData src propertyId mem = packData src' propertyId mem') : src = src' := by
  rw [packData_eq, packData_eq] at h
  exact frameOf_inj h

theorem bigEndian_netShort {n : ℕ} (h : n < 2 ^ 16) : bigEndian (netShort n) = n := by
  simp only [bigEndian, netShort, List.foldl_cons, List.foldl_nil, UInt8.toNat_ofNat']
  omega

theorem bigEndian_netLong {n : ℕ} (h : n < 2 ^ 32) : bigEndian (netLong n) = n := by
  simp only [bigEndian, netLong, List.foldl_cons, List.foldl_nil, UInt8.toNat_ofNat']
  omega

/-- The frame is recognised with a 20-byte header, its payload where it was written, its length
and its total size. -/
def RoundTrips (frame src rest : Bytes) : Prop :=
  ∃ c, CallsPack (frame ++ rest) c ∧ c.headLen = 20 ∧ c.dataLen = src.length ∧
    c.packSize = frame.length ∧ frame.drop (c.headLen + c.dataHeadLen) = src

/-- The payload has not the one length whose short form spells the marker of the long form, and
the bytes buffered, counted in an `int`, cover the frame. -/
def Readable (frame src rest : Bytes) : Prop :=
  src.length ≠ 0xFF00 ∧ (frame.length : ℤ) ≤ wrap32 (frame ++ rest).length

section Frame

variable (ttl : UInt8) (propertyId : ℕ) (src rest : Bytes)

theorem drop_frameOf (k : ℕ) :
    (frameOf ttl propertyId src ++ rest).drop (23 + k) =
      (lengthField src.length ++ src ++ rest).drop k := by
  unfold frameOf
  rw [List.append_assoc _ _ rest, ← List.drop_drop]
  rfl

theorem byteAt_frameOf (k : ℕ) :
    byteAt (frameOf ttl propertyId src ++ rest) (23 + k) =
      byteAt (lengthField src.length ++ src ++ rest) k := by
  unfold frameOf
  rw [List.append_assoc _ _ rest]
  exact byteAt_append_right _ _ k

theorem headLen_frameOf : headLen (frameOf ttl propertyId src ++ rest) = 20 := by
  have h : byteAt (frameOf ttl propertyId src ++ rest) 0 = 0x15 := rfl
  rw [headLen, h]
  decide

/-- The decoder takes the long form from 0xFF00 on, the encoders only above it. -/
theorem longForm_frameOf :
    LongForm (frameOf ttl propertyId src ++ rest) ↔ 0xFF00 ≤ src.length := by
  unfold LongForm
  rw [headLen_frameOf, byteAt_frameOf ttl propertyId src rest 0,
    byteAt_frameOf ttl propertyId src rest 1]
  unfold lengthField
  split_ifs with h
  · exact ⟨fun _ => h.le, fun _ => ⟨rfl, rfl⟩⟩
  · show UInt8.ofNat (src.length / 256) = 0xFF ∧ UInt8.ofNat src.length = 0 ↔ _
    rw [← UInt8.toNat_inj, ← UInt8.toNat_inj, UInt8.toNat_ofNat', UInt8.toNat_ofNat']
    show _ = 255 ∧ _ = 0 ↔ _
    omega

theorem declaredLen_frameOf (hn : src.length < 2 ^ 32) (h : src.length ≠ 0xFF00) :
    declaredLen (frameOf ttl propertyId src ++ rest) = src.length := by
  unfold declaredLen
  rw [headLen_frameOf, drop_frameOf ttl propertyId src rest 0,
    drop_frameOf ttl propertyId src rest 2]
  unfold lengthField
  by_cases hlong : src.length > 0xFF00
  · rw [if_pos ((longForm_frameOf ttl propertyId src rest).mpr hlong.le), if_pos hlong]
    exact bigEndian_netLong hn
  · rw [if_neg (mt (longForm_frameOf ttl propertyId src rest).mp (by omega)), if_neg hlong]
    exact bigEndian_netShort (by omega)

/-- The header and the data head the decoder sees end where the payload begins, unless the short
length field spells the marker. -/
theorem dataHeadLen_frameOf (h : src.length ≠ 0xFF00) :
    20 + dataHeadLen (frameOf ttl propertyId src ++ rest) =
      23 + (lengthField src.length).length := by
  have hlong := longForm_frameOf ttl propertyId src rest
  rw [length_lengthField, dataHeadLen]
  by_cases hn : src.length > 0xFF00
  · rw [if_pos (hlong.mpr hn.le), if_pos hn]
  · rw [if_neg (mt hlong.mp (by omega)), if_neg hn]

theorem not_roundTrips_of_marker (h : src.length = 0xFF00) :
    ¬ RoundTrips (frameOf ttl propertyId src) src rest := by
  rintro ⟨c, ⟨-, hc⟩, -, -, -, hdrop⟩
  rw [packCall_eq_wrap, Option.ite_none_right_eq_some] at hc
  obtain rfl := Option.some.inj hc.2
  have hlong := (longForm_frameOf ttl propertyId src rest).mpr h.ge
  have hlen := congrArg List.length hdrop
  rw [List.length_drop, headLen_frameOf, dataHeadLen, if_pos hlong, length_frameOf,
    length_lengthField, if_neg (by omega), h] at hlen
  simp at hlen

theorem roundTrips_frameOf (h1 : 1 ≤ src.length) (hn : src.length ≤ 2 ^ 31 - 30) :
    RoundTrips (frameOf ttl propertyId src) src rest ↔
      Readable (frameOf ttl propertyId src) src rest := by
  have hlen := length_frameOf ttl propertyId src
  have hhead := headLen_frameOf ttl propertyId src rest
  constructor
  · intro h
    refine ⟨fun hm => not_roundTrips_of_marker ttl propertyId src rest hm h, ?_⟩
    obtain ⟨c, ⟨-, hc⟩, -, -, hsize, -⟩ := h
    rw [packCall_eq_wrap, Option.ite_none_right_eq_some] at hc
    obtain ⟨⟨-, hfit⟩, hc⟩ := hc
    obtain rfl := Option.some.inj hc
    simp only [PackCall.packSize] at hsize
    rwa [hsize] at hfit
  · rintro ⟨hne, hcover⟩
    have hdecl := declaredLen_frameOf ttl propertyId src rest (by omega) hne
    have hdh := dataHeadLen_frameOf ttl propertyId src rest hne
    have hmax := length_lengthField src.length
    have hw : wrap32 (src.length : ℤ) = src.length := wrap32_of_range (by omega) (by omega)
    have hsum : wrap32 (((20 : ℕ) : ℤ) + dataHeadLen (frameOf ttl propertyId src ++ rest) +
        src.length) = (frameOf ttl propertyId src).length := by
      rw [wrap32_of_range] <;> split_ifs at hmax <;> omega
    refine ⟨⟨20, dataHeadLen (frameOf ttl propertyId src ++ rest), src.length⟩, ⟨?_, ?_⟩, rfl, rfl,
      hsum, ?_⟩
    · have hb : byteAt (frameOf ttl propertyId src ++ rest) 1 = 0 := rfl
      rw [hb]
      decide
    · rw [packCall_eq_wrap, hhead, hdecl, hw, hsum, if_pos ⟨by omega, hcover⟩]
    · have hdrop := drop_frameOf ttl propertyId src [] (lengthField src.length).length
      simpa [hdh] using hdrop

end Frame

/-- A frame of either encoder is read back as it was written exactly when its payload is not
0xFF00 bytes long and the buffer's length fits the decoder's `int`. -/
theorem encoders_roundTrip_iff {σ : Type} (R : Runtime σ) (rest : Bytes) :
    (∀ (src : Bytes) (propertyId : ℕ) (des : ℕ → UInt8),
      1 ≤ src.length → src.length ≤ 2 ^ 31 - 30 →
        (RoundTrips (packData src propertyId des) src rest ↔
          Readable (packData src propertyId des) src rest)) ∧
    ∀ (a : AnalyseReq) (isSuccess : Bool) (msg : Bytes) (pingTime : ℤ) (mem : ℕ → UInt8),
      1 ≤ (loginPayload R isSuccess msg pingTime).length →
      (loginPayload R isSuccess msg pingTime).length ≤ 2 ^ 31 - 30 →
        (RoundTrips (getLoginRsp R a isSuccess msg pingTime mem).1
            (loginPayload R isSuccess msg pingTime) rest ↔
          Readable (getLoginRsp R a isSuccess msg pingTime mem).1
            (loginPayload R isSuccess msg pingTime) rest) := by
  constructor
  · intro src propertyId des h1 hn
    rw [packData_eq]
    exact roundTrips_frameOf (des 2) 12 src rest h1 hn
  · intro a isSuccess msg pingTime mem h1 hn
    rw [getLoginRsp_eq]
    exact roundTrips_frameOf 0 11 _ rest h1 hn

/-- A one-byte payload and the reply "OK" come back, with a byte of the next frame behind them. -/
theorem small_frames_roundTrip :
    RoundTrips (packData [7] 12 fun _ => 0) [7] [0x15] ∧
    RoundTrips (getLoginRsp Wire.runtime (.new false) true (ascii "OK") 30 fun _ => 0).1
      (loginPayload Wire.runtime true (ascii "OK") 30) [0x15] := by
  have h := encoders_roundTrip_iff Wire.runtime [0x15]
  constructor
  · apply (h.1 [7] 12 (fun _ => 0) (by decide) (by decide)).mpr
    exact ⟨by decide, by decide +kernel⟩
  · apply (h.2 (.new false) true (ascii "OK") 30 (fun _ => 0) (by decide +kernel)
      (by decide +kernel)).mpr
    exact ⟨by decide +kernel, by decide +kernel⟩

/-- A payload of 0xFF00 bytes is written in the short form and read in the long form. -/
theorem marker_length_not_roundTrips :
    (1 ≤ (List.replicate 0xFF00 (7 : UInt8)).length ∧
      (List.replicate 0xFF00 (7 : UInt8)).length ≤ 2 ^ 31 - 30) ∧
    ¬ RoundTrips (packData (List.replicate 0xFF00 7) 12 fun _ => 0)
      (List.replicate 0xFF00 7) [] := by
  rw [packData_eq]
  refine ⟨?_, not_roundTrips_of_marker 0 12 _ [] List.length_replicate⟩
  rw [List.length_replicate]
  decide

/-- A presence frame depends on what its destination held before in one byte, the third of the
header, which `pack_data` never writes; a login reply depends on nothing but its payload. -/
theorem emitted_frames_clean_iff {σ : Type} (R : Runtime σ) :
    (∀ (src : Bytes) (propertyId : ℕ) (des des' : ℕ → UInt8),
      packData src propertyId des = packData src propertyId des' ↔ des 2 = des' 2) ∧
    ∀ (a a' : AnalyseReq) (isSuccess : Bool) (msg : Bytes) (pingTime : ℤ) (mem mem' : ℕ → UInt8),
      (getLoginRsp R a isSuccess msg pingTime mem).1 =
        (getLoginRsp R a' isSuccess msg pingTime mem').1 := by
  constructor
  · intro src propertyId des des'
    rw [packData_eq, packData_eq]
    exact frameOf_ttl_inj
  · intro a a' isSuccess msg pingTime mem mem'
    rw [getLoginRsp_eq, getLoginRsp_eq]

/-- One payload byte, in memory that was cleared and in memory that was not. -/
theorem presence_frame_stale :
    packData [7] 12 (fun _ => 0) ≠ packData [7] 12 (fun _ => 1) := by
  decide +kernel

end EglComet
