import EglComet.AnalyseReq.Calls
import EglComet.AnalyseReq.RoundTrip
import EglComet.Library.PrefixCode

/-!
Frames as a reader of the stream delimits them: four bytes with the heartbeat
bit, or the header, the data head and as many bytes as the length field says.
These words form a prefix code. The two encoders write such words, and a record
that was read from a client is one unless its announced size wraps past
`2 ^ 32`.
-/
namespace EglComet

open Protobuf MachineInt PrefixCode

/-- A whole frame, as its own bytes delimit it. -/
inductive Complete (f : Bytes) : Prop where
  | heartbeat (h : HeartbeatFrame f)
  | data (hbit : byteAt f 1 &&& 0x20 = 0)
      (hlen : f.length = headLen f + dataHeadLen f + declaredLen f)

theorem Complete.three_lt {f : Bytes} (h : Complete f) : 3 < f.length := by
  cases h with
  | heartbeat h =>
    rw [h.1]
    decide
  | data _ hlen =>
    have := (dataHeadLen_le f).1
    omega

/-- The bytes of a whole frame determine its length, whatever follows it. -/
theorem length_eq_of_append {f g x y : Bytes} (hf : Complete f) (hg : Complete g)
    (h : f ++ x = g ++ y) : f.length = g.length := by
  have hf3 := hf.three_lt
  have hg3 := hg.three_lt
  have hbyte : ∀ i, i < f.length → i < g.length → byteAt f i = byteAt g i := by
    intro i hi hi'
    rw [← byteAt_append x hi, h, byteAt_append y hi']
  have h1 := hbyte 1 (by omega) (by omega)
  cases hf with
  | heartbeat hf =>
    cases hg with
    | heartbeat hg => rw [hf.1, hg.1]
    | data hbit _ => exact absurd hbit (h1 ▸ hf.2)
  | data hbit hlen =>
    cases hg with
    | heartbeat hg => exact absurd hbit (h1.symm ▸ hg.2)
    | data _ hlen' =>
      have hd := (dataHeadLen_le f).1
      have hd' := (dataHeadLen_le g).1
      have hh : headLen f = headLen g := by
        rw [← headLen_append x (by omega), h, headLen_append y (by omega)]
      have hdh : dataHeadLen f = dataHeadLen g := by
        rw [← dataHeadLen_append x (by omega), h, dataHeadLen_append y (by omega)]
      have hn : declaredLen f = declaredLen g := by
        rw [← declaredLen_append x (by omega), h, declaredLen_append y (by omega)]
      rw [hlen, hlen', hh, hdh, hn]

theorem isPrefixCode_complete : IsPrefixCode Complete where
  ne_nil h := List.ne_nil_of_length_pos (Nat.zero_lt_of_lt h.three_lt)
  eq_of_append hf hg h := (List.append_inj h (length_eq_of_append hf hg h)).1

/-- What the encoders write is a whole frame, unless the short length field spells the marker of
the long form. -/
theorem complete_frameOf (ttl : UInt8) (propertyId : ℕ) {src : Bytes} (h : src.length ≠ 0xFF00)
    (hn : src.length < 2 ^ 32) : Complete (frameOf ttl propertyId src) := by
  have hhead := headLen_frameOf ttl propertyId src []
  have hdata := dataHeadLen_frameOf ttl propertyId src [] h
  have hlen := declaredLen_frameOf ttl propertyId src [] hn h
  rw [List.append_nil] at hhead hdata hlen
  refine .data ?_ ?_
  · have hb : byteAt (frameOf ttl propertyId src) 1 = 0 := rfl
    rw [hb]
    decide
  · rw [length_frameOf, hhead, hlen, hdata]

/-- Some bytes of a frame, too few to hold the header and the length field they begin. -/
def Cut (bs : Bytes) : Prop := bs ≠ [] ∧ bs.length < headLen bs + dataHeadLen bs

instance (bs : Bytes) : Decidable (Cut bs) := by unfold Cut; infer_instance

section Relay

variable {σ : Type} {R : Runtime σ} {mem : ℕ → UInt8}

/-- A call that hands over a record has found a data frame, made the record from the region it
pulled up, and taken its `pack_size` bytes. -/
theorem analyseData_relay {a : AnalyseReq} {input output : Bytes} {r : Analysed} {d : TransData}
    (h : analyseData R mem a input output = some r) (ha : a.transData = none)
    (hd : r.req.transData = some d) :
    byteAt input 1 &&& 0x20 = 0 ∧ ∃ c packBag, packCall input = some c ∧
      evbufferPullup input c.packSize = some packBag ∧
      d = transOf mem packBag c.packSize (input.take (sizeT c.packSize)) := by
  unfold analyseData at h
  cases hp : evbufferPullup input 2 with
  | none =>
    obtain rfl : ⟨false, a, input, output⟩ = r := by simpa [hp] using h
    simp [ha] at hd
  | some data =>
    simp only [hp] at h
    rw [byteAt_pullup hp] at h
    split_ifs at h with hb
    · obtain rfl := Option.some.inj h
      simp [ha] at hd
    · refine ⟨not_not.mp hb, ?_⟩
      cases hc : packCall input with
      | none =>
        obtain rfl : ⟨false, a, input, output⟩ = r := by simpa [hc] using h
        simp [ha] at hd
      | some c =>
        simp only [hc] at h
        cases analysePack_end R h with
        | relay hp hsize =>
          obtain rfl := Option.some.inj hd
          exact ⟨c, _, rfl, hp, rfl⟩
        | unread => simp [ha] at hd
        | login | property => simp [analyseLoginPack, ha] at hd

/-- The 32-bit sum of the lengths of a frame is exact or `2 ^ 32` too small. -/
theorem packSize_total (input : Bytes) :
    (⟨headLen input, dataHeadLen input, wrap32 (declaredLen input)⟩ : PackCall).packSize =
        headLen input + dataHeadLen input + declaredLen input ∨
      (⟨headLen input, dataHeadLen input, wrap32 (declaredLen input)⟩ : PackCall).packSize =
        headLen input + dataHeadLen input + declaredLen input - 2 ^ 32 := by
  have hh := headLen_le input
  have hd := dataHeadLen_le input
  have hn := declaredLen_lt input
  have hsum : (⟨headLen input, dataHeadLen input, wrap32 (declaredLen input)⟩ :
      PackCall).packSize = wrap32 (headLen input + dataHeadLen input + declaredLen input) := by
    rw [PackCall.packSize, wrap32_add_wrap32]
  rw [hsum]
  rcases lt_or_ge (headLen input + dataHeadLen input + declaredLen input) (2 ^ 31) with hlt | hge
  · exact Or.inl (wrap32_of_range (by omega) (by omega))
  · exact Or.inr (wrap32_of_high (by omega) (by omega))

/-- A frame handed over is whole, or the sum of its lengths exceeded `2 ^ 32` and only the first
few bytes of it were taken. -/
theorem Yields.complete_or_cut {rest : Bytes} {d : TransData}
    (h : Yields R mem d.data rest none (some d)) : Complete d.data ∨ Cut d.data := by
  have hsize := h.relay_size
  obtain ⟨r, hcall, -, -, -, hd⟩ := h (AnalyseReq.new false) [] ⟨rfl, rfl⟩
  obtain ⟨hbit, c, packBag, hc, hpull, he⟩ := analyseData_relay hcall rfl hd
  have hne := (evbufferPullup_some hpull).2.1
  have hds : d.dataSize = c.packSize := by
    rw [he]
    rfl
  rw [packCall_eq_wrap, Option.ite_none_right_eq_some] at hc
  obtain ⟨-, hc⟩ := hc
  obtain rfl := Option.some.inj hc
  have hpos : 0 < d.data.length := by omega
  have hn := declaredLen_lt (d.data ++ rest)
  have hd5 := (dataHeadLen_le (d.data ++ rest)).1
  have hh := headLen_append rest hpos
  -- past the fifth byte behind the header both length fields are those of the record itself
  have hdh : headLen d.data + 5 ≤ d.data.length →
      dataHeadLen (d.data ++ rest) = dataHeadLen d.data := dataHeadLen_append rest
  rcases packSize_total (d.data ++ rest) with hsum | hsum
  · left
    have hlong := hdh (by omega)
    have hdecl := declaredLen_append rest (p := d.data) (by omega)
    have hb := byteAt_append rest (p := d.data) (i := 1) (by omega)
    exact .data (hb ▸ hbit) (by omega)
  · refine Or.inr ⟨List.ne_nil_of_length_pos hpos, ?_⟩
    by_cases hlong : headLen d.data + 5 ≤ d.data.length
    · rw [← hdh hlong, ← hh]
      omega
    · have := (dataHeadLen_le d.data).1
      omega

/-- The sender of a record is the one that its own bytes name. -/
theorem Yields.fromId {rest : Bytes} {d : TransData}
    (h : Yields R mem d.data rest none (some d)) (h12 : 12 ≤ d.data.length) :
    d.fromId = UInt64.ofNat (bigEndian ((d.data.drop 4).take 8)) := by
  have hsize := h.relay_size
  obtain ⟨r, hcall, -, -, -, hd⟩ := h (AnalyseReq.new false) [] ⟨rfl, rfl⟩
  obtain ⟨-, c, packBag, -, hpull, he⟩ := analyseData_relay hcall rfl hd
  have hds : d.dataSize = c.packSize := by
    rw [he]
    rfl
  have hpack : c.packSize = d.data.length := by omega
  have hbag : packBag = d.data := by
    rw [hpack] at hpull
    rw [evbufferPullup_of_le (by omega) (by rw [List.length_append]; omega), Option.some.injEq,
      Int.toNat_natCast, List.take_left'] at hpull
    · exact hpull.symm
    · rfl
  have hfrom : d.fromId = UInt64.ofNat (bigEndian (slice mem packBag 4 8)) := by
    rw [he]
    rfl
  rw [hfrom, hbag, slice_eq mem (by omega)]

end Relay

end EglComet
