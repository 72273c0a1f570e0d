import EglComet.AnalyseReq.FrameStream
import EglComet.Libevent.Bufferevent

/-!
`analyse_data` and `analyse_pack` on the chains of libevent's buffers, with the
pointers that `evbuffer_pullup` returns, and the socket they are fed from. They
do what their models on flat arrays do, where the memory behind a region is what
the chain holds behind it.
-/
namespace EglComet

open Protobuf MachineInt

/-- The memory that a pointer to the first byte of a chain leads to, up to the end of its block. -/
def Chain.pointed (c : Chain) : Bytes := c.buffer.drop c.misalign

/-- The memory during a call: the contents of the blocks that `malloc` returns, one after the other,
and what lies behind the block of a chain. -/
structure HeapMemory where
  malloc : ℕ → ℕ → UInt8
  behind : ℕ → UInt8

/-- What a call of `analyse_data` leaves. -/
structure BufferedResult where
  ret : Bool
  req : AnalyseReq
  bev : Bufferevent

def BufferedResult.flat (r : BufferedResult) : Analysed :=
  ⟨r.ret, r.req, r.bev.input.contents, r.bev.output.contents⟩

namespace Bufferevent

section Analyse

variable {σ : Type} (R : Runtime σ)

/-- The part of `analyse_data` that reads the length fields. -/
def dataHead (heap : HeapMemory) (bufferSize : ℤ) (h : ℕ) (input : Evbuffer) :
    Option PackCall × Evbuffer :=
  if bufferSize > h + 5 then
    match input.pullup (some (heap.malloc 1)) (h + 5) with
    | (none, input) => (none, input)
    | (some data, input) =>
      if peek heap.behind data.pointed (h + 3) = 0xFF ∧
          peek heap.behind data.pointed (h + 4) = 0x0 then
        if bufferSize > h + 9 then
          match input.pullup (some (heap.malloc 2)) (h + 9) with
          | (none, input) => (none, input)
          | (some data, input) =>
            (some ⟨h, 9, wrap32 (bigEndian (slice heap.behind data.pointed (h + 5) 4))⟩, input)
        else (none, input)
      else (some ⟨h, 5, bigEndian (slice heap.behind data.pointed (h + 3) 2)⟩, input)
  else (none, input)

/-- `analyse_pack`. -/
def analysePack (heap : HeapMemory) (a : AnalyseReq) (bev : Bufferevent) (c : PackCall) :
    Option BufferedResult :=
  match bev.input.pullup (some (heap.malloc 3)) c.packSize with
  | (none, input) => some ⟨false, a, { bev with input := input }⟩
  | (some packBag, input) =>
    if peek heap.behind packBag.pointed 1 &&& 0x40 ≠ 0 then
      if c.packSize < 0 then none
      else
        let r := input.remove (sizeT c.packSize)
        some ⟨true, { a with
          transData := some (transOf heap.behind packBag.pointed c.packSize r.1) },
          { bev with input := r.2 }⟩
    else
      let drained := { bev with input := input.drain (sizeT c.packSize) }
      match propertyId heap.behind packBag.pointed c.headLen with
      | 1 => some ⟨true, a, drained⟩
      | 10 =>
        if c.dataLen < 0 then none
        else
          let payload :=
            slice heap.behind packBag.pointed (c.headLen + c.dataHeadLen) c.dataLen.toNat
          let r := analyseLoginPack R a payload
          if !r.1 then some ⟨false, r.2, { bev with input := input }⟩
          else some ⟨true, r.2, drained⟩
      | 12 => some ⟨true, a, drained⟩
      | _ => some ⟨false, a, drained⟩

/-- `analyse_data` on a frame that is no heartbeat. -/
def analyseFrame (heap : HeapMemory) (a : AnalyseReq) (bev : Bufferevent) (bufferSize : ℤ) (h : ℕ) :
    Option BufferedResult :=
  match dataHead heap bufferSize h bev.input with
  | (none, input) => some ⟨false, a, { bev with input := input }⟩
  | (some c, input) =>
    if bufferSize ≥ c.packSize then analysePack R heap a { bev with input := input } c
    else some ⟨false, a, { bev with input := input }⟩

/-- `analyse_data`. -/
def analyseData (heap : HeapMemory) (a : AnalyseReq) (bev : Bufferevent) :
    Option BufferedResult :=
  let bufferSize := wrap32 bev.input.totalLen
  match bev.input.pullup (some (heap.malloc 0)) 2 with
  | (none, input) => some ⟨false, a, { bev with input := input }⟩
  | (some data, input) =>
    let h := (peek heap.behind data.pointed 0 &&& 0x0F).toNat * 4
    if peek heap.behind data.pointed 1 &&& 0x20 ≠ 0 then
      (input.removeBuffer (some (heap.malloc 1)) bev.output 4).map fun r =>
        ⟨true, { a with isHeart := true }, ⟨r.1, r.2⟩⟩
    else analyseFrame R heap a { bev with input := input } bufferSize h

end Analyse

/-- A byte of a region is the byte that the pointer leads to, and what the flat model takes for the
memory behind the region is what the pointer leads to there. -/
theorem peek_pointed {region pointed : Bytes} (h : region <+: pointed) (behind : ℕ → UInt8)
    (i : ℕ) : peek (peek behind pointed) region i = peek behind pointed i := by
  obtain ⟨rest, rfl⟩ := h
  by_cases hi : i < region.length
  · simp [peek, hi, List.getElem?_append_left hi]
  · simp [peek, hi]

theorem slice_pointed {region pointed : Bytes} (h : region <+: pointed) (behind : ℕ → UInt8)
    (off len : ℕ) : slice (peek behind pointed) region off len = slice behind pointed off len := by
  simp only [slice, peek_pointed h]

/-- What the bytes of a region are, read through the pointer. -/
theorem peek_region {region pointed : Bytes} (h : region <+: pointed) (behind : ℕ → UInt8) {i : ℕ}
    (hi : i < region.length) : peek behind pointed i = byteAt region i := by
  rw [← peek_pointed h, peek_eq_byteAt hi]

theorem slice_region {region pointed : Bytes} (h : region <+: pointed) (behind : ℕ → UInt8)
    {off len : ℕ} (hlen : off + len ≤ region.length) :
    slice behind pointed off len = (region.drop off).take len := by
  rw [← slice_pointed h, slice_eq _ hlen]

/-- `evbuffer_pullup` on a buffer without vacant chains, with the flat call beside it. -/
theorem pullup_tight {b : Evbuffer} (h : b.Tight) (mem : ℕ → UInt8) (size : ℤ) :
    ∃ b', b'.Tight ∧ b'.contents = b.contents ∧
      (evbufferPullup b.contents size = none ∧ b.pullup (some mem) size = (none, b') ∨
        ∃ region c, evbufferPullup b.contents size = some region ∧
          b.pullup (some mem) size = (some c, b') ∧ region <+: c.pointed) := by
  obtain ⟨hc, hkeep, hres⟩ := h.filled.pullup mem size
  refine ⟨_, h.of_keepsVacant hkeep, hc, ?_⟩
  rcases hres with ⟨hflat, hnone⟩ | ⟨region, c, hflat, hsome, hpre⟩
  · exact Or.inl ⟨hflat, Prod.ext hnone rfl⟩
  · exact Or.inr ⟨region, c, hflat, Prod.ext hsome rfl, hpre.trans (List.take_prefix _ _)⟩

/-- The bytes that a pulled-up region holds. -/
theorem region_eq {buf region : Bytes} {n : ℕ} (hr : evbufferPullup buf n = some region) :
    region = buf.take n ∧ region.length = n := by
  obtain ⟨-, hz, hle⟩ := evbufferPullup_some hr
  rw [evbufferPullup_of_le (by omega) hle, Int.toNat_natCast, Option.some.injEq] at hr
  refine ⟨hr.symm, ?_⟩
  rw [← hr, List.length_take]
  omega

theorem dataHead_refines {input : Evbuffer} (hin : input.Tight) (heap : HeapMemory)
    (bufferSize : ℤ) :
    ∃ input', input'.Tight ∧ input'.contents = input.contents ∧
      dataHead heap bufferSize (headLen input.contents) input =
        (EglComet.dataHead bufferSize input.contents, input') := by
  obtain ⟨h, hh⟩ : ∃ h, headLen input.contents = h := ⟨_, rfl⟩
  unfold dataHead EglComet.dataHead
  simp only [hh]
  by_cases h5 : bufferSize > h + 5
  · simp only [if_pos h5]
    obtain ⟨b₁, ht₁, hc₁, hp₁⟩ := pullup_tight hin (heap.malloc 1) (h + 5)
    rcases hp₁ with ⟨hflat, heq⟩ | ⟨region, c, hflat, heq, hpre⟩
    · exact ⟨b₁, ht₁, hc₁, by simp only [heq, hflat]⟩
    · obtain ⟨-, hlen⟩ := region_eq (n := h + 5) (by exact_mod_cast hflat)
      simp only [heq, hflat, peek_region hpre heap.behind (show h + 3 < region.length by omega),
        peek_region hpre heap.behind (show h + 4 < region.length by omega),
        slice_region hpre heap.behind (show h + 3 + 2 ≤ region.length by omega)]
      by_cases hmark : byteAt region (h + 3) = 0xFF ∧ byteAt region (h + 4) = 0x0
      · simp only [if_pos hmark]
        by_cases h9 : bufferSize > h + 9
        · simp only [if_pos h9]
          obtain ⟨b₂, ht₂, hc₂, hp₂⟩ := pullup_tight ht₁ (heap.malloc 2) (h + 9)
          rw [hc₁] at hc₂ hp₂
          rcases hp₂ with ⟨hflat, heq⟩ | ⟨region, c, hflat, heq, hpre⟩
          · exact ⟨b₂, ht₂, hc₂, by simp only [heq, hflat]⟩
          · obtain ⟨-, hlen⟩ := region_eq (n := h + 9) (by exact_mod_cast hflat)
            refine ⟨b₂, ht₂, hc₂, ?_⟩
            simp only [heq, hflat,
              slice_region hpre heap.behind (show h + 5 + 4 ≤ region.length by omega)]
        · exact ⟨b₁, ht₁, hc₁, by simp only [if_neg h9]⟩
      · exact ⟨b₁, ht₁, hc₁, by simp only [if_neg hmark]⟩
  · exact ⟨input, hin, rfl, by simp only [if_neg h5]⟩

section Refines

variable {σ : Type} (R : Runtime σ)

/-- The result on chains is the flat result, and the buffers stay without vacant chains. -/
def Refines (out : Option BufferedResult) (flat : Option Analysed) : Prop :=
  out.map BufferedResult.flat = flat ∧ ∀ r ∈ out, r.bev.Tight

theorem Refines.intro {r : BufferedResult} {flat : Analysed} (h : r.flat = flat)
    (ht : r.bev.Tight) : Refines (some r) (some flat) :=
  ⟨congrArg some h, fun _ hr => Option.some.inj hr ▸ ht⟩

theorem analysePack_refines {bev : Bufferevent} (h : bev.Tight) (heap : HeapMemory)
    (a : AnalyseReq) (c : PackCall) :
    ∃ mem, Refines (analysePack R heap a bev c)
      (EglComet.analysePack R mem a bev.input.contents bev.output.contents c) := by
  obtain ⟨hin, hout⟩ := h
  obtain ⟨input, ht, hc, hp⟩ := pullup_tight hin (heap.malloc 3) c.packSize
  unfold analysePack EglComet.analysePack
  rcases hp with ⟨hflat, heq⟩ | ⟨region, chain, hflat, heq, hpre⟩
  · refine ⟨heap.behind, ?_⟩
    simp only [heq, hflat]
    exact .intro (by simp only [BufferedResult.flat, hc]) ⟨ht, hout⟩
  · refine ⟨peek heap.behind chain.pointed, ?_⟩
    obtain ⟨hrem, hleft, hkeep⟩ := ht.filled.remove (sizeT c.packSize)
    have hdrain := ht.filled.contents_drain (sizeT c.packSize)
    have htd := ht.of_keepsVacant (Evbuffer.drain_keepsVacant input (sizeT c.packSize))
    rw [hc] at hrem hleft hdrain
    have hpeek := peek_pointed hpre heap.behind
    have hslice := slice_pointed hpre heap.behind
    have hdrained (ret : Bool) (a : AnalyseReq) :
        Refines (some ⟨ret, a, { bev with input := input.drain (sizeT c.packSize) }⟩)
          (some ⟨ret, a, bev.input.contents.drop (sizeT c.packSize), bev.output.contents⟩) :=
      .intro (by simp only [BufferedResult.flat, hdrain]) ⟨htd, hout⟩
    simp only [heq, hflat, hpeek, propertyId, transOf, hslice, evbufferRemove, evbufferDrain, hrem,
      analyseLoginPack, Bool.not_true, Bool.false_eq_true, ↓reduceIte]
    by_cases hrelay : peek heap.behind chain.pointed 1 &&& 0x40 ≠ 0
    · simp only [if_pos hrelay]
      split_ifs with hneg
      · exact ⟨rfl, by simp⟩
      · exact .intro (by simp only [BufferedResult.flat, hleft]) ⟨ht.of_keepsVacant hkeep, hout⟩
    · simp only [if_neg hrelay]
      generalize (peek heap.behind chain.pointed c.headLen).toNat * 256 +
        (peek heap.behind chain.pointed (c.headLen + 1)).toNat = property
      by_cases h1 : property = 1
      · subst h1
        exact hdrained true a
      by_cases h12 : property = 12
      · subst h12
        exact hdrained true a
      by_cases h10 : property = 10
      · subst h10
        simp only
        split_ifs with hneg
        · exact ⟨rfl, by simp⟩
        · exact hdrained true _
      · simp only
        exact hdrained false a

theorem analyseFrame_refines {bev : Bufferevent} (h : bev.Tight) (heap : HeapMemory)
    (a : AnalyseReq) (bufferSize : ℤ) {call : Option PackCall}
    (hcall : call = (EglComet.dataHead bufferSize bev.input.contents).filter
      fun c => bufferSize ≥ c.packSize) :
    ∃ mem, Refines (analyseFrame R heap a bev bufferSize (headLen bev.input.contents))
      (call.elim (some ⟨false, a, bev.input.contents, bev.output.contents⟩)
        (EglComet.analysePack R mem a bev.input.contents bev.output.contents)) := by
  obtain ⟨input, ht, hc, hdata⟩ := dataHead_refines h.1 heap bufferSize
  have hstop : Refines (some ⟨false, a, { bev with input := input }⟩)
      (some ⟨false, a, bev.input.contents, bev.output.contents⟩) :=
    .intro (by simp only [BufferedResult.flat, hc]) ⟨ht, h.2⟩
  subst hcall
  unfold analyseFrame
  rw [hdata]
  cases EglComet.dataHead bufferSize bev.input.contents with
  | none => exact ⟨heap.behind, hstop⟩
  | some c =>
    simp only [Option.filter_some, decide_eq_true_eq]
    split_ifs with hsize
    · obtain ⟨mem, hr⟩ :=
        analysePack_refines R (show Tight { bev with input := input } from ⟨ht, h.2⟩) heap a c
      simp only [hc] at hr
      exact ⟨mem, hr⟩
    · exact ⟨heap.behind, hstop⟩

/-- `analyse_data` on chains does what it does on the flat contents, for some memory behind the
region it looks at. It fails no assertion that the flat model does not have. -/
theorem analyseData_refines {bev : Bufferevent} (h : bev.Tight) (heap : HeapMemory)
    (a : AnalyseReq) :
    ∃ mem, Refines (analyseData R heap a bev)
      (EglComet.analyseData R mem a bev.input.contents bev.output.contents) := by
  obtain ⟨hin, hout⟩ := h
  obtain ⟨input, ht, hc, hp⟩ := pullup_tight hin (heap.malloc 0) 2
  unfold analyseData EglComet.analyseData
  rcases hp with ⟨hflat, heq⟩ | ⟨region, chain, hflat, heq, hpre⟩
  · refine ⟨heap.behind, ?_⟩
    simp only [heq, hflat]
    exact .intro (by simp only [BufferedResult.flat, hc]) ⟨ht, hout⟩
  · obtain ⟨hregion, hlen⟩ := region_eq (n := 2) hflat
    have hhead : (peek heap.behind chain.pointed 0 &&& 0x0F).toNat * 4 =
        headLen input.contents := by
      rw [peek_region hpre heap.behind (by omega), hregion, byteAt_take (by decide), hc]
      rfl
    simp only [heq, hflat, peek_region hpre heap.behind (show 1 < region.length by omega), hhead]
    split_ifs with hheart
    · obtain ⟨src, dst, hmove, hs, hd, hsc, hdc⟩ := ht.removeBuffer hout (heap.malloc 1) 4
      refine ⟨heap.behind, ?_⟩
      rw [hmove, Option.map_some]
      refine .intro ?_ ⟨hs, hd⟩
      simp only [BufferedResult.flat, hsc, hdc, hc, evbufferRemoveBuffer]
    · have hcall : packCall bev.input.contents = (EglComet.dataHead (wrap32 bev.input.totalLen)
          bev.input.contents).filter fun c => wrap32 bev.input.totalLen ≥ c.packSize := by
        rw [← hin.filled.length_contents]
        rfl
      rw [← hc] at hcall ⊢
      obtain ⟨mem, hr⟩ := analyseFrame_refines R
        (show Tight { bev with input := input } from ⟨ht, hout⟩) heap a _ hcall
      refine ⟨mem, ?_⟩
      cases hpc : packCall input.contents with
      | none =>
        rw [hpc] at hr
        exact hr
      | some c =>
        rw [hpc] at hr
        exact hr

end Refines

end Bufferevent

end EglComet
