import EglComet.AnalyseReq.FrameStream
import EglComet.WorkThread.Ledger

/-!
What one run of `bufferevent_read_callback` leaves in the input buffer. The loop
ends when `analyse_data` returns false, which it does for a frame that has not
arrived, for a frame that it has dropped, and for an empty payload with nothing
behind it.
-/
namespace EglComet

open Protobuf MachineInt

/-- The bytes of the first frame of a buffer: four for a heartbeat, and the two heads with the
declared payload for a data frame. -/
def frameSize (b : Bytes) : ℕ :=
  if byteAt b 1 &&& 0x20 ≠ 0 then 4 else headLen b + dataHeadLen b + declaredLen b

/-- The buffer begins with a complete frame. -/
def BeginsComplete (b : Bytes) : Prop := frameSize b ≤ b.length

instance (b : Bytes) : Decidable (BeginsComplete b) := by unfold BeginsComplete; infer_instance

/-- What follows the first frame. -/
def nextFrame (b : Bytes) : Bytes := b.drop (frameSize b)

/-- The ends of a buffer at which a frame begins. -/
inductive Boundary (input : Bytes) : Bytes → Prop where
  | start : Boundary input input
  | next {b : Bytes} (hb : Boundary input b) (hc : BeginsComplete b) : Boundary input (nextFrame b)

/-- Every data frame declares fewer than `2 ^ 31 - 70` bytes. -/
def DeclaredBelow (input : Bytes) : Prop :=
  ∀ b, Boundary input b → byteAt b 1 &&& 0x20 = 0 → declaredLen b < 2 ^ 31 - 70

/-- The first frame is a heartbeat, or the buffer, counted in an `int`, has the frame and more than
its two heads. -/
def Counted (b : Bytes) : Prop :=
  byteAt b 1 &&& 0x20 ≠ 0 ∨
    (headLen b : ℤ) + dataHeadLen b < wrap32 b.length ∧ (frameSize b : ℤ) ≤ wrap32 b.length

/-- The first frame is a heartbeat, a relay, or has one of the property ids 1, 10 and 12. -/
def Accepted (b : Bytes) : Prop :=
  byteAt b 1 &&& 0x20 ≠ 0 ∨ byteAt b 1 &&& 0x40 ≠ 0 ∨ propertyOf b ∈ [1, 10, 12]

/-- Every complete frame of the buffer is counted in full, and one that is not accepted is the last
complete frame. -/
def Clears (input : Bytes) : Prop :=
  ∀ b, Boundary input b → BeginsComplete b →
    Counted b ∧ (Accepted b ∨ ¬ BeginsComplete (nextFrame b))

section Boundaries

variable {input b : Bytes}

theorem boundary_cases (h : Boundary input b) :
    b = input ∨ BeginsComplete input ∧ Boundary (nextFrame input) b := by
  induction h with
  | start => exact Or.inl rfl
  | next hb hc ih =>
    rcases ih with rfl | ⟨hi, hn⟩
    · exact Or.inr ⟨hc, .start⟩
    · exact Or.inr ⟨hi, .next hn hc⟩

/-- The boundaries of a buffer of two frames. -/
theorem boundary_pair {f g : Bytes} (hf : nextFrame (f ++ g) = g) (hg : nextFrame g = [])
    (h : Boundary (f ++ g) b) : b = f ++ g ∨ b = g ∨ b = [] := by
  rcases boundary_cases h with rfl | ⟨-, h⟩
  · exact Or.inl rfl
  · rw [hf] at h
    rcases boundary_cases h with rfl | ⟨-, h⟩
    · exact Or.inr (Or.inl rfl)
    · rw [hg] at h
      rcases boundary_cases h with rfl | ⟨hc, -⟩
      · exact Or.inr (Or.inr rfl)
      · exact absurd hc (by decide)

theorem Boundary.later (hc : BeginsComplete input) (h : Boundary (nextFrame input) b) :
    Boundary input b := by
  induction h with
  | start => exact .next .start hc
  | next _ hcb ih => exact .next ih hcb

theorem clears_of_incomplete (h : ¬ BeginsComplete input) : Clears input := by
  intro b hb hc
  rcases boundary_cases hb with rfl | ⟨hi, -⟩
  · exact absurd hc h
  · exact absurd hi h

theorem clears_next (hc : BeginsComplete input) (hn : Counted input) (ha : Accepted input) :
    Clears (nextFrame input) ↔ Clears input := by
  constructor
  · intro h b hb hcb
    rcases boundary_cases hb with rfl | ⟨-, hb'⟩
    · exact ⟨hn, Or.inl ha⟩
    · exact h b hb' hcb
  · exact fun h b hb hcb => h b (hb.later hc) hcb

theorem clears_refused (hc : BeginsComplete input) (hn : Counted input) (ha : ¬ Accepted input) :
    Clears input ↔ ¬ BeginsComplete (nextFrame input) := by
  constructor
  · exact fun h => (h input .start hc).2.resolve_left ha
  · intro h b hb hcb
    rcases boundary_cases hb with rfl | ⟨-, hb'⟩
    · exact ⟨hn, Or.inr h⟩
    · exact clears_of_incomplete h b hb' hcb

theorem DeclaredBelow.next (h : DeclaredBelow input) (hc : BeginsComplete input) :
    DeclaredBelow (nextFrame input) :=
  fun b hb => h b (hb.later hc)

end Boundaries

theorem four_le_frameSize (b : Bytes) : 4 ≤ frameSize b := by
  have h5 := (dataHeadLen_le b).1
  unfold frameSize
  split_ifs <;> omega

section Call

variable {σ : Type} (R : Runtime σ) {b : Bytes}

/-- The call of `analyse_pack` on a data frame of a moderate length. -/
theorem packCall_declared (hd : byteAt b 1 &&& 0x20 = 0) (hn : declaredLen b < 2 ^ 31 - 70) :
    packCall b =
      if (headLen b : ℤ) + dataHeadLen b < wrap32 b.length ∧
          (frameSize b : ℤ) ≤ wrap32 b.length then
        some ⟨headLen b, dataHeadLen b, declaredLen b⟩
      else none := by
  have hh := headLen_le b
  have h9 := (dataHeadLen_le b).2
  have hsize : (frameSize b : ℤ) = headLen b + dataHeadLen b + declaredLen b := by
    rw [frameSize, if_neg (by simpa using hd)]
    push_cast
    rfl
  rw [packCall_eq_wrap, wrap32_of_range (x := (declaredLen b : ℤ)) (by omega) (by omega), ← hsize,
    wrap32_of_range (x := (frameSize b : ℤ)) (by omega) (by omega)]

theorem analyseData_data (mem : ℕ → UInt8) (a : AnalyseReq) (output : Bytes) (h3 : 3 < b.length)
    (hd : byteAt b 1 &&& 0x20 = 0) : analyseData R mem a b output =
      (packCall b).elim (some ⟨false, a, b, output⟩) (analysePack R mem a b output) := by
  unfold analyseData
  rw [evbufferPullup_of_le (by norm_num) (by omega)]
  have hb : byteAt (b.take (2 : ℤ).toNat) 1 = byteAt b 1 := byteAt_take (by decide)
  simp only [hb, hd, ne_eq, not_true_eq_false, ↓reduceIte]
  cases packCall b <;> rfl

/-- A buffer with no frame, or with a frame that its count does not cover, is left alone. -/
theorem analyseData_waits (mem : ℕ → UInt8) (a : AnalyseReq) (output : Bytes) (h3 : 3 < b.length)
    (hdecl : byteAt b 1 &&& 0x20 = 0 → declaredLen b < 2 ^ 31 - 70)
    (h : ¬ BeginsComplete b ∨ ¬ Counted b) :
    analyseData R mem a b output = some ⟨false, a, b, output⟩ := by
  have hd : byteAt b 1 &&& 0x20 = 0 := by
    by_contra hne
    rcases h with h | h
    · refine h ?_
      rw [BeginsComplete, frameSize, if_pos hne]
      omega
    · exact h (Or.inl hne)
  have hshort : ¬ ((headLen b : ℤ) + dataHeadLen b < wrap32 b.length ∧
      (frameSize b : ℤ) ≤ wrap32 b.length) := by
    intro hcount
    rcases h with h | h
    · have hle := wrap32_le (Int.natCast_nonneg b.length)
      exact h (by unfold BeginsComplete; omega)
    · exact h (Or.inr hcount)
  rw [analyseData_data R mem a output h3 hd, packCall_declared hd (hdecl hd), if_neg hshort]
  rfl

/-- A data frame in the buffer is removed; the call succeeds for a relay and for the three property
ids of the switch. -/
theorem analysePack_takes (mem : ℕ → UInt8) (a : AnalyseReq) (output : Bytes) {c : PackCall}
    (hd : byteAt b 1 &&& 0x20 = 0) (hhead : c.headLen = headLen b) (hdata : 0 ≤ c.dataLen)
    (hsize : c.packSize = frameSize b) (hc : BeginsComplete b) :
    ∃ r, analysePack R mem a b output c = some r ∧ r.input = nextFrame b ∧
      (r.ret = true ↔ Accepted b) := by
  have h4 := four_le_frameSize b
  have hheads : headLen b + 5 ≤ frameSize b := by
    have h5 := (dataHeadLen_le b).1
    rw [frameSize, if_neg (by simpa using hd)]
    omega
  have hlen : (b.take (frameSize b)).length = frameSize b := List.length_take_of_le hc
  have hpeek {i : ℕ} (hi : i < frameSize b) : peek mem (b.take (frameSize b)) i = byteAt b i := by
    rw [peek_eq_byteAt (by omega), byteAt_take hi]
  have hrange : c.packSize < 2 ^ 31 := (wrap32_range _).2
  have hs : sizeT (frameSize b : ℤ) = frameSize b := by
    rw [sizeT_of_nonneg (by omega) (by omega), Int.toNat_natCast]
  have hprop : propertyId mem (b.take (frameSize b)) (headLen b) = propertyOf b := by
    rw [propertyId, propertyOf, hpeek (by omega), hpeek (by omega)]
  unfold analysePack
  rw [hsize, evbufferPullup_of_le (by omega) (Int.ofNat_le.mpr hc)]
  simp only [hhead, Int.toNat_natCast, hs, hpeek (show 1 < frameSize b by omega), hprop,
    evbufferRemove, evbufferDrain, analyseLoginPack, Bool.not_true, Bool.false_eq_true, ↓reduceIte]
  by_cases h40 : byteAt b 1 &&& 0x40 = 0
  · rw [if_neg (by simpa using h40), if_neg (not_lt.mpr hdata)]
    have hacc : Accepted b ↔ propertyOf b ∈ [1, 10, 12] := by simp [Accepted, hd, h40]
    rw [hacc]
    split
    next h => exact ⟨_, rfl, rfl, by simp [h]⟩
    next h => exact ⟨_, rfl, rfl, by simp [h]⟩
    next h => exact ⟨_, rfl, rfl, by simp [h]⟩
    next h1 h10 h12 => exact ⟨_, rfl, rfl, by simpa using ⟨h1, h10, h12⟩⟩
  · rw [if_pos h40, if_neg (by omega)]
    exact ⟨_, rfl, rfl, iff_of_true rfl (Or.inr (Or.inl h40))⟩

/-- A complete frame that is counted is consumed, and the call succeeds if it is accepted. -/
theorem analyseData_takes (mem : ℕ → UInt8) (a : AnalyseReq) (output : Bytes) (h3 : 3 < b.length)
    (hdecl : byteAt b 1 &&& 0x20 = 0 → declaredLen b < 2 ^ 31 - 70) (hc : BeginsComplete b)
    (hn : Counted b) :
    ∃ r, analyseData R mem a b output = some r ∧ r.input = nextFrame b ∧
      (r.ret = true ↔ Accepted b) := by
  by_cases hd : byteAt b 1 &&& 0x20 = 0
  · have hcount := hn.resolve_left (by simpa using hd)
    rw [analyseData_data R mem a output h3 hd, packCall_declared hd (hdecl hd), if_pos hcount,
      Option.elim_some]
    refine analysePack_takes R mem a output hd rfl (Int.natCast_nonneg _) ?_ hc
    have hh := headLen_le b
    have h9 := (dataHeadLen_le b).2
    have hlow := hdecl hd
    rw [PackCall.packSize, frameSize, if_neg (by simpa using hd), wrap32_of_range] <;> push_cast <;>
      omega
  · have htake : HeartbeatFrame (b.take 4) :=
      ⟨by rw [List.length_take]; omega, by rw [byteAt_take (by decide)]; exact hd⟩
    have hcall := analyseData_heartbeat R htake (b.drop 4) output mem a
    rw [List.take_append_drop] at hcall
    refine ⟨_, hcall, ?_, iff_of_true rfl (Or.inl hd)⟩
    rw [nextFrame, frameSize, if_pos hd]

/-- One run of the loop ends, and leaves no complete frame at the front exactly when the buffer
clears. -/
theorem readLoop_leaves_iff {τ : Type} (mem : ℕ → UInt8) (body : τ → Bytes → Bytes → Analysed → τ)
    (t : τ) (a : AnalyseReq) (input output : Bytes) (hdecl : DeclaredBelow input) :
    ∃ x, readLoop R mem body t a input output = some x ∧
      (¬ BeginsComplete x.2.2.1 ↔ Clears input) := by
  fun_induction readLoop R mem body t a input output with
  | case1 t a input output h3 hnone =>
    have hlow := hdecl input .start
    by_cases hc : BeginsComplete input ∧ Counted input
    · obtain ⟨r, hr, -⟩ := analyseData_takes R mem a output h3 hlow hc.1 hc.2
      simp [hr] at hnone
    · simp [analyseData_waits R mem a output h3 hlow (not_and_or.mp hc)] at hnone
  | case2 t a input output h3 r hr hret ih =>
    have hlow := hdecl input .start
    by_cases hc : BeginsComplete input ∧ Counted input
    · obtain ⟨r', hr', hin, hacc⟩ := analyseData_takes R mem a output h3 hlow hc.1 hc.2
      obtain rfl : r = r' := Option.some.inj (hr.symm.trans hr')
      rw [hin] at ih ⊢
      obtain ⟨x, hx, hiff⟩ := ih (hdecl.next hc.1)
      exact ⟨x, hx, hiff.trans (clears_next hc.1 hc.2 (hacc.mp hret))⟩
    · rw [analyseData_waits R mem a output h3 hlow (not_and_or.mp hc)] at hr
      obtain rfl := Option.some.inj hr
      simp at hret
  | case3 t a input output h3 r hr hret =>
    have hlow := hdecl input .start
    refine ⟨_, rfl, ?_⟩
    by_cases hc : BeginsComplete input ∧ Counted input
    · obtain ⟨r', hr', hin, hacc⟩ := analyseData_takes R mem a output h3 hlow hc.1 hc.2
      obtain rfl : r = r' := Option.some.inj (hr.symm.trans hr')
      rw [hin]
      exact (clears_refused hc.1 hc.2 (mt hacc.mpr hret)).symm
    · rw [analyseData_waits R mem a output h3 hlow (not_and_or.mp hc)] at hr
      obtain rfl := Option.some.inj hr
      constructor
      · exact clears_of_incomplete
      · exact fun h hb => hc ⟨hb, (h input .start hb).1⟩
  | case4 t a input output h3 =>
    have hno : ¬ BeginsComplete input := by
      have h4 := four_le_frameSize input
      unfold BeginsComplete
      omega
    exact ⟨_, rfl, iff_of_true hno (clears_of_incomplete hno)⟩

end Call

namespace Server

/-- After one run of `bufferevent_read_callback` the input buffer begins with no complete frame
exactly when every complete frame that it held was counted in full, and none that is not accepted
had a complete frame behind it. -/
theorem read_leaves_no_frame_iff {σ : Type} (R : Runtime σ) (env : Env) (s : Server) (w conn : ℕ)
    (b : Addr) (be : BufferEvent) (hdecl : DeclaredBelow be.input) :
    ∃ t, s.bufferEventReadCallback R env w conn b be = some t ∧
      ((∀ be' ∈ t.heap.lookup b, ¬ BeginsComplete be'.input) ↔ Clears be.input) := by
  obtain ⟨x, hx, hiff⟩ := readLoop_leaves_iff R env.mem
    (fun u _ _ r => handleRequest env w b conn (((s.workThread w).bevId.lookup b).getD 0) u r) s
    (s.workThread w).analyseReq be.input be.output hdecl
  refine ⟨_, by rw [bufferEventReadCallback, hx]; rfl, ?_⟩
  rw [← hiff]
  simp only [heap_recordSent, setHeap, Finmap.lookup_insert, Option.mem_some_iff, forall_eq']

/-- A heartbeat and a frame with property id 12 are both consumed. -/
theorem served_frames_consumed :
    DeclaredBelow ([0x15, 0x20, 0, 0] ++ shortFrame) ∧
      ∃ t, (deployment 1).bufferEventReadCallback Wire.runtime (plainEnv 1) 0 0 1
        ⟨.client 0 0, [0x15, 0x20, 0, 0] ++ shortFrame, []⟩ = some t ∧
          ∀ be' ∈ t.heap.lookup 1, ¬ BeginsComplete be'.input := by
  have hdecl : DeclaredBelow ([0x15, 0x20, 0, 0] ++ shortFrame) := by
    intro b h
    rcases boundary_pair (by decide) (by decide) h with rfl | rfl | rfl <;> decide
  obtain ⟨t, ht, hiff⟩ := read_leaves_no_frame_iff Wire.runtime (plainEnv 1) (deployment 1) 0 0 1
    ⟨.client 0 0, [0x15, 0x20, 0, 0] ++ shortFrame, []⟩ hdecl
  refine ⟨hdecl, t, ht, hiff.mpr ?_⟩
  intro b h hc
  rcases boundary_pair (by decide) (by decide) h with rfl | rfl | rfl
  · exact ⟨Or.inl (by decide), Or.inl (Or.inl (by decide))⟩
  · exact ⟨Or.inr (by decide), Or.inl (Or.inr (Or.inr (by decide)))⟩
  · exact absurd hc (by decide)

/-- A frame with the unknown property id 99 and one payload byte. -/
def unknownFrame : Bytes := 0x15 :: List.replicate 19 0 ++ [0, 99, 1, 0, 1, 7]

/-- The heartbeat behind a frame with an unknown property id is left waiting. -/
theorem heartbeat_left_waiting :
    DeclaredBelow (unknownFrame ++ [0x15, 0x20, 0, 0]) ∧
      ∃ t, (deployment 1).bufferEventReadCallback Wire.runtime (plainEnv 1) 0 0 1
        ⟨.client 0 0, unknownFrame ++ [0x15, 0x20, 0, 0], []⟩ = some t ∧
          ¬ ∀ be' ∈ t.heap.lookup 1, ¬ BeginsComplete be'.input := by
  constructor
  · intro b h
    rcases boundary_pair (by decide) (by decide) h with rfl | rfl | rfl <;> decide
  · have hrun : ((deployment 1).bufferEventReadCallback Wire.runtime (plainEnv 1) 0 0 1
        ⟨.client 0 0, unknownFrame ++ [0x15, 0x20, 0, 0], []⟩).any (fun t =>
          (t.heap.lookup 1).any fun be => decide (BeginsComplete be.input)) = true := by
      decide +kernel
    obtain ⟨t, ht, hleft⟩ := (Option.any_eq_true _ _).mp hrun
    obtain ⟨be, hbe, hcomplete⟩ := (Option.any_eq_true _ _).mp hleft
    exact ⟨t, ht, fun hall => hall be hbe (of_decide_eq_true hcomplete)⟩

end Server

end EglComet
