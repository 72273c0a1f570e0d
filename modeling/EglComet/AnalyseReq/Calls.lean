import EglComet.AnalyseReq.FrameStream

/-!
What one call of `analyse_data` takes from the parser and what it leaves there.
The message objects do not matter to it; the flag and the two pointers it hands
to its caller are those of the frame it consumed, or were there before.
-/
namespace EglComet

open Protobuf MachineInt

section Calls

variable {σ : Type} (R : Runtime σ)

/-- What a successful call of `analyse_data` found at the start of its input. -/
inductive Found (mem : ℕ → UInt8) (a : AnalyseReq) (input : Bytes) (r : Analysed) : Prop where
  | heartbeat (hb : byteAt input 1 &&& 0x20 ≠ 0) (hin : r.input = input.drop 4)
      (hp : r.req.pending = (true, a.loginData, a.transData))
  | relay {packBag : Bytes} {c : PackCall} (hb : evbufferPullup input c.packSize = some packBag)
      (hsize : 0 ≤ c.packSize) (hin : r.input = input.drop (sizeT c.packSize))
      (hp : r.req.pending = (a.isHeart, a.loginData,
        some (transOf mem packBag c.packSize (input.take (sizeT c.packSize)))))
  | login (payload : Bytes)
      (hp : r.req.pending = (a.isHeart, some (loginOf R payload), a.transData))
  | other (hp : r.req.pending = a.pending)

/-- The ways a call of `analyse_pack` can end: it fails and leaves the parser alone, or it finds a
frame; either way it leaves an end of its input. -/
theorem analysePack_cases {mem : ℕ → UInt8} {a : AnalyseReq} {input output : Bytes} {c : PackCall}
    {r : Analysed} (h : analysePack R mem a input output c = some r) :
    r.input <:+ input ∧
      (r.ret = false ∧ r.req.pending = a.pending ∨ r.ret = true ∧ Found R mem a input r) := by
  cases analysePack_end R h with
  | unread => exact ⟨List.suffix_rfl, Or.inl ⟨rfl, rfl⟩⟩
  | relay hp hsize => exact ⟨List.drop_suffix _ _, Or.inr ⟨rfl, .relay hp hsize rfl rfl⟩⟩
  | login _ payload => exact ⟨List.drop_suffix _ _, Or.inr ⟨rfl, .login payload rfl⟩⟩
  | property _ ret =>
    refine ⟨List.drop_suffix _ _, ?_⟩
    cases ret with
    | false => exact Or.inl ⟨rfl, rfl⟩
    | true => exact Or.inr ⟨rfl, .other rfl⟩

theorem byteAt_pullup {input data : Bytes} (h : evbufferPullup input 2 = some data) :
    byteAt data 1 = byteAt input 1 := by
  obtain ⟨hne, -, hle⟩ := evbufferPullup_some h
  rw [evbufferPullup_of_le (by decide) hle] at h
  obtain rfl := Option.some.inj h
  simp [byteAt]

theorem analyseData_cases {mem : ℕ → UInt8} {a : AnalyseReq} {input output : Bytes} {r : Analysed}
    (h : analyseData R mem a input output = some r) :
    r.input <:+ input ∧
      (r.ret = false ∧ r.req.pending = a.pending ∨ r.ret = true ∧ Found R mem a input r) := by
  unfold analyseData at h
  cases hp : evbufferPullup input 2 with
  | none =>
    obtain rfl : ⟨false, a, input, output⟩ = r := by simpa [hp] using h
    exact ⟨List.suffix_rfl, Or.inl ⟨rfl, rfl⟩⟩
  | some data =>
    simp only [hp] at h
    split_ifs at h with hb
    · obtain rfl := Option.some.inj h
      rw [byteAt_pullup hp] at hb
      exact ⟨List.drop_suffix _ _, Or.inr ⟨rfl, .heartbeat hb rfl rfl⟩⟩
    · cases hc : packCall input with
      | none =>
        obtain rfl : ⟨false, a, input, output⟩ = r := by simpa [hc] using h
        exact ⟨List.suffix_rfl, Or.inl ⟨rfl, rfl⟩⟩
      | some c =>
        rw [hc] at h
        exact analysePack_cases R h

/-- `analyse_pack` leaves the flag and the output alone. -/
theorem analysePack_echo {mem : ℕ → UInt8} {a : AnalyseReq} {input output : Bytes} {c : PackCall}
    {r : Analysed} (h : analysePack R mem a input output c = some r) :
    r.req.isHeart = a.isHeart ∧ r.output = output := by
  cases analysePack_end R h <;> exact ⟨rfl, rfl⟩

/-- A call that sets the flag moves the four bytes of a heartbeat to the output; any other call
leaves the flag and the output alone. -/
theorem analyseData_echo {mem : ℕ → UInt8} {a : AnalyseReq} {input output : Bytes} {r : Analysed}
    (h : analyseData R mem a input output = some r) :
    r.ret = true ∧ r.req.isHeart = true ∧ r.output = output ++ input.take 4 ∨
      r.req.isHeart = a.isHeart ∧ r.output = output := by
  unfold analyseData at h
  cases hp : evbufferPullup input 2 with
  | none =>
    obtain rfl : ⟨false, a, input, output⟩ = r := by simpa [hp] using h
    exact Or.inr ⟨rfl, rfl⟩
  | some data =>
    simp only [hp] at h
    split_ifs at h
    · obtain rfl := Option.some.inj h
      exact Or.inl ⟨rfl, rfl, rfl⟩
    · right
      cases hc : packCall input with
      | none =>
        obtain rfl : ⟨false, a, input, output⟩ = r := by simpa [hc] using h
        exact ⟨rfl, rfl⟩
      | some c =>
        rw [hc] at h
        exact analysePack_echo R h

/-- Two calls agree in everything their callers look at, apart from a stale flag. -/
structure Agree (r r' : Analysed) : Prop where
  ret : r'.ret = r.ret
  input : r'.input = r.input
  loginData : r'.req.loginData = r.req.loginData
  transData : r'.req.transData = r.req.transData

theorem analysePack_agree {mem : ℕ → UInt8} {a a' : AnalyseReq} {input output : Bytes}
    {c : PackCall} {r : Analysed} (hl : a'.loginData = a.loginData)
    (ht : a'.transData = a.transData) (output' : Bytes)
    (h : analysePack R mem a input output c = some r) :
    ∃ r', analysePack R mem a' input output' c = some r' ∧ Agree r r' := by
  unfold analysePack at h ⊢
  cases hp : evbufferPullup input c.packSize with
  | none =>
    obtain rfl : ⟨false, a, input, output⟩ = r := by simpa [hp] using h
    exact ⟨_, rfl, rfl, rfl, hl, ht⟩
  | some packBag =>
    simp only [hp, analyseLoginPack, evbufferRemove, evbufferDrain, Bool.not_true,
      Bool.false_eq_true, ↓reduceIte] at h ⊢
    by_cases h40 : peek mem packBag 1 &&& 0x40 ≠ 0
    · rw [if_pos h40] at h ⊢
      split_ifs at h ⊢
      obtain rfl := Option.some.inj h
      exact ⟨_, rfl, rfl, rfl, hl, rfl⟩
    · rw [if_neg h40] at h ⊢
      split at h
      case h_2 =>
        split_ifs at h ⊢
        obtain rfl := Option.some.inj h
        exact ⟨_, rfl, rfl, rfl, rfl, ht⟩
      all_goals
        obtain rfl := Option.some.inj h
        exact ⟨_, rfl, rfl, rfl, hl, ht⟩

/-- A call depends on its input and on the two pointers, on nothing else in the parser. -/
theorem analyseData_agree {mem : ℕ → UInt8} {a a' : AnalyseReq} {input output : Bytes}
    {r : Analysed} (hl : a'.loginData = a.loginData) (ht : a'.transData = a.transData)
    (output' : Bytes) (h : analyseData R mem a input output = some r) :
    ∃ r', analyseData R mem a' input output' = some r' ∧ Agree r r' := by
  unfold analyseData at h ⊢
  cases hp : evbufferPullup input 2 with
  | none =>
    obtain rfl : ⟨false, a, input, output⟩ = r := by simpa [hp] using h
    exact ⟨_, rfl, rfl, rfl, hl, ht⟩
  | some data =>
    simp only [hp] at h ⊢
    split_ifs at h ⊢
    · obtain rfl := Option.some.inj h
      exact ⟨_, rfl, rfl, rfl, hl, ht⟩
    · cases hc : packCall input with
      | none =>
        obtain rfl : ⟨false, a, input, output⟩ = r := by simpa [hc] using h
        exact ⟨_, rfl, rfl, rfl, hl, ht⟩
      | some c =>
        rw [hc] at h
        exact analysePack_agree R hl ht output' h

/-- The bytes `frame`, with `rest` behind them, make every parser that has nothing pending hand out
this login and this relay record and go on with `rest`. -/
def Yields (mem : ℕ → UInt8) (frame rest : Bytes) (login : Option LoginData)
    (trans : Option TransData) : Prop :=
  ∀ a output, Idle a → ∃ r, analyseData R mem a (frame ++ rest) output = some r ∧ r.ret = true ∧
    r.input = rest ∧ r.req.loginData = login ∧ r.req.transData = trans

/-- A successful call on an end of a buffer, by a parser that has pending what it had when the
buffer was begun, or nothing. -/
structure Call (mem : ℕ → UInt8) (begun : AnalyseReq) (buffer : Bytes) (a : AnalyseReq)
    (input output : Bytes) (r : Analysed) : Prop where
  parser : a.pending = begun.pending ∨ a.pending = (false, none, none)
  isEnd : input <:+ buffer
  size : 3 < input.length
  call : analyseData R mem a input output = some r
  ret : r.ret = true

variable {R}

theorem Call.idle {mem : ℕ → UInt8} {begun a : AnalyseReq} {buffer input output : Bytes}
    {r : Analysed} (h : Call R mem begun buffer a input output r) (hb : Idle begun) : Idle a := by
  rcases h.parser with hp | hp
  · exact ⟨(congrArg (fun p => p.2.1) hp).trans hb.1, (congrArg (fun p => p.2.2) hp).trans hb.2⟩
  · exact ⟨congrArg (fun p => p.2.1) hp, congrArg (fun p => p.2.2) hp⟩

section Handed

variable {mem : ℕ → UInt8} {begun a : AnalyseReq} {buffer input output : Bytes} {r : Analysed}

/-- What an idle parser hands out on some bytes every idle parser does. -/
theorem yields_of_analyseData (ha : Idle a) (h : analyseData R mem a input output = some r)
    (hr : r.ret = true) {frame rest : Bytes} (hin : input = frame ++ rest)
    (hrest : r.input = rest) :
    Yields R mem frame rest r.req.loginData r.req.transData := by
  subst hin
  intro a' output' ha'
  obtain ⟨r', hr', hag⟩ :=
    analyseData_agree R (ha'.1.trans ha.1.symm) (ha'.2.trans ha.2.symm) output' h
  exact ⟨r', hr', hag.ret.trans hr, hag.input.trans hrest, hag.loginData, hag.transData⟩

theorem Call.found (h : Call R mem begun buffer a input output r) : Found R mem a input r := by
  rcases (analyseData_cases R h.call).2 with ⟨hf, -⟩ | ⟨-, hfound⟩
  · simp [h.ret] at hf
  · exact hfound

/-- Bytes that a call consumes stand in the buffer between what was consumed before and the rest. -/
theorem Call.yields (h : Call R mem begun buffer a input output r) (hb : Idle begun)
    {frame rest : Bytes} (hin : input = frame ++ rest) (hrest : r.input = rest) :
    ∃ before, buffer = before ++ (frame ++ rest) ∧
      Yields R mem frame rest r.req.loginData r.req.transData := by
  obtain ⟨before, hbuf⟩ := h.isEnd
  exact ⟨before, by rw [← hin, hbuf], yields_of_analyseData (h.idle hb) h.call h.ret hin hrest⟩

/-- A login request that is handed out comes from the bytes just consumed. -/
theorem Call.login (h : Call R mem begun buffer a input output r) (hb : Idle begun) {l : LoginData}
    (hl : l ∈ r.req.loginData) : ∃ before frame rest, buffer = before ++ (frame ++ rest) ∧
      Yields R mem frame rest (some l) none := by
  obtain ⟨frame, hf⟩ := (analyseData_cases R h.call).1
  obtain ⟨before, hbuf, hy⟩ := h.yields hb hf.symm rfl
  have hnone : r.req.transData = none := by
    have ha := h.idle hb
    cases h.found with
    | heartbeat _ _ hp | relay _ _ _ hp | other hp =>
      have hl' : r.req.loginData = a.loginData := congrArg (fun p => p.2.1) hp
      simp [hl', ha.1] at hl
    | login payload hp => exact (congrArg (fun p => p.2.2) hp).trans ha.2
  rw [hl, hnone] at hy
  exact ⟨before, frame, r.input, hbuf, hy⟩

/-- The relay record that a call found is the beginning of its input, byte for byte. -/
theorem Found.relayed (h : Found R mem a input r) (ha : Idle a) {d : TransData}
    (hd : d ∈ r.req.transData) : r.req.loginData = none ∧ input = d.data ++ r.input ∧
      (d.data.length : ℤ) = d.dataSize := by
  cases h with
  | heartbeat _ _ hp | login _ hp | other hp =>
    have hd' : r.req.transData = a.transData := congrArg (fun p => p.2.2) hp
    simp [hd', ha.2] at hd
  | @relay packBag c hpull hsize hin hp =>
    have ht : r.req.transData =
        some (transOf mem packBag c.packSize (input.take (sizeT c.packSize))) :=
      congrArg (fun p => p.2.2) hp
    obtain rfl : transOf mem packBag c.packSize (input.take (sizeT c.packSize)) = d := by
      simpa [ht] using hd
    refine ⟨(congrArg (fun p => p.2.1) hp).trans ha.1, ?_, ?_⟩
    · rw [hin]
      exact (List.take_append_drop (sizeT c.packSize) input).symm
    · obtain ⟨-, -, hle⟩ := evbufferPullup_some hpull
      have hrange : -2 ^ 31 ≤ c.packSize ∧ c.packSize < 2 ^ 31 := wrap32_range _
      simp only [transOf]
      rw [List.length_take, sizeT_of_nonneg hsize (by omega)]
      omega

/-- A relay record that is handed out is the frame just consumed, byte for byte. -/
theorem Call.relay (h : Call R mem begun buffer a input output r) (hb : Idle begun) {d : TransData}
    (hd : d ∈ r.req.transData) : ∃ before rest, buffer = before ++ (d.data ++ rest) ∧
      Yields R mem d.data rest none (some d) := by
  obtain ⟨hl, hin, -⟩ := h.found.relayed (h.idle hb) hd
  obtain ⟨before, hbuf, hy⟩ := h.yields hb hin rfl
  rw [hl, hd] at hy
  exact ⟨before, r.input, hbuf, hy⟩

/-- The size of a relay record is the number of its bytes. -/
theorem Yields.relay_size {frame rest : Bytes} {d : TransData}
    (h : Yields R mem frame rest none (some d)) : (d.data.length : ℤ) = d.dataSize := by
  obtain ⟨r, hcall, hret, -, -, hd⟩ := h (AnalyseReq.new false) [] ⟨rfl, rfl⟩
  rcases (analyseData_cases R hcall).2 with ⟨hf, -⟩ | ⟨-, hfound⟩
  · simp [hret] at hf
  · exact (hfound.relayed ⟨rfl, rfl⟩ hd).2.2

/-- The flag is set by a heartbeat frame just consumed, or was set when the buffer was begun. -/
theorem Call.heartbeat (h : Call R mem begun buffer a input output r) (hb : Idle begun)
    (hh : r.req.isHeart = true) : begun.isHeart = true ∨
      ∃ before frame rest, buffer = before ++ (frame ++ rest) ∧ HeartbeatFrame frame ∧
        Yields R mem frame rest none none := by
  have ha := h.idle hb
  have hflag : a.isHeart = true → begun.isHeart = true := by
    intro hset
    rcases h.parser with hp | hp
    · exact (congrArg Prod.fst hp).symm.trans hset
    · have hf : a.isHeart = false := congrArg Prod.fst hp
      simp [hf] at hset
  cases h.found with
  | relay _ _ _ hp | login _ hp | other hp =>
    exact Or.inl (hflag ((congrArg Prod.fst hp).symm.trans hh))
  | heartbeat hbit hin hp =>
    right
    have hl : r.req.loginData = none := (congrArg (fun p => p.2.1) hp).trans ha.1
    have ht : r.req.transData = none := (congrArg (fun p => p.2.2) hp).trans ha.2
    obtain ⟨before, hbuf, hy⟩ := h.yields hb (List.take_append_drop 4 input).symm hin
    rw [hl, ht] at hy
    have hsize := h.size
    refine ⟨before, _, _, hbuf, ⟨by simp; omega, ?_⟩, hy⟩
    have h1 : byteAt (input.take 4) 1 = byteAt input 1 := by simp [byteAt]
    rwa [h1]

end Handed

end Calls

end EglComet
