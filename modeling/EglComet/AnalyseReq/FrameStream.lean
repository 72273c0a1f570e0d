import EglComet.AnalyseReq.PackSize
import EglComet.Protobuf.WireFormat

/-!
The wire format as a stream of frames, and the read loop as its incremental
reader. Cutting the stream anywhere changes neither the frames recognised nor
their order: a buffer that ends inside a frame is left untouched.
-/
namespace EglComet

open Protobuf MachineInt

/-- A heartbeat is four bytes with bit `0x20` of the second set. -/
def HeartbeatFrame (f : Bytes) : Prop := f.length = 4 ∧ byteAt f 1 &&& 0x20 ≠ 0

/-- The 16-bit number after the header. -/
def propertyOf (f : Bytes) : ℕ :=
  (byteAt f (headLen f)).toNat * 256 + (byteAt f (headLen f + 1)).toNat

/-- A data frame with a data head of `dh` bytes and a payload of `n` bytes. -/
structure DataFrame (f : Bytes) (dh n : ℕ) : Prop where
  notHeart : byteAt f 1 &&& 0x20 = 0
  length : (dh = 5 ∧ n = bigEndian ((f.drop (headLen f + 3)).take 2) ∧ n ≠ 0xFF00) ∨
    (dh = 9 ∧ (f.drop (headLen f + 3)).take 2 = [0xFF, 0x00] ∧
      n = bigEndian ((f.drop (headLen f + 5)).take 4))
  payload : 1 ≤ n
  size : f.length = headLen f + dh + n
  bound : f.length < 2 ^ 31
  relay : byteAt f 1 &&& 0x40 ≠ 0 → 20 ≤ f.length
  property : byteAt f 1 &&& 0x40 = 0 → propertyOf f ∈ [1, 10, 12]

def WellFormed (f : Bytes) : Prop := HeartbeatFrame f ∨ ∃ dh n, DataFrame f dh n

/-- What one successful call of `analyse_data` amounts to. -/
structure Recognised where
  consumed : Bytes
  echo : Bytes
  loginData : Option LoginData
  transData : Option TransData
  deriving DecidableEq, Repr

/-- The meaning of a frame: a heartbeat is echoed, a relay is handed out byte for byte with its
big-endian ids, a login yields what its payload parses to, and the rest is dropped. -/
def recognition {σ : Type} (R : Runtime σ) (f : Bytes) : Recognised :=
  if byteAt f 1 &&& 0x20 ≠ 0 then ⟨f, f, none, none⟩
  else if byteAt f 1 &&& 0x40 ≠ 0 then
    ⟨f, [], none, some {
      fromId := UInt64.ofNat (bigEndian ((f.drop 4).take 8))
      toId := UInt64.ofNat (bigEndian ((f.drop 12).take 8))
      dataSize := f.length
      data := f }⟩
  else if propertyOf f = 10 then
    ⟨f, [], some (loginOf R (f.drop (headLen f + dataHeadLen f))), none⟩
  else ⟨f, [], none, none⟩

/-- The loop body that only records what was recognised. -/
def record (t : List Recognised) (input output : Bytes) (r : Analysed) : List Recognised :=
  t ++ [⟨input.take (input.length - r.input.length), r.output.drop output.length,
    r.req.loginData, r.req.transData⟩]

/-- Bytes arriving on a connection before one run of the read callback, and the memory behind
its buffer during that run. -/
structure Arrival where
  chunk : Bytes
  mem : ℕ → UInt8

/-- The parser and the buffers of one connection, with the frames recognised so far. -/
structure Reader where
  req : AnalyseReq
  input : Bytes := []
  output : Bytes := []
  trace : List Recognised := []

section Feed

variable {σ : Type} (R : Runtime σ)

def Reader.feed (s : Reader) (x : Arrival) : Option Reader :=
  (readLoop R x.mem record s.trace s.req (s.input ++ x.chunk) s.output).map
    fun r => ⟨r.2.1, r.2.2.1, r.2.2.2, r.1⟩

def Reader.feedAll : Reader → List Arrival → Option Reader
  | s, [] => some s
  | s, x :: xs => (s.feed R x).bind (feedAll · xs)

/-- The input buffer stays below `2 ^ 31` bytes throughout. -/
def Reader.Kept : Reader → List Arrival → Prop
  | _, [] => True
  | s, x :: xs => (s.input ++ x.chunk).length < 2 ^ 31 ∧ ∀ t ∈ s.feed R x, Kept t xs

theorem byteAt_append {p : Bytes} (q : Bytes) {i : ℕ} (h : i < p.length) :
    byteAt (p ++ q) i = byteAt p i := by
  simp [byteAt, List.getElem?_append_left h]

theorem peek_eq_byteAt {mem : ℕ → UInt8} {region : Bytes} {i : ℕ} (h : i < region.length) :
    peek mem region i = byteAt region i := by
  simp [peek, byteAt, h]

theorem drop_take_append {p : Bytes} (q : Bytes) {i k : ℕ} (h : i + k ≤ p.length) :
    ((p ++ q).drop i).take k = (p.drop i).take k := by
  rw [List.drop_append_of_le_length (by omega), List.take_append_of_le_length (by simp; omega)]

theorem headLen_append {p : Bytes} (q : Bytes) (h : 0 < p.length) :
    headLen (p ++ q) = headLen p := by
  unfold headLen
  rw [byteAt_append q h]

theorem longForm_append {p : Bytes} (q : Bytes) (h : headLen p + 5 ≤ p.length) :
    LongForm (p ++ q) ↔ LongForm p := by
  unfold LongForm
  rw [headLen_append q (by omega), byteAt_append q (by omega), byteAt_append q (by omega)]

theorem dataHeadLen_append {p : Bytes} (q : Bytes) (h : headLen p + 5 ≤ p.length) :
    dataHeadLen (p ++ q) = dataHeadLen p := by
  simp only [dataHeadLen, longForm_append q h]

theorem declaredLen_append {p : Bytes} (q : Bytes) (h : headLen p + dataHeadLen p ≤ p.length) :
    declaredLen (p ++ q) = declaredLen p := by
  have h5 := (dataHeadLen_le p).1
  simp only [declaredLen, longForm_append q (by omega : headLen p + 5 ≤ p.length),
    headLen_append q (by omega : 0 < p.length)]
  split_ifs with hl
  · rw [drop_take_append q]
    simp only [dataHeadLen, if_pos hl] at h
    omega
  · rw [drop_take_append q (by omega)]

theorem slice_eq (mem : ℕ → UInt8) {region : Bytes} {off len : ℕ}
    (h : off + len ≤ region.length) : slice mem region off len = (region.drop off).take len := by
  apply List.ext_getElem
  · simp [slice]
    omega
  · intro i h1 h2
    have hi : off + i < region.length := by
      simp only [slice, List.length_map, List.length_range] at h1
      omega
    simp [slice, peek, hi]

theorem take_two {bs : Bytes} {i : ℕ} (h : i + 2 ≤ bs.length) :
    (bs.drop i).take 2 = [byteAt bs i, byteAt bs (i + 1)] := by
  rw [← slice_eq (fun _ => 0) h]
  rfl

/-- The two forms of the length field exclude each other, as the decoder's test of the marker. -/
theorem DataFrame.lengths {f : Bytes} {dh n : ℕ} (h : DataFrame f dh n) :
    dataHeadLen f = dh ∧ declaredLen f = n := by
  have hsize := h.size
  rcases h.length with ⟨rfl, hn, hne⟩ | ⟨rfl, hmark, hn⟩
  · have hl : ¬ LongForm f := by
      rintro ⟨h3, h4⟩
      apply hne
      rw [hn, take_two (by omega), h3, h4]
      rfl
    simp only [dataHeadLen, declaredLen, if_neg hl]
    exact ⟨trivial, hn.symm⟩
  · have hl : LongForm f := by
      rw [take_two (by omega)] at hmark
      simpa [LongForm] using hmark
    simp only [dataHeadLen, declaredLen, if_pos hl]
    exact ⟨trivial, hn.symm⟩

theorem WellFormed.length_gt {f : Bytes} (h : WellFormed f) : 3 < f.length := by
  rcases h with h | ⟨dh, n, h⟩
  · rw [h.1]
    decide
  · have hsize := h.size
    have hn := h.payload
    rcases h.length with ⟨rfl, -⟩ | ⟨rfl, -⟩ <;> omega

/-- A complete data frame at the front of the buffer reaches `analyse_pack` with its own size. -/
theorem DataFrame.callsPack {f : Bytes} {dh n : ℕ} (h : DataFrame f dh n) (rest : Bytes)
    (hlen : (f ++ rest).length < 2 ^ 31) :
    CallsPack (f ++ rest) ⟨headLen f, dh, n⟩ ∧
      (⟨headLen f, dh, n⟩ : PackCall).packSize = f.length := by
  obtain ⟨hd, hn⟩ := h.lengths
  have hsize := h.size
  have hpay := h.payload
  have hbound := h.bound
  have h5 := (dataHeadLen_le f).1
  have hpack : (⟨headLen f, dh, n⟩ : PackCall).packSize = f.length := by
    simp only [PackCall.packSize]
    rw [wrap32_of_range (by omega) (by omega)]
    omega
  have hwrap : wrap32 (n : ℤ) = n := wrap32_of_range (by omega) (by omega)
  refine ⟨⟨?_, ?_⟩, hpack⟩
  · rw [byteAt_append rest (by omega)]
    exact h.notHeart
  · rw [packCall_eq hlen, headLen_append rest (by omega), dataHeadLen_append rest (by omega),
      declaredLen_append rest (by omega), hd, hn, hwrap, if_pos]
    simp only [PackCall.packSize] at hpack
    rw [hpack, List.length_append]
    constructor <;> omega

/-- A buffer that ends inside a frame is not analysed. -/
theorem packCall_incomplete {f p q : Bytes} {dh n : ℕ} (h : DataFrame f dh n) (hf : f = p ++ q)
    (hp : 0 < p.length) (hq : q ≠ []) : packCall p = none := by
  have hlt : p.length < f.length := by
    rw [hf, List.length_append]
    have := List.length_pos_iff.mpr hq
    omega
  have hbound := h.bound
  rw [packCall_eq (by omega), if_neg]
  rintro ⟨harrived, hfit⟩
  obtain ⟨hd, hn⟩ := h.lengths
  have h5 := (dataHeadLen_le p).1
  rw [hf, dataHeadLen_append q (by omega)] at hd
  rw [hf, declaredLen_append q (by omega)] at hn
  have hh : headLen f = headLen p := by rw [hf, headLen_append q hp]
  have hsize := h.size
  rw [hd, hn, wrap32_of_range (x := (n : ℤ)) (by omega) (by omega),
    wrap32_of_range (by omega) (by omega)] at hfit
  omega

/-- The parser holds no record that was not handed over. -/
def Idle (a : AnalyseReq) : Prop := a.loginData = none ∧ a.transData = none

theorem idle_handOver (a : AnalyseReq) : Idle a.handOver := ⟨rfl, rfl⟩

theorem analyseData_heartbeat {f : Bytes} (h : HeartbeatFrame f) (rest output : Bytes)
    (mem : ℕ → UInt8) (a : AnalyseReq) :
    analyseData R mem a (f ++ rest) output =
      some ⟨true, { a with isHeart := true }, rest, output ++ f⟩ := by
  have hl := h.1
  unfold analyseData
  rw [evbufferPullup_of_le (by norm_num) (by rw [List.length_append]; omega)]
  have hb : byteAt ((f ++ rest).take (2 : ℤ).toNat) 1 = byteAt f 1 := by
    rw [byteAt_take (by decide), byteAt_append rest (by omega)]
  simp only [hb]
  rw [if_pos h.2, ← hl]
  simp [evbufferRemoveBuffer]

theorem analysePack_frame {f : Bytes} {dh n : ℕ} (h : DataFrame f dh n) (rest output : Bytes)
    (mem : ℕ → UInt8) {a : AnalyseReq} (ha : Idle a) {c : PackCall}
    (hhead : c.headLen = headLen f) (hdata : c.dataHeadLen = dh) (hn : c.dataLen = n)
    (hpack : c.packSize = f.length) :
    ∃ a', analysePack R mem a (f ++ rest) output c = some ⟨true, a', rest, output⟩ ∧
      a'.loginData = (recognition R f).loginData ∧ a'.transData = (recognition R f).transData := by
  obtain ⟨hd, -⟩ := h.lengths
  have hsize := h.size
  have hpay := h.payload
  have hbound := h.bound
  have h5 := (dataHeadLen_le f).1
  have hs : sizeT (f.length : ℤ) = f.length := by
    rw [sizeT_of_nonneg (by omega) (by omega), Int.toNat_natCast]
  have hpeek : peek mem f 1 = byteAt f 1 := peek_eq_byteAt (by omega)
  unfold analysePack
  rw [hpack, evbufferPullup_of_le (by omega) (by rw [List.length_append]; omega)]
  simp only [hhead, hdata, hn, Int.toNat_natCast, List.take_left', hs, evbufferRemove,
    evbufferDrain, List.drop_left', hpeek, analyseLoginPack, Bool.not_true, Bool.false_eq_true,
    ↓reduceIte]
  by_cases h40 : byteAt f 1 &&& 0x40 = 0
  · rw [if_neg (by simpa using h40)]
    have hprop : propertyId mem f (headLen f) = propertyOf f := by
      rw [propertyId, propertyOf, peek_eq_byteAt (by omega), peek_eq_byteAt (by omega)]
    have hp := h.property h40
    rw [hprop]
    simp only [List.mem_cons, List.not_mem_nil, or_false] at hp
    rcases hp with hp | hp | hp
    · refine ⟨a, by simp only [hp], ?_⟩
      simp [recognition, h.notHeart, h40, hp, ha.1, ha.2]
    · have hpayload : slice mem f (headLen f + dh) n = f.drop (headLen f + dh) := by
        rw [slice_eq mem (by omega), List.take_of_length_le (by simp; omega)]
      refine ⟨(analyseLoginPack R a (f.drop (headLen f + dh))).2, ?_, ?_⟩
      · simp only [hp, hpayload, analyseLoginPack]
        rw [if_neg (by omega)]
      · simp [recognition, h.notHeart, h40, hp, ha.2, hd, analyseLoginPack]
    · refine ⟨a, by simp only [hp], ?_⟩
      simp [recognition, h.notHeart, h40, hp, ha.1, ha.2]
  · rw [if_pos h40, if_neg (by omega)]
    have h20 := h.relay h40
    refine ⟨_, rfl, ?_⟩
    simp only [recognition, h.notHeart, h40, ne_eq, not_true_eq_false, not_false_eq_true,
      ↓reduceIte, transOf]
    rw [slice_eq mem (by omega), slice_eq mem (by omega)]
    exact ⟨ha.1, rfl⟩

/-- A well-formed frame at the front of the buffer is consumed exactly and recognised as what it
means. -/
theorem analyseData_frame {f : Bytes} (h : WellFormed f) (rest output : Bytes)
    (hlen : (f ++ rest).length < 2 ^ 31) (mem : ℕ → UInt8) {a : AnalyseReq} (ha : Idle a) :
    ∃ a', analyseData R mem a (f ++ rest) output =
        some ⟨true, a', rest, output ++ (recognition R f).echo⟩ ∧
      a'.loginData = (recognition R f).loginData ∧ a'.transData = (recognition R f).transData := by
  rcases h with h | ⟨dh, n, h⟩
  · have hr : recognition R f = ⟨f, f, none, none⟩ := if_pos h.2
    rw [hr]
    exact ⟨_, analyseData_heartbeat R h rest output mem a, ha⟩
  · obtain ⟨hc, hpack⟩ := h.callsPack rest hlen
    obtain ⟨a', ha', hl, ht⟩ := analysePack_frame R h rest output mem ha rfl rfl rfl hpack
    refine ⟨a', ?_, hl, ht⟩
    rw [analyseData_of_callsPack R hlen hc, ha']
    have hecho : (recognition R f).echo = [] := by
      simp only [recognition, h.notHeart, ne_eq, not_true_eq_false, ↓reduceIte]
      split_ifs <;> rfl
    rw [hecho, List.append_nil]

theorem analyseData_incomplete {f p q : Bytes} (h : WellFormed f) (hf : f = p ++ q) (hq : q ≠ [])
    (hp : 3 < p.length) (output : Bytes) (mem : ℕ → UInt8) (a : AnalyseReq) :
    analyseData R mem a p output = some ⟨false, a, p, output⟩ := by
  have hqpos := List.length_pos_iff.mpr hq
  rcases h with h | ⟨dh, n, h⟩
  · have := h.1
    rw [hf, List.length_append] at this
    omega
  · unfold analyseData
    rw [evbufferPullup_of_le (by norm_num) (by omega)]
    have hb : byteAt (p.take (2 : ℤ).toNat) 1 = byteAt f 1 := by
      rw [byteAt_take (by decide), hf, byteAt_append q (by omega)]
    simp only [hb, h.notHeart, packCall_incomplete h hf (by omega) hq, ne_eq, not_true_eq_false,
      ↓reduceIte]

theorem record_frame {f rest output : Bytes} {a' : AnalyseReq} (t : List Recognised)
    (hl : a'.loginData = (recognition R f).loginData)
    (ht : a'.transData = (recognition R f).transData) :
    record t (f ++ rest) output ⟨true, a', rest, output ++ (recognition R f).echo⟩ =
      t ++ [recognition R f] := by
  have hc : (recognition R f).consumed = f := by
    unfold recognition
    split_ifs <;> rfl
  simp only [record, List.length_append, Nat.add_sub_cancel, List.take_left', List.drop_left', hl,
    ht]
  generalize recognition R f = x at hc
  subst hc
  rfl

/-- The bytes of the heartbeats among some frames, in order. -/
def echoes (frames : List Bytes) : Bytes := (frames.map fun f => (recognition R f).echo).flatten

/-- One run of the loop over a prefix of a stream of frames consumes the complete frames and
stops at the first one that has not fully arrived. -/
theorem readLoop_frames (mem : ℕ → UInt8) (frames : List Bytes) (hw : ∀ f ∈ frames, WellFormed f)
    (p q : Bytes) (hcut : p ++ q = frames.flatten) (hlen : p.length < 2 ^ 31)
    (t : List Recognised) (a : AnalyseReq) (ha : Idle a) (output : Bytes) :
    ∃ got todo a' p', frames = got ++ todo ∧
      readLoop R mem record t a p output =
        some (t ++ got.map (recognition R), a', p', output ++ echoes R got) ∧
      Idle a' ∧ p' ++ q = todo.flatten ∧ ∀ f ∈ todo.head?, p'.length < f.length := by
  induction frames generalizing p t a output with
  | nil =>
    obtain ⟨rfl, rfl⟩ : p = [] ∧ q = [] := by simpa using hcut
    refine ⟨[], [], a, [], rfl, ?_, ha, rfl, by simp⟩
    rw [readLoop]
    simp [echoes]
  | cons f fs ih =>
    have hf := hw f List.mem_cons_self
    rcases lt_or_ge p.length f.length with hshort | hfull
    · refine ⟨[], f :: fs, a, p, rfl, ?_, ha, hcut, by simpa using hshort⟩
      rw [readLoop]
      split
      next h3 =>
        have hpre : p <+: f := List.prefix_of_prefix_length_le
          (List.prefix_append p q) (hcut ▸ List.prefix_append f fs.flatten) hshort.le
        obtain ⟨q', hq'⟩ := hpre
        have hne : q' ≠ [] := by
          rintro rfl
          simp only [List.append_nil] at hq'
          simp [hq'] at hshort
        split
        next h => simp [analyseData_incomplete R hf hq'.symm hne h3] at h
        next r h =>
          rw [analyseData_incomplete R hf hq'.symm hne h3] at h
          obtain rfl := Option.some.inj h
          simp [echoes]
      next => simp [echoes]
    · obtain ⟨rest, rfl⟩ : f <+: p := List.prefix_of_prefix_length_le
        (hcut ▸ List.prefix_append f fs.flatten) (List.prefix_append p q) hfull
      have hrest : rest ++ q = fs.flatten := by
        simpa [List.append_assoc] using hcut
      obtain ⟨a1, h1, hl, htr⟩ := analyseData_frame R hf rest output hlen mem ha
      obtain ⟨got, todo, a', p', heq, hrun, hidle, htodo, hstop⟩ :=
        ih (fun g hg => hw g (List.mem_cons_of_mem _ hg)) rest hrest
          (by rw [List.length_append] at hlen; omega) (t ++ [recognition R f]) a1.handOver
          (idle_handOver a1) (output ++ (recognition R f).echo)
      refine ⟨f :: got, todo, a', p', by rw [heq]; rfl, ?_, hidle, htodo, hstop⟩
      rw [readLoop, if_pos (by rw [List.length_append]; have := hf.length_gt; omega)]
      split
      next h => simp [h1] at h
      next r h =>
        rw [h1] at h
        obtain rfl := Option.some.inj h
        simp only [↓reduceDIte, record_frame R t hl htr, hrun, List.map_cons, echoes,
          List.flatten_cons, List.append_assoc, List.cons_append, List.nil_append]

/-- The parser of a connection at its first frame, whatever `_is_heart` started as. -/
def Reader.new (isHeart : Bool) : Reader := { req := AnalyseReq.new isHeart }

/-- The loop over the arrivals: the frames recognised so far are an initial part of the stream,
and what is buffered is an incomplete part of the next one. -/
theorem Reader.feedAll_from (frames : List Bytes) (hw : ∀ f ∈ frames, WellFormed f)
    (arrivals : List Arrival) (s : Reader) (hs : Idle s.req)
    (hcut : s.input ++ (arrivals.map Arrival.chunk).flatten = frames.flatten)
    (hshort : ∀ f ∈ frames.head?, s.input.length < f.length) (hkept : s.Kept R arrivals) :
    ∃ t, s.feedAll R arrivals = some t ∧ t.trace = s.trace ++ frames.map (recognition R) ∧
      t.input = [] ∧ t.output = s.output ++ echoes R frames := by
  induction arrivals generalizing s frames with
  | nil =>
    cases frames with
    | nil => exact ⟨s, rfl, by simp, by simpa using hcut, by simp [echoes]⟩
    | cons f fs =>
      have hlt := hshort f rfl
      have := congrArg List.length hcut
      simp only [List.map_nil, List.flatten_nil, List.append_nil, List.flatten_cons,
        List.length_append] at this
      omega
  | cons x xs ih =>
    obtain ⟨got, todo, a', p', heq, hrun, hidle, htodo, hstop⟩ :=
      readLoop_frames R x.mem frames hw (s.input ++ x.chunk) (xs.map Arrival.chunk).flatten
        (by simpa [List.append_assoc] using hcut) hkept.1 s.trace s.req hs s.output
    have hfeed : s.feed R x = some ⟨a', p', s.output ++ echoes R got,
        s.trace ++ got.map (recognition R)⟩ := by
      simp [Reader.feed, hrun]
    obtain ⟨t, ht, htrace, hin, hout⟩ :=
      ih todo (fun f hf => hw f (by rw [heq]; exact List.mem_append_right _ hf)) _ hidle htodo
        hstop (hkept.2 _ hfeed)
    refine ⟨t, by simp [Reader.feedAll, hfeed, ht], ?_, hin, ?_⟩
    · rw [htrace, heq, List.map_append, List.append_assoc]
    · rw [hout, heq]
      simp [echoes, List.append_assoc]

/-- Incremental framing refines the wire format: however a stream of well-formed frames is cut,
the read loop recognises exactly its frames, in order, and leaves nothing behind. -/
theorem feedAll_recognises (frames : List Bytes) (hw : ∀ f ∈ frames, WellFormed f)
    (arrivals : List Arrival) (hcut : (arrivals.map Arrival.chunk).flatten = frames.flatten)
    (isHeart : Bool) (hkept : (Reader.new isHeart).Kept R arrivals) :
    ∃ s, (Reader.new isHeart).feedAll R arrivals = some s ∧
      s.trace = frames.map (recognition R) ∧ s.input = [] ∧
      s.output = (frames.map fun f => (recognition R f).echo).flatten := by
  have hshort : ∀ f ∈ frames.head?, (Reader.new isHeart).input.length < f.length := by
    intro f hf
    have := (hw f (List.mem_of_mem_head? hf)).length_gt
    simp only [Reader.new, List.length_nil]
    omega
  simpa [Reader.new, echoes] using
    Reader.feedAll_from R frames hw arrivals (Reader.new isHeart) ⟨rfl, rfl⟩ hcut hshort hkept

theorem readLoop_input_le {τ : Type} (mem : ℕ → UInt8) (body : τ → Bytes → Bytes → Analysed → τ)
    (t : τ) (a : AnalyseReq) (input output : Bytes) :
    ∀ r ∈ readLoop R mem body t a input output, r.2.2.1.length ≤ input.length := by
  fun_induction readLoop R mem body t a input output with
  | case1 => simp
  | case2 t a input output _ r h hr ih =>
    intro x hx
    exact (ih x hx).trans (analyseData_shrinks R h hr).le
  | case3 t a input output _ r h hr =>
    rintro x ⟨⟩
    rcases analyseData_input R h with ⟨-, heq⟩ | hlt
    · exact heq ▸ le_rfl
    · exact hlt.le
  | case4 t a input output =>
    rintro x ⟨⟩
    exact le_rfl

/-- A stream of fewer than `2 ^ 31` bytes never fills the buffer beyond that. -/
theorem Reader.kept_of_total (arrivals : List Arrival) (s : Reader)
    (h : s.input.length + ((arrivals.map Arrival.chunk).flatten).length < 2 ^ 31) :
    s.Kept R arrivals := by
  induction arrivals generalizing s with
  | nil => trivial
  | cons x xs ih =>
    simp only [List.map_cons, List.flatten_cons, List.length_append] at h
    refine ⟨by rw [List.length_append]; omega, ?_⟩
    intro t ht
    obtain ⟨r, hr, rfl⟩ := Option.map_eq_some_iff.mp ht
    have hle := readLoop_input_le R x.mem record s.trace s.req (s.input ++ x.chunk) s.output r hr
    rw [List.length_append] at hle
    exact ih _ (by simp only; omega)

end Feed

/-- A heartbeat, a login of id 7 with token `a`, and a relay from 7 to 9. -/
def sampleFrames : List Bytes :=
  [[0x15, 0x20, 0, 0],
    0x15 :: List.replicate 19 0 ++ [0, 10, 1, 0, 5, 0x08, 7, 0x12, 1, 0x61],
    [0x15, 0x40, 0, 0, 0, 0, 0, 0, 0, 0, 0, 7, 0, 0, 0, 0, 0, 0, 0, 9, 0, 22, 1, 0, 1, 0xAB]]

theorem sampleFrames_wellFormed : ∀ f ∈ sampleFrames, WellFormed f := by
  intro f hf
  simp only [sampleFrames, List.mem_cons, List.not_mem_nil, or_false] at hf
  rcases hf with rfl | rfl | rfl
  · exact Or.inl ⟨by decide, by decide⟩
  · exact Or.inr ⟨5, 5, by decide, by decide, by decide, by decide, by decide, by decide, by decide⟩
  · exact Or.inr ⟨5, 1, by decide, by decide, by decide, by decide, by decide, by decide, by decide⟩

/-- The sample stream cut inside the heartbeat and inside the login's header. -/
def sampleArrivals : List Arrival :=
  [⟨sampleFrames.flatten.take 3, fun _ => 0⟩, ⟨(sampleFrames.flatten.drop 3).take 11, fun _ => 0⟩,
    ⟨sampleFrames.flatten.drop 14, fun _ => 0⟩]

theorem sampleArrivals_recognised :
    ∃ s, (Reader.new true).feedAll Wire.runtime sampleArrivals = some s ∧
      s.trace = sampleFrames.map (recognition Wire.runtime) ∧ s.input = [] ∧
      s.output = (sampleFrames.map fun f => (recognition Wire.runtime f).echo).flatten :=
  feedAll_recognises Wire.runtime sampleFrames sampleFrames_wellFormed sampleArrivals (by decide)
    true (Reader.kept_of_total Wire.runtime sampleArrivals _ (by decide))

end EglComet
