import EglComet.Client.ConnThread
import EglComet.WorkThread.Streams

/-!
What a client shows of what the server sent it. The read callback of the client
takes whole frames with a 20-byte header and a 16-bit length one by one; they
delimit themselves, so the client shows the entries of its stream in order, up
to a refusal, as long as its callbacks see whole frames.
-/
namespace EglComet

open Protobuf MachineInt PrefixCode

namespace Client

/-- A data frame as the client delimits it. -/
structure ShortFrame (f : Bytes) : Prop where
  notHeart : byteAt f 1 &&& 0x20 = 0
  payload : 25 < f.length
  length : f.length = 25 + bigEndian ((f.drop 23).take 2)

instance (f : Bytes) : Decidable (ShortFrame f) :=
  decidable_of_iff (byteAt f 1 &&& 0x20 = 0 ∧ 25 < f.length ∧
      f.length = 25 + bigEndian ((f.drop 23).take 2))
    ⟨fun h => ⟨h.1, h.2.1, h.2.2⟩, fun h => ⟨h.1, h.2, h.3⟩⟩

/-- A frame that the read callback takes whole. -/
def ClientFrame (f : Bytes) : Prop := HeartbeatFrame f ∨ ShortFrame f

theorem ClientFrame.three_lt {f : Bytes} (h : ClientFrame f) : 3 < f.length := by
  rcases h with h | h
  · rw [h.1]
    decide
  · have := h.payload
    omega

/-- The length field behind the header is inside the frame. -/
theorem ShortFrame.length_append {f : Bytes} (h : ShortFrame f) (rest : Bytes) :
    bigEndian (((f ++ rest).drop 23).take 2) = bigEndian ((f.drop 23).take 2) := by
  have hp := h.payload
  rw [List.drop_append_of_le_length (by omega), List.take_append_of_le_length]
  rw [List.length_drop]
  omega

theorem isPrefixCode_clientFrame : IsPrefixCode ClientFrame where
  ne_nil h := List.ne_nil_of_length_pos (Nat.zero_lt_of_lt h.three_lt)
  eq_of_append := by
    intro f g x y hf hg h
    have hbyte : byteAt f 1 = byteAt g 1 := by
      have hf3 := hf.three_lt
      have hg3 := hg.three_lt
      rw [← byteAt_append x (by omega : 1 < f.length), h, byteAt_append y (by omega)]
    have hlen : f.length = g.length := by
      rcases hf with hf | hf <;> rcases hg with hg | hg
      · rw [hf.1, hg.1]
      · exact absurd hg.notHeart (hbyte ▸ hf.2)
      · exact absurd hf.notHeart (hbyte.symm ▸ hg.2)
      · rw [hf.length, hg.length, ← hf.length_append x, h, hg.length_append y]
    exact (List.append_inj h hlen).1

section Loop

variable {σ : Type} (R : Runtime σ) (refused : Bytes → ReadEnd)

/-- What is shown of one frame. -/
def shown (f : Bytes) : Report := if byteAt f 1 &&& 0x20 ≠ 0 then .heartbeat else report R f

/-- The lines up to the first refusal, which is shown. -/
def untilRefusal : List Report → List Report
  | [] => []
  | r :: rs => if r = .login false then [r] else r :: untilRefusal rs

theorem untilRefusal_append_of_mem {rs : List Report} (h : .login false ∈ rs) (rs' : List Report) :
    untilRefusal (rs ++ rs') = untilRefusal rs := by
  induction rs with
  | nil => exact absurd h List.not_mem_nil
  | cons r rs ih =>
    rw [List.cons_append, untilRefusal, untilRefusal]
    by_cases hr : r = .login false
    · rw [if_pos hr, if_pos hr]
    · have hmem : .login false ∈ rs := (List.mem_cons.mp h).resolve_left (Ne.symm hr)
      rw [if_neg hr, if_neg hr, ih hmem]

theorem untilRefusal_append_of_notMem {rs : List Report} (h : .login false ∉ rs)
    (rs' : List Report) : untilRefusal (rs ++ rs') = rs ++ untilRefusal rs' := by
  induction rs with
  | nil => rfl
  | cons r rs ih =>
    rw [List.mem_cons, not_or] at h
    rw [List.cons_append, untilRefusal, if_neg (Ne.symm h.1), ih h.2, List.cons_append]

/-- The callback takes a frame from the front of its input. -/
theorem readLoop_append {f : Bytes} (h : ClientFrame f) (rest : Bytes) :
    readLoop R refused (f ++ rest) =
      if shown R f = .login false then ([.login false], refused (f ++ rest))
      else (shown R f :: (readLoop R refused rest).1, (readLoop R refused rest).2) := by
  have h3 := h.three_lt
  have hlong : (f ++ rest).length > 3 := by
    rw [List.length_append]
    omega
  have hbyte : byteAt (f ++ rest) 1 = byteAt f 1 := byteAt_append rest (by omega)
  rw [readLoop, if_pos hlong, hbyte]
  rcases h with h | h
  · have hshown : shown R f = .heartbeat := if_pos h.2
    have hdrop : (f ++ rest).drop 4 = rest := by
      rw [← h.1]
      exact List.drop_left
    simp [hshown, h.2, hdrop]
  · have hshown : shown R f = report R f := if_neg (not_not.mpr h.notHeart)
    have hp := h.payload
    have hlen := h.length
    have htotal : (f ++ rest).length = f.length + rest.length := List.length_append
    have htake : (f ++ rest).take (25 + bigEndian ((f.drop 23).take 2)) = f := by
      rw [← hlen]
      exact List.take_left
    have hdrop : (f ++ rest).drop (25 + bigEndian ((f.drop 23).take 2)) = rest := by
      rw [← hlen]
      exact List.drop_left
    simp only [h.notHeart, ne_eq, not_true_eq_false, if_false, h.length_append rest, htake, hdrop]
    rw [if_pos (by omega), if_pos (by omega), hshown]
    split_ifs with hr
    · rw [hr]
    · rfl

theorem readLoop_flatten {frames : List Bytes} (h : ∀ f ∈ frames, ClientFrame f) :
    readLoop R (fun _ => .closed) frames.flatten =
      (untilRefusal (frames.map (shown R)),
        if .login false ∈ frames.map (shown R) then .closed else .waits []) := by
  induction frames with
  | nil => simp [readLoop, untilRefusal]
  | cons f frames ih =>
    have hf := h f List.mem_cons_self
    have hrest := ih fun g hg => h g (List.mem_cons_of_mem f hg)
    rw [List.flatten_cons, readLoop_append R _ hf, hrest, List.map_cons, untilRefusal]
    by_cases hr : shown R f = .login false
    · simp [hr]
    · have hne : .login false ≠ shown R f := Ne.symm hr
      simp only [if_neg hr, List.mem_cons, hne, false_or]

/-- `send.cc` keeps a refusal in its input: whatever arrives later, each run of its callback shows
the refusal again and nothing behind it. -/
theorem sendReadCallback_refusal {f : Bytes} (h : ClientFrame f) (hr : shown R f = .login false)
    (rest more : Bytes) :
    sendReadCallback R (f ++ rest) = ([.login false], .waits (f ++ rest)) ∧
      sendReadCallback R (f ++ rest ++ more) = ([.login false], .waits (f ++ rest ++ more)) := by
  have hall (bs : Bytes) : sendReadCallback R (f ++ bs) = ([.login false], .waits (f ++ bs)) := by
    rw [sendReadCallback, readLoop_append R _ h, if_pos hr]
  rw [List.append_assoc]
  exact ⟨hall rest, hall (rest ++ more)⟩

/-- Chunks of whole frames are shown frame by frame. -/
theorem receiveAll_flatten {chunks : List (List Bytes)} (h : ∀ c ∈ chunks, ∀ f ∈ c, ClientFrame f)
    (before : List Report) :
    receiveAll R before (.waits []) (chunks.map List.flatten) =
      (before ++ untilRefusal (chunks.flatten.map (shown R)),
        if .login false ∈ chunks.flatten.map (shown R) then .closed else .waits []) := by
  induction chunks generalizing before with
  | nil => simp [receiveAll, untilRefusal]
  | cons c chunks ih =>
    have hc := readLoop_flatten R (h c List.mem_cons_self)
    have hrest := ih fun c' hc' => h c' (List.mem_cons_of_mem c hc')
    rw [List.map_cons, receiveAll, List.nil_append, receiveCallback, hc, List.flatten_cons,
      List.map_append]
    -- a refusal in this chunk ends the connection, otherwise the rest is read from an empty input
    by_cases hr : .login false ∈ c.map (shown R)
    · simp only [receiveAll, untilRefusal_append_of_mem hr, List.mem_append, hr, true_or, if_true]
    · have hall : untilRefusal (c.map (shown R)) = c.map (shown R) := by
        simpa [untilRefusal] using untilRefusal_append_of_notMem hr []
      simp only [hr, if_false, hall, hrest, untilRefusal_append_of_notMem hr, List.mem_append,
        false_or, List.append_assoc]

end Loop

section Replies

variable {σ : Type} {R : Runtime σ} {unread : σ → Bytes}

/-- The client finds the code of a reply, whatever its text and its ping time. -/
theorem code_loginPayload (C : R.Conforms unread) (ok : Bool) {msg : Bytes}
    (hmsg : msg.length < 2 ^ 31) (pingTime : ℤ) :
    (s2cLogin.parseFromArray R (loginPayload R ok msg pingTime)).1.code =
      some (if ok then 200 else 401) := by
  have hcode : -2 ^ 31 ≤ (if ok then 200 else 401 : ℤ) ∧
      (if ok then 200 else 401 : ℤ) < 2 ^ 31 := by
    cases ok <;> decide
  have hfirst : Reads R unread s2cLogin.fields (R.writeInt32 1 (if ok then 200 else 401)) _ :=
    C.reads_int32 (by decide) (by decide) rfl hcode
  have htext : Reads R unread s2cLogin.fields (R.writeString 2 msg) _ :=
    C.reads_string (by decide) rfl hmsg
  have hping : Reads R unread s2cLogin.fields (R.writeInt32 3 pingTime) _ :=
    C.reads_int32_bmod pingTime (by decide) (by decide) rfl
  have hpayload : loginPayload R ok msg pingTime =
      R.writeInt32 1 (if ok then 200 else 401) ++ R.writeString 2 msg ++
        R.writeInt32 3 pingTime := rfl
  rw [hpayload, C.parse ((hfirst.append htext).append hping)]
  rfl

/-- An encoded frame that the client delimits is in the short form. -/
theorem ShortFrame.encoded {ttl : UInt8} {propertyId : ℕ} {src : Bytes}
    (h : ShortFrame (frameOf ttl propertyId src)) :
    src.length ≤ 0xFF00 ∧ (frameOf ttl propertyId src).drop 25 = src := by
  have hfield := drop_frameOf ttl propertyId src [] 0
  simp only [List.append_nil, Nat.add_zero, List.drop_zero] at hfield
  have hlen := h.length
  rw [hfield, length_frameOf] at hlen
  have hshort : src.length ≤ 0xFF00 := by
    by_contra hlong
    have hmark : (lengthField src.length ++ src).take 2 = [0xFF, 0x00] := by
      rw [lengthField, if_pos (by omega)]
      rfl
    have hbig : bigEndian [0xFF, 0x00] = 0xFF00 := by decide
    rw [hmark, hbig, length_lengthField, if_pos (by omega)] at hlen
    omega
  exact ⟨hshort, drop_frameOf_short ttl propertyId hshort⟩

/-- A reply that the client delimits is shown as what it is. -/
theorem report_reply (C : R.Conforms unread) {ok : Bool} {bs : Bytes} (h : IsReply R ok bs)
    (hs : ShortFrame bs) : report R bs = .login ok := by
  obtain ⟨a, msg, pingTime, mem, rfl⟩ := h
  rw [getLoginRsp_eq] at hs ⊢
  obtain ⟨hshort, hdrop⟩ := hs.encoded
  have hmsg : msg.length < 2 ^ 31 := by
    have hpart : (R.writeString 2 msg).length ≤ (loginPayload R ok msg pingTime).length := by
      show _ ≤ (R.writeInt32 1 _ ++ R.writeString 2 msg ++ R.writeInt32 3 pingTime).length
      rw [List.length_append, List.length_append]
      omega
    rw [C.length_string (by decide)] at hpart
    omega
  have hproperty : bigEndian
      (((frameOf 0 11 (loginPayload R ok msg pingTime)).drop 20).take 2) = 11 := rfl
  simp only [report, hproperty, if_true, hdrop, code_loginPayload C ok hmsg]
  cases ok <;> rfl

end Replies

/-- What is shown of a song is read off its frame. -/
theorem report_song {σ : Type} {R : Runtime σ} {bs : Bytes} {fromId : UInt64} {m : Song}
    (h : report R bs = .song fromId m) :
    fromId = UInt64.ofNat (bigEndian ((bs.drop 4).take 8)) ∧
      m = (song.parseFromArray R (bs.drop 25)).1 := by
  unfold report at h
  simp only at h
  split_ifs at h
  injection h with hfrom hm
  exact ⟨hfrom.symm, hm.symm⟩

section Server

open Server

variable {σ : Type} (R : Runtime σ)

/-- What a client shows of an entry of its stream: its heartbeats, a login, or one data frame. -/
def entryShown (e : Sent) : List Report :=
  match e.source with
  | .echo => List.replicate (e.bytes.length / 4) .heartbeat
  | .loginRsp _ ok => [.login ok]
  | .relay _ | .friends _ => [report R e.bytes]

/-- What a client shows of everything that was sent to connection `conn`. -/
def streamShown (s : Server) (conn : ℕ) : List Report :=
  s.sent.flatMap fun e => if e.conn = conn then entryShown R e else []

variable {R} {unread : σ → Bytes}

theorem replicate_heartbeats {frames : List Bytes} (h : ∀ f ∈ frames, HeartbeatFrame f) :
    frames.map (shown R) = List.replicate (frames.flatten.length / 4) .heartbeat := by
  induction frames with
  | nil => rfl
  | cons f frames ih =>
    obtain ⟨hlen, hbit⟩ := h f List.mem_cons_self
    have hshown : shown R f = .heartbeat := if_pos hbit
    have hcount : (f :: frames).flatten.length / 4 = frames.flatten.length / 4 + 1 := by
      rw [List.flatten_cons, List.length_append, hlen]
      omega
    rw [List.map_cons, hshown, ih fun g hg => h g (List.mem_cons_of_mem f hg), hcount,
      List.replicate_succ]

/-- An entry is made of frames that the client takes, and it shows them as the entry says. -/
theorem entry_frames (C : R.Conforms unread) {log : List Obs} {e : Sent} (hs : e.Shaped)
    (hr : e.Recorded R log) (hshort : e.source ≠ .echo → ShortFrame e.bytes) :
    ∃ frames : List Bytes, (∀ f ∈ frames, ClientFrame f) ∧ frames.flatten = e.bytes ∧
      frames.map (shown R) = entryShown R e := by
  have hone (hf : ShortFrame e.bytes) (he : entryShown R e = [report R e.bytes]) :
      ∃ frames : List Bytes, (∀ f ∈ frames, ClientFrame f) ∧ frames.flatten = e.bytes ∧
        frames.map (shown R) = entryShown R e := by
    have hshown : shown R e.bytes = report R e.bytes :=
      if_neg (not_not.mpr hf.notHeart)
    exact ⟨[e.bytes], by simpa [ClientFrame] using Or.inr hf, by simp, by simp [hshown, he]⟩
  obtain ⟨conn, source, bs⟩ := e
  cases source with
  | echo =>
    obtain ⟨frames, hframes, rfl⟩ := hs
    exact ⟨frames, fun f hf => Or.inl (hframes f hf), rfl, replicate_heartbeats hframes⟩
  | loginRsp d ok =>
    have hf := hshort (by simp)
    exact hone hf (by rw [report_reply C hr.2 hf]; rfl)
  | relay d => exact hone (hshort (by simp)) rfl
  | friends info => exact hone (hshort (by simp)) rfl

/-- The frames of all entries of a stream, one behind the other. -/
theorem stream_frames (conn : ℕ) (es : List Sent)
    (h : ∀ e ∈ es, e.conn = conn → ∃ frames : List Bytes, (∀ f ∈ frames, ClientFrame f) ∧
      frames.flatten = e.bytes ∧ frames.map (shown R) = entryShown R e) :
    ∃ frames : List Bytes, (∀ f ∈ frames, ClientFrame f) ∧
      frames.flatten = (es.flatMap fun e => if e.conn = conn then e.bytes else []) ∧
      frames.map (shown R) =
        es.flatMap fun e => if e.conn = conn then entryShown R e else [] := by
  induction es with
  | nil => exact ⟨[], by simp, rfl, rfl⟩
  | cons e es ih =>
    obtain ⟨frames, hframes, hflat, hshown⟩ := ih fun e' he' => h e' (List.mem_cons_of_mem e he')
    rw [List.flatMap_cons, List.flatMap_cons]
    by_cases hc : e.conn = conn
    · obtain ⟨first, hfirst, hflat', hshown'⟩ := h e List.mem_cons_self hc
      refine ⟨first ++ frames, ?_, ?_, ?_⟩
      · exact fun f hf => (List.mem_append.mp hf).elim (hfirst f) (hframes f)
      · rw [List.flatten_append, if_pos hc, hflat, hflat']
      · rw [List.map_append, if_pos hc, hshown, hshown']
    · exact ⟨frames, hframes, by rw [if_neg hc, hflat]; rfl, by rw [if_neg hc, hshown]; rfl⟩

/-- What a client shows of its output is what was sent to its connection, up to a refusal. -/
theorem shows_stream (C : R.Conforms unread) {s : Server} (hs : s.Streamed) (hk : s.Kept R)
    {b : Addr} {w conn : ℕ} {input output : Bytes}
    (hb : s.heap.lookup b = some ⟨.client w conn, input, output⟩)
    (hshort : ∀ e ∈ s.sent, e.conn = conn → e.source ≠ .echo → ShortFrame e.bytes)
    {chunks : List (List Bytes)} (hchunks : ∀ c ∈ chunks, ∀ f ∈ c, ClientFrame f)
    (hout : chunks.flatten.flatten = output) :
    receiveAll R [] (.waits []) (chunks.map List.flatten) =
      (untilRefusal (streamShown R s conn),
        if .login false ∈ streamShown R s conn then .closed else .waits []) := by
  obtain ⟨frames, hframes, hflat, hshown⟩ := stream_frames conn s.sent fun e he hc =>
    entry_frames C (hs.shaped e he) (hk.recorded.sent e he) (hshort e he hc)
  have hstream : output = s.stream conn := hs.output b _ (w, conn) hb rfl
  -- the chunks are cut into the frames of the entries, since there is only one way to cut them
  have hsame : chunks.flatten = frames := by
    apply isPrefixCode_clientFrame.flatten_inj _ hframes
    · rw [hout, hstream, hflat]
      rfl
    · intro f hf
      obtain ⟨c, hc, hfc⟩ := List.mem_flatten.mp hf
      exact hchunks c hc f hfc
  rw [receiveAll_flatten _ hchunks, hsame, hshown]
  rfl

/-- The reply to a login that was accepted, with a ping time of a minute. -/
def okReply : Bytes := frameOf 0 11 (loginPayload Wire.runtime true (ascii "200 ok") 60)

-- A reply that arrives in two pieces: the first one is looked at for ever.
example : receiveCallback Wire.runtime (okReply.take 20) = ([], .spins (okReply.take 20)) := by
  decide +kernel

-- With the length field in the first piece, the rest of the text is shown as two heartbeats.
example : receiveAll Wire.runtime [] (.waits []) [okReply.take 30, okReply.drop 30] =
    ([.heartbeat, .heartbeat], .waits []) := by
  decide +kernel

theorem untilRefusal_subset (rs : List Report) : untilRefusal rs ⊆ rs := by
  induction rs with
  | nil => exact List.Subset.refl []
  | cons r rs ih =>
    rw [untilRefusal]
    split_ifs
    · exact List.cons_subset_cons r (List.nil_subset rs)
    · exact List.cons_subset_cons r ih

/-- The frames that the server makes itself name no sender. -/
theorem fromId_encoded {bs : Bytes} (h : Encoded bs) {fromId : UInt64} {m : Song}
    (hr : report R bs = .song fromId m) : fromId = 0 := by
  obtain ⟨ttl, propertyId, src, rfl⟩ := h
  obtain ⟨hfrom, -⟩ := report_song hr
  rw [hfrom]
  rfl

/-- A song that names a sender stands in a forwarded record, and the sender is the client on whose
connection the record was read. -/
theorem song_genuine {s : Server} (hs : s.Streamed) (hk : s.Kept R) {e : Sent}
    (he : e ∈ s.sent) (hshort : e.source ≠ .echo → ShortFrame e.bytes) {fromId : UInt64} {m : Song}
    (hid : fromId ≠ 0) (hm : .song fromId m ∈ entryShown R e) :
    ∃ d : Relay, ReadFrom s.log d ∧ d.fromId = fromId ∧ e.source = .relay d.toTransData ∧
      e.bytes = d.data ∧ m = (song.parseFromArray R (d.data.drop 25)).1 := by
  have hshape := hs.shaped e he
  have hrec := hk.recorded.sent e he
  obtain ⟨conn, source, bs⟩ := e
  cases source with
  | echo => simp [entryShown] at hm
  | loginRsp d ok => simp [entryShown] at hm
  | friends info =>
    have hr : report R bs = .song fromId m := by
      simpa [entryShown, eq_comm] using hm
    exact absurd (fromId_encoded hshape hr) hid
  | relay t =>
    have hr : report R bs = .song fromId m := by
      simpa [entryShown, eq_comm] using hm
    cases ho : t.origin with
    | server => exact absurd (fromId_encoded (hshape.2 ho) hr) hid
    | client =>
      obtain ⟨hbs, d, rfl, hread⟩ := hrec ho
      obtain ⟨hfrom, hsong⟩ := report_song hr
      have hlong : 25 < bs.length := (hshort (by simp)).payload
      obtain ⟨-, w, b, hmem⟩ := id hread
      have hdata : bs = d.data := hbs.trans (hk.take_data hmem)
      obtain ⟨mem, rest, l, hy, hl⟩ := hk.framed _ hmem
      have hsame : d.data = l.data ∧ d.fromId = l.fromId := by
        rw [hl]
        exact ⟨rfl, rfl⟩
      have hsender := hy.fromId (by rw [← hsame.1, ← hdata]; omega)
      refine ⟨d, hread, ?_, rfl, hdata, hdata ▸ hsong⟩
      rw [hfrom, hdata, hsame.2, hsender, hsame.1]

/-- In every run a client of `receive.cc` whose callbacks see whole frames shows a song with a
sender only if that sender sent it: the server read the frame on a connection that was logged in
with the id shown, and passed on the bytes as they were. -/
theorem shown_sender_genuine (C : R.Conforms unread) {s : Server} {ok : Server → Env × Event → Prop}
    (h : Reached R ok s) {b : Addr} {w conn : ℕ} {input output : Bytes}
    (hb : s.heap.lookup b = some ⟨.client w conn, input, output⟩)
    (hshort : ∀ e ∈ s.sent, e.conn = conn → e.source ≠ .echo → ShortFrame e.bytes)
    {chunks : List (List Bytes)} (hchunks : ∀ c ∈ chunks, ∀ f ∈ c, ClientFrame f)
    (hout : chunks.flatten.flatten = output) {fromId : UInt64} {m : Song} (hid : fromId ≠ 0)
    (hm : .song fromId m ∈
      (receiveAll R [] (.waits []) (chunks.map List.flatten)).1) :
    ∃ d : Relay, ReadFrom s.log d ∧ d.fromId = fromId ∧
      ⟨conn, .relay d.toTransData, d.data⟩ ∈ s.sent ∧
      m = (song.parseFromArray R (d.data.drop 25)).1 := by
  obtain ⟨hs, hk⟩ := streamed_reached h
  rw [shows_stream C hs hk hb hshort hchunks hout] at hm
  obtain ⟨e, he, hme⟩ := List.mem_flatMap.mp (untilRefusal_subset _ hm)
  split_ifs at hme with hc
  · obtain ⟨d, hread, hfrom, hsource, hbytes, hsong⟩ :=
      song_genuine hs hk he (hshort e he hc) hid hme
    refine ⟨d, hread, hfrom, ?_, hsong⟩
    rw [← hc, ← hsource, ← hbytes]
    exact he
  · exact absurd hme List.not_mem_nil

/-- The song that client 7 sends to client 5. -/
def songFrame : Bytes := (sendCallback Wire.runtime (fun _ => ascii "12:00") [7]).flatMap Prod.snd

/-- 7 sends a song to 5, both on worker 0, and the worker reads its pipe. -/
def songRelayed : List (Env × Event) :=
  connect 0 1 ++ login 0 1 7 ++ connect 0 2 ++ login 0 2 5 ++
    [(plainEnv 1, .clientRead 1 songFrame),
      (plainEnv 1, .redisReply 0 0 (some { type := .string, str := some [0x31] })),
      (plainEnv 1, .newMsg 0)]

theorem songRelayed_genuine :
    ∃ s, Reached Wire.runtime (fun _ _ => True) s ∧
      receiveAll Wire.runtime [] (.waits []) [okReply, songFrame] =
        ([.login true, .song 7 (songOf 7 5 (ascii "12:00"))], .waits []) ∧
      ∃ d : Relay, ReadFrom s.log d ∧ d.fromId = 7 ∧
        ⟨1, .relay d.toTransData, d.data⟩ ∈ s.sent := by
  obtain ⟨s, hs, hb, hshort⟩ := exists_reached Wire.runtime 1 songRelayed (fun _ _ => True)
    (fun s => s.heap.lookup 2 = some ⟨.client 0 1, [], okReply ++ songFrame⟩ ∧
      ∀ e ∈ s.sent, e.source ≠ .echo → ShortFrame e.bytes)
    (.of_forall (by simp) _) (by decide +kernel)
  have hchunks : ∀ c ∈ [[okReply], [songFrame]], ∀ f ∈ c, ClientFrame f := by
    have hreply : ShortFrame okReply := by decide
    have hsong : ShortFrame songFrame := by decide +kernel
    simp [ClientFrame, hreply, hsong]
  have hread : receiveAll Wire.runtime [] (.waits []) [okReply, songFrame] =
      ([.login true, .song 7 (songOf 7 5 (ascii "12:00"))], .waits []) := by
    decide +kernel
  have hm : Report.song 7 (songOf 7 5 (ascii "12:00")) ∈ (receiveAll Wire.runtime [] (.waits [])
      ([[okReply], [songFrame]].map List.flatten)).1 := by
    simp [hread]
  obtain ⟨d, hfrom, hid, hsent, -⟩ := shown_sender_genuine Wire.conforms hs hb
    (fun e he _ => hshort e he)
    hchunks (by simp) (by decide) hm
  exact ⟨s, hs, hread, d, hfrom, hid, hsent⟩

-- Other kinds of frames are not told apart from the server's own: a message of client 7 that looks
-- like a reply to a login makes the client that receives it give up its connection.
example : receiveCallback Wire.runtime (Server.relayFrame 7 9) = ([.login false], .closed) := by
  decide +kernel

end Server

end Client

end EglComet
