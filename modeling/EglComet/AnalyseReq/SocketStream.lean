import EglComet.AnalyseReq.Buffered
import EglComet.Library.Transition

/-!
A connection from its socket on: bytes arrive in the socket's queue, the event
loop reads some of them into the chains of the input buffer and runs the read
callback, and writes from the output buffer when the socket takes bytes. However
a stream of frames arrives and whenever the loop gets to it, the callback finds
the frames of the stream.
-/
namespace EglComet

open Protobuf MachineInt

/-- One end of a connection. `socket` are the bytes that have arrived and were not read, `wire` the
bytes that went out. -/
structure Connection where
  socket : Bytes := []
  bev : Bufferevent := {}
  req : AnalyseReq
  trace : List Recognised := []
  wire : Bytes := []

/-- The memory during a read event: what `evbuffer_read` gets from `malloc`, and the memory during
each call of `analyse_data`. -/
structure ReadMemory where
  malloc : ℕ → UInt8
  heap : ℕ → HeapMemory

inductive SocketEvent where
  | arrive (bs : Bytes)
  | readable (mem : ReadMemory)
  | writable (writev : Option ℕ)

namespace Connection

section Step

variable {σ : Type} (R : Runtime σ)

/-- One turn of the loop of `bufferevent_read_callback`, which is the `k`-th. -/
def readTurn (heap : ℕ → HeapMemory) :
    ℕ × List Recognised × AnalyseReq × Bufferevent →
      Option ((ℕ × List Recognised × AnalyseReq × Bufferevent) ⊕
        (List Recognised × AnalyseReq × Bufferevent))
  | (k, t, a, bev) =>
    if bev.input.totalLen > 3 then
      match bev.analyseData R (heap k) a with
      | none => none
      | some r =>
        if r.ret then
          some (.inl (k + 1, record t bev.input.contents bev.output.contents r.flat,
            r.req.handOver, r.bev))
        else some (.inr (t, r.req, r.bev))
    else some (.inr (t, a, bev))

/-- The read callback; no more turns are needed than there are bytes. -/
def readCallback (heap : ℕ → HeapMemory) (s : Connection) : Option Connection :=
  match Loop.run (readTurn R heap) (s.bev.input.totalLen + 1) (0, s.trace, s.req, s.bev) with
  | .finished (t, a, bev) => some { s with trace := t, req := a, bev := bev }
  | _ => none

/-- The socket is readable while bytes are queued. -/
def step (s : Connection) : SocketEvent → Option Connection
  | .arrive bs => some { s with socket := s.socket ++ bs }
  | .readable mem =>
    if s.socket = [] then some s
    else
      (s.bev.readcb (some mem.malloc) s.socket).bind fun r =>
        readCallback R mem.heap { s with socket := s.socket.drop r.1.toNat, bev := r.2 }
  | .writable writev =>
    let r := s.bev.writecb writev
    some { s with bev := r.2, wire := s.wire ++ r.1 }

end Step

section Frames

variable {σ : Type} (R : Runtime σ)

/-- What `analyse_data` does on flat contents, whatever memory is behind them, it does on chains. -/
theorem analyseData_of_flat {bev : Bufferevent} (h : bev.Tight) (heap : HeapMemory) (a : AnalyseReq)
    {P : Analysed → Prop} (hflat : ∀ mem, ∃ x,
      analyseData R mem a bev.input.contents bev.output.contents = some x ∧ P x) :
    ∃ r, bev.analyseData R heap a = some r ∧ P r.flat ∧ r.bev.Tight := by
  obtain ⟨mem, hmap, ht⟩ := Bufferevent.analyseData_refines R h heap a
  obtain ⟨x, hx, hp⟩ := hflat mem
  rw [hx, Option.map_eq_some_iff] at hmap
  obtain ⟨r, hr, rfl⟩ := hmap
  exact ⟨r, hr, hp, ht r hr⟩

/-- A turn of the loop at a complete frame consumes and records it. -/
theorem readTurn_frame {bev : Bufferevent} (h : bev.Tight) {f rest : Bytes} (hf : WellFormed f)
    (hin : bev.input.contents = f ++ rest) (hlen : (f ++ rest).length < 2 ^ 31)
    (heap : ℕ → HeapMemory) (k : ℕ) (t : List Recognised) {a : AnalyseReq} (ha : Idle a) :
    ∃ a' bev', readTurn R heap (k, t, a, bev) =
        some (.inl (k + 1, t ++ [recognition R f], a', bev')) ∧
      bev'.Tight ∧ Idle a' ∧ bev'.input.contents = rest ∧
      bev'.output.contents = bev.output.contents ++ (recognition R f).echo := by
  have hgt := hf.length_gt
  have htotal : bev.input.totalLen > 3 := by
    rw [← h.1.filled.length_contents, hin, List.length_append]
    omega
  obtain ⟨r, hr, ⟨a', hrf, hl, htr⟩, ht⟩ := analyseData_of_flat R h (heap k) a
    (P := fun x => ∃ a', x = ⟨true, a', rest, bev.output.contents ++ (recognition R f).echo⟩ ∧
      a'.loginData = (recognition R f).loginData ∧ a'.transData = (recognition R f).transData)
    (fun mem => by
      obtain ⟨a', hx, hl, htr⟩ := analyseData_frame R hf rest bev.output.contents hlen mem ha
      exact ⟨_, by rw [hin]; exact hx, a', rfl, hl, htr⟩)
  have hret : r.ret = true := congrArg Analysed.ret hrf
  have hreq : r.req = a' := congrArg Analysed.req hrf
  refine ⟨r.req.handOver, r.bev, ?_, ht, idle_handOver _, congrArg Analysed.input hrf,
    congrArg Analysed.output hrf⟩
  simp only [readTurn, htotal, hr, hret, ↓reduceIte, hrf, hin, record_frame R t hl htr, hreq]

/-- A turn of the loop at an incomplete frame ends it and leaves the bytes where they are. -/
theorem readTurn_incomplete {bev : Bufferevent} (h : bev.Tight) {f q : Bytes} (hf : WellFormed f)
    (hin : f = bev.input.contents ++ q) (hq : q ≠ [])
    (heap : ℕ → HeapMemory) (k : ℕ) (t : List Recognised) (a : AnalyseReq) :
    ∃ bev', readTurn R heap (k, t, a, bev) = some (.inr (t, a, bev')) ∧ bev'.Tight ∧
      bev'.bytes = bev.bytes := by
  by_cases hlen : bev.input.totalLen > 3
  · obtain ⟨r, hr, hrf, ht⟩ := analyseData_of_flat R h (heap k) a
      (P := fun x => x = ⟨false, a, bev.input.contents, bev.output.contents⟩)
      fun mem => ⟨_, analyseData_incomplete R hf hin hq
        (by rwa [h.1.filled.length_contents]) bev.output.contents mem a, rfl⟩
    obtain ⟨ret, req, bev'⟩ := r
    obtain ⟨rfl, rfl, hi, ho⟩ : ret = false ∧ req = a ∧ bev'.input.contents = bev.input.contents ∧
        bev'.output.contents = bev.output.contents := by
      simpa [BufferedResult.flat] using hrf
    refine ⟨bev', ?_, ht, by rw [Bufferevent.bytes, Bufferevent.bytes, hi, ho]⟩
    simp only [readTurn, hlen, hr, ↓reduceIte, Bool.false_eq_true]
  · exact ⟨bev, if_neg hlen, h, rfl⟩

/-- The loop over the chains consumes the complete frames at the front of the buffer and stops at
the first one that has not fully arrived. -/
theorem run_frames (frames : List Bytes) (hw : ∀ f ∈ frames, WellFormed f) (q : Bytes)
    (heap : ℕ → HeapMemory) {bev : Bufferevent} (h : bev.Tight)
    (hcut : bev.input.contents ++ q = frames.flatten) (hlen : bev.input.contents.length < 2 ^ 31)
    {n : ℕ} (hn : bev.input.contents.length < n) (k : ℕ) (t : List Recognised) {a : AnalyseReq}
    (ha : Idle a) :
    ∃ got todo a' bev', frames = got ++ todo ∧
      Loop.run (readTurn R heap) n (k, t, a, bev) =
        .finished (t ++ got.map (recognition R), a', bev') ∧
      bev'.Tight ∧ Idle a' ∧ bev'.input.contents ++ q = todo.flatten ∧
      bev'.output.contents = bev.output.contents ++ echoes R got ∧
      ∀ f ∈ todo.head?, bev'.input.contents.length < f.length := by
  obtain ⟨n, rfl⟩ := Nat.exists_eq_add_of_lt (Nat.lt_of_le_of_lt (Nat.zero_le _) hn)
  rw [Nat.zero_add] at hn ⊢
  induction frames generalizing bev n k t a with
  | nil =>
    obtain ⟨hnil, rfl⟩ : bev.input.contents = [] ∧ q = [] := by simpa using hcut
    have htotal : ¬ bev.input.totalLen > 3 := by
      rw [← h.1.filled.length_contents, hnil]
      simp
    refine ⟨[], [], a, bev, rfl, ?_, h, ha, by rw [hnil]; rfl, by simp [echoes], by simp⟩
    simp only [Loop.run, readTurn, if_neg htotal, List.map_nil, List.append_nil]
  | cons f fs ih =>
    have hf := hw f List.mem_cons_self
    rcases lt_or_ge bev.input.contents.length f.length with hshort | hfull
    · obtain ⟨q', hq'⟩ : bev.input.contents <+: f := List.prefix_of_prefix_length_le
        (List.prefix_append _ q) (hcut ▸ List.prefix_append f fs.flatten) hshort.le
      have hne : q' ≠ [] := by
        rintro rfl
        simp [← hq'] at hshort
      obtain ⟨bev', hturn, ht, hbytes⟩ := readTurn_incomplete R h hf hq'.symm hne heap k t a
      obtain ⟨hin, hout⟩ := Prod.ext_iff.mp hbytes
      refine ⟨[], f :: fs, a, bev', rfl, ?_, ht, ha, ?_, ?_, ?_⟩
      · simp only [Loop.run, hturn, List.map_nil, List.append_nil]
      · rw [show bev'.input.contents = bev.input.contents from hin, hcut]
      · rw [show bev'.output.contents = bev.output.contents from hout]
        simp [echoes]
      · rw [show bev'.input.contents = bev.input.contents from hin]
        simpa using hshort
    · obtain ⟨rest, hrest⟩ : f <+: bev.input.contents := List.prefix_of_prefix_length_le
        (hcut ▸ List.prefix_append f fs.flatten) (List.prefix_append _ q) hfull
      obtain ⟨a₁, bev₁, hturn, ht₁, ha₁, hin₁, hout₁⟩ := readTurn_frame R h hf hrest.symm
        (by rwa [hrest]) heap k t ha
      have hgt := hf.length_gt
      have hcut₁ : rest ++ q = fs.flatten := by
        rw [← hrest, List.append_assoc, List.flatten_cons] at hcut
        exact List.append_cancel_left hcut
      rw [← hrest, List.length_append] at hlen hn
      obtain ⟨m, rfl⟩ : ∃ m, n = m + 1 := ⟨n - 1, by omega⟩
      obtain ⟨got, todo, a', bev', heq, hrun, ht', ha', hcut', hout', hstop⟩ :=
        ih (fun g hg => hw g (List.mem_cons_of_mem f hg)) ht₁ (by rw [hin₁, hcut₁])
          (by rw [hin₁]; omega) (k + 1) (t ++ [recognition R f]) ha₁ m (by rw [hin₁]; omega)
      refine ⟨f :: got, todo, a', bev', by rw [heq]; rfl, ?_, ht', ha', hcut', ?_, hstop⟩
      · rw [Loop.run, hturn]
        simp only [hrun, List.map_cons, List.append_assoc, List.singleton_append]
      · rw [hout', hout₁]
        simp [echoes]

/-- The bytes that an event brings. -/
def arrived : SocketEvent → Bytes
  | .arrive bs => bs
  | _ => []

/-- How a connection stands on which the frames arrive, when `pending` has not arrived yet: the
first frames have been recognised, and what was not consumed is the rest of the stream. -/
structure Follows (frames : List Bytes) (pending : Bytes) (s : Connection) : Prop where
  tight : s.bev.Tight
  idle : Idle s.req
  split : ∃ got todo, frames = got ++ todo ∧ s.trace = got.map (recognition R) ∧
    s.bev.input.contents ++ (s.socket ++ pending) = todo.flatten ∧
    s.wire ++ s.bev.output.contents = echoes R got ∧
    ∀ f ∈ todo.head?, s.bev.input.contents.length < f.length

theorem Follows.step {frames : List Bytes} (hw : ∀ f ∈ frames, WellFormed f)
    (hsize : ∀ f ∈ frames, f.length + 4096 ≤ 2 ^ 31) {pending : Bytes} {s : Connection}
    (e : SocketEvent) (h : Follows R frames (arrived e ++ pending) s) :
    ∃ s', s.step R e = some s' ∧ Follows R frames pending s' := by
  obtain ⟨ht, ha, got, todo, heq, htrace, hcut, hwire, hstop⟩ := h
  cases e with
  | arrive bs =>
    refine ⟨_, rfl, ht, ha, got, todo, heq, htrace, ?_, hwire, hstop⟩
    rw [← hcut, arrived, List.append_assoc]
  | readable mem =>
    rw [Connection.step]
    by_cases hnil : s.socket = []
    · exact ⟨s, if_pos hnil, ht, ha, got, todo, heq, htrace, hcut, hwire, hstop⟩
    · obtain ⟨first, rest, hsocket⟩ := List.exists_cons_of_ne_nil hnil
      obtain ⟨input, n, hread, hti, hinput, -, hdrop⟩ := ht.readcb mem.malloc first rest
      rw [← hsocket] at hread hinput hdrop
      have htodo : ∀ f ∈ todo, WellFormed f ∧ f.length + 4096 ≤ 2 ^ 31 := fun f hf =>
        have hmem : f ∈ frames := heq ▸ List.mem_append_right got hf
        ⟨hw f hmem, hsize f hmem⟩
      -- something is left of the stream, so the bytes in the buffer are a part of one frame
      have hlen : input.contents.length < 2 ^ 31 := by
        have htake := List.length_take_le 4096 s.socket
        rw [hinput, List.length_append]
        cases todo with
        | nil => simp [hnil] at hcut
        | cons f fs =>
          have := hstop f rfl
          have := (htodo f List.mem_cons_self).2
          omega
      have hcut' : input.contents ++ (s.socket.drop 4096 ++ pending) = todo.flatten := by
        rw [hinput, List.append_assoc, ← List.append_assoc (s.socket.take 4096),
          List.take_append_drop]
        exact hcut
      obtain ⟨got', todo', a', bev', heq', hrun, ht', ha', hcut', hout', hstop'⟩ :=
        run_frames R todo (fun f hf => (htodo f hf).1) (s.socket.drop 4096 ++ pending) mem.heap
          (show Bufferevent.Tight { s.bev with input := input } from ⟨hti, ht.2⟩) hcut' hlen
          (Nat.lt_succ_self _) 0 s.trace ha
      refine ⟨⟨s.socket.drop 4096, bev', a', s.trace ++ got'.map (recognition R), s.wire⟩, ?_, ?_⟩
      · rw [if_neg hnil, hread, Option.bind_some, hdrop, readCallback,
          ← (show input.Tight from hti).filled.length_contents, hrun]
      · refine ⟨ht', ha', got ++ got', todo', ?_, ?_, hcut', ?_, hstop'⟩
        · rw [heq, heq', List.append_assoc]
        · simp only [htrace, List.map_append]
        · simp only [hout', ← List.append_assoc, hwire]
          simp [echoes]
  | writable writev =>
    obtain ⟨written, output, hwrite, ho, hbytes, -⟩ := ht.writecb writev
    refine ⟨_, rfl, ?_⟩
    rw [hwrite]
    refine ⟨⟨ht.1, ho⟩, ha, got, todo, heq, htrace, hcut, ?_, hstop⟩
    rw [List.append_assoc, hbytes, hwire]

theorem follows_start {frames : List Bytes} (hw : ∀ f ∈ frames, WellFormed f) (isHeart : Bool) :
    Follows R frames frames.flatten { req := AnalyseReq.new isHeart } := by
  refine ⟨Bufferevent.tight_new, ⟨rfl, rfl⟩, [], frames, rfl, rfl, rfl, rfl, fun f hf => ?_⟩
  exact Nat.lt_of_le_of_lt (Nat.zero_le 3) (hw f (List.mem_of_mem_head? hf)).length_gt

variable {R} in
theorem Follows.run {frames : List Bytes} (hw : ∀ f ∈ frames, WellFormed f)
    (hsize : ∀ f ∈ frames, f.length + 4096 ≤ 2 ^ 31) {es : List SocketEvent} {s : Connection}
    (h : Follows R frames (es.map arrived).flatten s) :
    ∃ s', Transition.run (Connection.step R) s es = some s' ∧ Follows R frames [] s' := by
  induction es generalizing s with
  | nil => exact ⟨s, rfl, h⟩
  | cons e es ih =>
    obtain ⟨s₁, hstep, h₁⟩ := h.step R hw hsize e
    obtain ⟨s₂, hrun, h₂⟩ := ih h₁
    exact ⟨s₂, by rw [Transition.run, hstep, Option.bind_some, hrun], h₂⟩

/-- The frames recognised so far are the first ones, and all of them once everything was read. -/
def Caught (frames : List Bytes) (s : Connection) : Prop :=
  s.trace <+: frames.map (recognition R) ∧
    (s.socket = [] → s.trace = frames.map (recognition R) ∧ s.bev.input.contents = [] ∧
      s.wire ++ s.bev.output.contents = (frames.map fun f => (recognition R f).echo).flatten)

variable {R} in
theorem Follows.caught {frames : List Bytes} {s : Connection} (h : Follows R frames [] s) :
    Caught R frames s := by
  obtain ⟨-, -, got, todo, heq, htrace, hcut, hwire, hstop⟩ := h
  refine ⟨?_, fun hsocket => ?_⟩
  · rw [htrace, heq, List.map_append]
    exact List.prefix_append _ _
  · rw [hsocket, List.append_nil, List.append_nil] at hcut
    have htodo : todo = [] := by
      cases todo with
      | nil => rfl
      | cons f fs =>
        have := hstop f rfl
        rw [hcut, List.flatten_cons, List.length_append] at this
        omega
    rw [htodo, List.append_nil] at heq
    rw [htodo] at hcut
    exact ⟨by rw [htrace, heq], hcut, by rw [hwire, heq]; rfl⟩

/-- However a stream of frames arrives in the socket's queue, and whenever the event loop reads from
it and writes to it, the read callback recognises the frames in their order and no others. Once
everything that arrived has been read, all of them are recognised, nothing is left in the input
buffer, and the echoes of the heartbeats have been sent or wait in the output buffer. -/
theorem socket_stream_recognised (frames : List Bytes) (hw : ∀ f ∈ frames, WellFormed f)
    (hsize : ∀ f ∈ frames, f.length + 4096 ≤ 2 ^ 31) (es : List SocketEvent)
    (harrived : (es.map arrived).flatten = frames.flatten) (isHeart : Bool) :
    ∃ s, Transition.run (step R) { req := AnalyseReq.new isHeart } es = some s ∧
      s.trace <+: frames.map (recognition R) ∧
      (s.socket = [] → s.trace = frames.map (recognition R) ∧ s.bev.input.contents = [] ∧
        s.wire ++ s.bev.output.contents =
          (frames.map fun f => (recognition R f).echo).flatten) := by
  have hstart := follows_start R hw isHeart
  rw [← harrived] at hstart
  obtain ⟨s, hs, hend⟩ := hstart.run hw hsize
  exact ⟨s, hs, hend.caught⟩

end Frames

/-- The sample stream arrives in three parts and is read after the second and after the third. -/
def sampleEvents : List SocketEvent :=
  [.arrive (sampleFrames.flatten.take 3), .arrive ((sampleFrames.flatten.drop 3).take 11),
    .readable ⟨fun _ => 0, fun _ => ⟨fun _ _ => 0, fun _ => 0⟩⟩, .writable (some 2),
    .arrive (sampleFrames.flatten.drop 14),
    .readable ⟨fun _ => 0, fun _ => ⟨fun _ _ => 0, fun _ => 0⟩⟩]

theorem sampleEvents_recognised :
    ∃ s, Transition.run (step Wire.runtime) { req := AnalyseReq.new true } sampleEvents = some s ∧
      s.trace <+: sampleFrames.map (recognition Wire.runtime) ∧
      (s.socket = [] → s.trace = sampleFrames.map (recognition Wire.runtime) ∧
        s.bev.input.contents = [] ∧
        s.wire ++ s.bev.output.contents =
          (sampleFrames.map fun f => (recognition Wire.runtime f).echo).flatten) :=
  socket_stream_recognised Wire.runtime sampleFrames sampleFrames_wellFormed (by decide)
    sampleEvents (by decide) true

end Connection

end EglComet
