import EglComet.AnalyseReq.Delimited
import EglComet.WorkThread.Custody
import EglComet.WorkThread.LiveKeys

/-!
The byte stream each client receives. Callbacks of every worker append to the
outputs of connections: echoes, login replies, forwarded records, notices and
friend lists. The output of a connection is what was sent to it, entry by
entry, and every entry is made of whole frames, apart from two kinds that the
encoders and the relay of overlong frames can produce. A stream without those
is cut into frames in one way only.
-/
namespace EglComet

open Protobuf PrefixCode

/-- A frame that one of the encoders wrote. -/
def Encoded (bs : Bytes) : Prop := ∃ ttl propertyId src, bs = frameOf ttl propertyId src

/-- A notice of the server that is to be forwarded holds one encoded frame. -/
def TransData.Noticed (d : TransData) : Prop :=
  d.origin = .server → d.msgType = .trans → Encoded (d.data.take d.dataSize.toNat)

/-- What each source of bytes appends. -/
def Sent.Shaped (e : Sent) : Prop :=
  match e.source with
  | .echo => ∃ frames : List Bytes, (∀ f ∈ frames, HeartbeatFrame f) ∧ e.bytes = frames.flatten
  | .relay d =>
    e.bytes = d.data.take d.dataSize.toNat ∧ (d.origin = .server → Encoded e.bytes)
  | _ => Encoded e.bytes

namespace Server

/-- All bytes sent to a connection so far, oldest first. -/
def stream (s : Server) (conn : ℕ) : Bytes :=
  s.sent.flatMap fun e => if e.conn = conn then e.bytes else []

/-- Every output is the stream of its connection, no connection lives at two addresses, and nothing
was sent to a connection that is still to come. -/
structure Streamed (s : Server) : Prop where
  output : ∀ b be c, s.heap.lookup b = some be → be.owner.connection = some c →
    be.output = s.stream c.2
  apart : ∀ b b' c c', s.client b = some c → s.client b' = some c' → c.2 = c'.2 → b = b'
  live : ∀ b c, s.client b = some c → c.2 < s.nextConn
  past : ∀ e ∈ s.sent, e.conn < s.nextConn
  shaped : ∀ e ∈ s.sent, e.Shaped
  noticed : ∀ w, ∀ d ∈ (s.workThread w).newMsgFd, d.Noticed

variable {s t : Server}

section Operations

/-- An operation that leaves the bufferevents and the history of bytes alone. -/
theorem Streamed.keep (h : s.Streamed) (hh : t.heap = s.heap) (hs : t.sent = s.sent)
    (hn : s.nextConn ≤ t.nextConn)
    (hq : ∀ w, ∀ d ∈ (t.workThread w).newMsgFd, d ∈ (s.workThread w).newMsgFd ∨ d.Noticed) :
    t.Streamed where
  output b be c hb hc := by
    rw [hh] at hb
    simpa only [stream, hs] using h.output b be c hb hc
  apart b b' c c' hb hb' := h.apart b b' c c' (by rwa [client, ← hh]) (by rwa [client, ← hh])
  live b c hb := (h.live b c (by rwa [client, ← hh])).trans_le hn
  past e he := (h.past e (hs ▸ he)).trans_le hn
  shaped e he := h.shaped e (hs ▸ he)
  noticed w d hd := (hq w d hd).elim (h.noticed w d) id

theorem Streamed.emit (h : s.Streamed) (o : Obs) : (s.emit o).Streamed :=
  h.keep rfl rfl le_rfl fun _ _ hd => Or.inl hd

theorem Streamed.setWrites (h : s.Streamed) (n : ℕ) : (s.setWrites n).Streamed :=
  h.keep rfl rfl le_rfl fun _ _ hd => Or.inl hd

theorem Streamed.nextSeq (h : s.Streamed) : ({ s with nextSeq := s.nextSeq + 1 }).Streamed :=
  h.keep rfl rfl le_rfl fun _ _ hd => Or.inl hd

theorem Streamed.modify (h : s.Streamed) {w : ℕ} {f : WorkThread → WorkThread}
    (hf : ∀ d ∈ (f (s.workThread w)).newMsgFd, d ∈ (s.workThread w).newMsgFd ∨ d.Noticed) :
    (s.modify w f).Streamed := by
  refine h.keep rfl rfl le_rfl fun v d hd => ?_
  by_cases hv : v = w
  · subst hv
    simp only [Server.modify, Function.update_self] at hd
    exact hf d hd
  · simp only [Server.modify, Function.update_of_ne hv] at hd
    exact Or.inl hd

theorem Streamed.redisAsyncCommand (h : s.Streamed) (w : ℕ) (cmd : RedisCommand) :
    (s.redisAsyncCommand w cmd).Streamed :=
  h.modify fun _ hd => Or.inl hd

theorem Streamed.setAnalyseReq (h : s.Streamed) (w : ℕ) (a : AnalyseReq) :
    (s.setAnalyseReq w a).Streamed :=
  h.modify fun _ hd => Or.inl hd

theorem Streamed.bufferEventFree (h : s.Streamed) (b : Addr) : (s.bufferEventFree b).Streamed := by
  have hclient : ∀ {a c}, (s.bufferEventFree b).client a = some c → s.client a = some c := by
    intro a c ha
    simp only [client, clientIn, Server.bufferEventFree, setHeap, Table.lookup_erase_eq] at ha ⊢
    split_ifs at ha
    · simp at ha
    · exact ha
  exact { h with
    output := fun a be c ha hc => h.output a be c (Table.lookup_of_erase ha) hc
    apart := fun a a' c c' ha ha' => h.apart a a' c c' (hclient ha) (hclient ha')
    live := fun a c ha => h.live a c (hclient ha) }

/-- A bufferevent of an HTTP check. -/
theorem Streamed.place (h : s.Streamed) {a : Addr} {be : BufferEvent}
    (ho : be.owner.connection = none) : (s.setHeap (s.heap.insert a be)).Streamed := by
  have hclient : ∀ {b c}, (s.setHeap (s.heap.insert a be)).client b = some c →
      s.client b = some c := by
    intro b c hb
    rw [client_setHeap_insert] at hb
    split_ifs at hb
    · simp [ho] at hb
    · exact hb
  refine { h with
    output := fun b be' c hb hc => ?_
    apart := fun b b' c c' hb hb' => h.apart b b' c c' (hclient hb) (hclient hb')
    live := fun b c hb => h.live b c (hclient hb) }
  simp only [setHeap, Table.lookup_insert_eq] at hb
  split_ifs at hb
  · obtain rfl := Option.some.inj hb
    simp [ho] at hc
  · exact h.output b be' c hb hc

theorem stream_append (s : Server) (e : Sent) (conn : ℕ) :
    ({ s with sent := s.sent ++ [e] } : Server).stream conn =
      s.stream conn ++ if e.conn = conn then e.bytes else [] := by
  simp [stream]

/-- Bytes that are appended to an output go into the stream of the connection that lives there. -/
theorem Streamed.write (h : s.Streamed) {b : Addr} {be be' : BufferEvent} {o : Owner}
    {source : Source} {bs : Bytes} (hb : s.heap.lookup b = some be) (hbo : be.owner = o)
    (ho : be'.owner = o) (hout : be'.output = be.output ++ bs)
    (hE : ∀ conn, Sent.Shaped ⟨conn, source, bs⟩) :
    ((s.setHeap (s.heap.insert b be')).recordSent o source bs).Streamed := by
  subst hbo
  cases hc : be.owner.connection with
  | none =>
    simp only [recordSent, hc]
    exact h.place (ho ▸ hc)
  | some c =>
    simp only [recordSent, hc]
    have hself : s.client b = some c := by rw [client_of_lookup hb, hc]
    have hclient : ∀ {a d}, (s.setHeap (s.heap.insert b be')).client a = some d →
        s.client a = some d := by
      intro a d ha
      rw [client_setHeap_insert, ho, hc] at ha
      split_ifs at ha with hab
      · rw [hab, hself, ← ha]
      · exact ha
    refine ⟨?_, ?_, ?_, ?_, ?_, h.noticed⟩
    · intro a be'' d ha hd
      rw [stream_append]
      simp only [setHeap, Table.lookup_insert_eq] at ha
      split_ifs at ha with hab
      · obtain rfl := Option.some.inj ha
        obtain rfl : c = d := Option.some.inj (by rw [← hc, ← hd, ho])
        rw [hout, if_pos rfl, h.output b be c hb hc]
        rfl
      · -- another connection has another number, and its stream is as before
        have hne : c.2 ≠ d.2 := fun heq =>
          hab (h.apart a b d c (by rw [client_of_lookup ha, hd]) hself heq.symm)
        rw [if_neg hne, List.append_nil]
        exact h.output a be'' d ha hd
    · exact fun a a' d d' ha ha' => h.apart a a' d d' (hclient ha) (hclient ha')
    · exact fun a d ha => h.live a d (hclient ha)
    · intro e he
      rcases List.mem_append.mp he with hold | hnew
      · exact h.past e hold
      · rw [List.mem_singleton.mp hnew]
        exact h.live b c hself
    · intro e he
      rcases List.mem_append.mp he with hold | hnew
      · exact h.shaped e hold
      · rw [List.mem_singleton.mp hnew]
        exact hE c.2

theorem Streamed.addOutput (h : s.Streamed) (b : Addr) {source : Source} {bs : Bytes}
    (hE : ∀ conn, Sent.Shaped ⟨conn, source, bs⟩) : (s.addOutput b source bs).Streamed := by
  unfold Server.addOutput
  cases hb : s.heap.lookup b with
  | none => exact h.emit _
  | some be => exact h.write hb rfl rfl rfl hE

/-- A new connection starts with an empty stream. -/
theorem Streamed.newConnection (h : s.Streamed) (env : Env) (w : ℕ) :
    (s.newConnection env w).Streamed := by
  have hempty : s.stream s.nextConn = [] := by
    refine List.flatMap_eq_nil_iff.mpr fun e he => if_neg ?_
    exact (h.past e he).ne
  have hi : ({ s with nextConn := s.nextConn + 1 }.setHeap
      (s.heap.insert (env.alloc.next s.heap) { owner := .client w s.nextConn })).Streamed := by
    have hclient : ∀ {a d}, (s.setHeap (s.heap.insert (env.alloc.next s.heap)
        { owner := .client w s.nextConn })).client a = some d →
        a = env.alloc.next s.heap ∧ d = (w, s.nextConn) ∨ s.client a = some d := by
      intro a d ha
      rw [client_setHeap_insert] at ha
      split_ifs at ha with hab
      · exact Or.inl ⟨hab, (Option.some.inj ha).symm⟩
      · exact Or.inr ha
    refine ⟨?_, ?_, ?_, ?_, h.shaped, h.noticed⟩
    · intro a be d ha hd
      simp only [setHeap, Table.lookup_insert_eq] at ha
      split_ifs at ha
      · obtain rfl := Option.some.inj ha
        obtain rfl := Option.some.inj hd
        exact hempty.symm
      · exact h.output a be d ha hd
    · intro a a' d d' ha ha' heq
      rcases hclient ha with ⟨rfl, rfl⟩ | hold <;> rcases hclient ha' with ⟨rfl, rfl⟩ | hold'
      · rfl
      · exact absurd heq (h.live a' d' hold').ne'
      · exact absurd heq (h.live a d hold).ne
      · exact h.apart a a' d d' hold hold' heq
    · intro a d ha
      rcases hclient ha with ⟨-, rfl⟩ | hold
      · exact Nat.lt_succ_self _
      · exact (h.live a d hold).trans (Nat.lt_succ_self _)
    · exact fun e he => (h.past e he).trans (Nat.lt_succ_self _)
  exact (hi.modify fun _ hd => Or.inl hd).emit _

theorem Streamed.requestOffline (h : s.Streamed) (w : ℕ) (id : UInt64) :
    (s.requestOffline w id).Streamed := by
  unfold Server.requestOffline
  split_ifs
  · exact h.redisAsyncCommand w _
  · exact h

theorem Streamed.foldl {α : Type} {f : Server → α → Server}
    (hf : ∀ s a, s.Streamed → (f s a).Streamed) (as : List α) (h : s.Streamed) :
    (as.foldl f s).Streamed := by
  induction as generalizing s with
  | nil => exact h
  | cons a as ih => exact ih (hf s a h)

end Operations

section Pipes

variable {env : Env}

theorem Streamed.notifyNewMsg (h : s.Streamed) (j : ℕ) {d : TransData} (hd : d.Noticed) :
    (notifyNewMsg env s j d).2.Streamed := by
  rw [notifyNewMsg_eq]
  split_ifs
  · refine ((h.setWrites _).modify (w := j) (f := fun t => { t with newMsgFd := t.newMsgFd ++ [d] })
      fun d' hd' => ?_).emit _
    rcases List.mem_append.mp hd' with hold | hnew
    · exact Or.inl hold
    · rw [List.mem_singleton.mp hnew]
      exact Or.inr hd
  · exact h.setWrites _
  · exact h

theorem Streamed.offer {d : TransData} (hd : d.Noticed) (js : List ℕ) (h : s.Streamed) :
    (offer env d js s).2.Streamed := by
  induction js generalizing s with
  | nil => exact h
  | cons j js ih =>
    simp only [Server.offer]
    split_ifs
    · exact h.notifyNewMsg j hd
    · exact ih (h.notifyNewMsg j hd)

theorem Streamed.transmit (h : s.Streamed) {d : TransData} (hd : d.Noticed) :
    (s.transmit env d).Streamed := by
  have ho : (sendMessage env s d).2.Streamed := h.offer hd _
  simp only [Server.transmit]
  split_ifs
  · exact ho
  · exact ho.emit _

/-- A record of a client is no notice. -/
theorem Relay.noticed (w seq : ℕ) (l : TransData) : (stampRelay w seq l).toTransData.Noticed :=
  fun ho => absurd ho (by simp [stampRelay])

theorem Streamed.notifyDelId (env : Env) (id : UInt64) (s : Server) (j : ℕ) (h : s.Streamed) :
    (notifyDelId env id s j).Streamed := by
  have hn : (Server.notifyNewMsg env _ j _).2.Streamed := h.nextSeq.notifyNewMsg j
    (d := { toId := id, msgType := .delId, seq := s.nextSeq, origin := .server }) (by rintro - ⟨⟩)
  simp only [Server.notifyDelId]
  split_ifs
  · exact hn
  · exact hn.emit _
  · exact h

theorem encoded_packData (src : Bytes) (propertyId : ℕ) (mem : ℕ → UInt8) :
    Encoded (packData src propertyId mem) :=
  ⟨mem 2, 12, src, packData_eq src propertyId mem⟩

theorem Streamed.notifyFriend (h : s.Streamed) {id toId : UInt64} {frame : Bytes}
    {x : TransData × Bool × Server} (hf : Encoded frame)
    (hx : notifyFriend env id frame s toId = some x) : x.2.2.Streamed := by
  obtain ⟨j, -, rfl⟩ := Option.map_eq_some_iff.mp hx
  refine h.nextSeq.notifyNewMsg j fun _ _ => ?_
  simpa using hf

theorem Streamed.onlineFriends {id : UInt64} {frame : Bytes} (hf : Encoded frame)
    (strs : List Bytes) (acc : Server × Bytes) (h : acc.1.Streamed) :
    (strs.foldl (onlineFriend env id frame) acc).1.Streamed := by
  induction strs generalizing acc with
  | nil => exact h
  | cons str strs ih =>
    apply ih
    unfold onlineFriend
    split
    · rename_i d sent t ht
      have hn : t.Streamed := h.notifyFriend hf ht
      cases sent
      · exact hn.emit _
      · exact hn
    · exact h

theorem Streamed.offlineFriend {id : UInt64} {frame : Bytes} (hf : Encoded frame) (s : Server)
    (str : Bytes) (h : s.Streamed) : (offlineFriend env id frame s str).Streamed := by
  unfold Server.offlineFriend
  split
  · rename_i ht
    exact h.notifyFriend hf ht
  · exact h

end Pipes

section Callbacks

variable {env : Env}

theorem Streamed.notifyNewConn (fd : ℤ) (s : Server) (j : ℕ) (h : s.Streamed) :
    (notifyNewConn env fd s j).Streamed := by
  simp only [Server.notifyNewConn]
  split_ifs
  · exact (h.setWrites _).modify fun _ hd => Or.inl hd
  · exact h.setWrites _

theorem Streamed.bufferEventEventCallback (h : s.Streamed) (w : ℕ) (b : Addr) (flags : Flags) :
    (s.bufferEventEventCallback w b flags).Streamed := by
  simp only [Server.bufferEventEventCallback]
  split_ifs
  · exact (((((h.emit _).modify fun _ hd => Or.inl hd).modify fun _ hd => Or.inl hd).bufferEventFree
      b).requestOffline w _)
  · exact ((((h.emit _).modify fun _ hd => Or.inl hd).bufferEventFree b).requestOffline w _)
  · exact h

theorem Streamed.expireEntry (w : ℕ) (now : ℤ) (s : Server) (b : Addr) (h : s.Streamed) :
    (expireEntry w now s b).Streamed := by
  unfold Server.expireEntry
  split
  · exact h
  · split
    · exact h
    · simp only
      split_ifs
      · exact ((((h.emit _).bufferEventFree b).modify fun _ hd => Or.inl hd).requestOffline w _)
      · exact h

theorem Streamed.delExpireClient (h : s.Streamed) (w : ℕ) : (s.delExpireClient env w).Streamed := by
  unfold Server.delExpireClient
  split
  · exact h
  · exact h.foldl (Streamed.expireEntry w _) _

theorem Streamed.newConnLoop {w : ℕ} (items : List ℤ) (i : ℕ) (h : s.Streamed) :
    (newConnLoop env w i items s).Streamed := by
  induction items generalizing i s with
  | nil => exact h
  | cons data rest ih =>
    have hr : (s.modify w fun t => { t with newConnFd := rest }).Streamed :=
      h.modify fun _ hd => Or.inl hd
    simp only [Server.newConnLoop]
    split_ifs
    · exact ih _ (hr.newConnection env w)
    · exact hr.modify fun _ hd => Or.inl hd
    · exact ih _ (hr.delExpireClient w)
    · exact ih _ hr
    · exact hr

theorem Streamed.handleMsg (h : s.Streamed) (w : ℕ) {d : TransData} (hd : d.Noticed) :
    (handleMsg w s d).Streamed := by
  simp only [Server.handleMsg]
  refine Streamed.emit ?_ _
  split
  · rename_i hm
    split
    · exact h.addOutput _ fun _ => ⟨rfl, fun ho => hd ho hm⟩
    · exact h
  · split
    · refine Streamed.modify ?_ fun _ hd => Or.inl hd
      split_ifs
      · exact h.bufferEventFree _
      · exact h.emit _
    · exact h

theorem Streamed.newMsgLoop {w : ℕ} (msgs : List TransData) (h : s.Streamed)
    (hq : ∀ d ∈ msgs, d.Noticed) : (newMsgLoop w msgs s).Streamed := by
  induction msgs generalizing s with
  | nil => exact h
  | cons d ds ih =>
    have hds : ∀ d' ∈ ds, d'.Noticed := fun d' hd' => hq d' (List.mem_cons_of_mem d hd')
    refine ih (Streamed.handleMsg ?_ w (hq d List.mem_cons_self)) hds
    exact h.modify fun d' hd' => Or.inr (hds d' hd')

theorem Streamed.kick (h : s.Streamed) (w : ℕ) (id : UInt64) : (s.kick w id).Streamed := by
  simp only [Server.kick]
  split
  · exact h
  · refine Streamed.modify ?_ fun _ hd => Or.inl hd
    split_ifs
    · exact (h.bufferEventFree _).modify fun _ hd => Or.inl hd
    · exact h

theorem Quiet.streamed (h : s.Streamed) {ev : Event} (hq : s.Quiet env ev t) : t.Streamed := by
  cases hq with
  | acceptConn fd =>
    unfold acceptCallback
    split_ifs
    · exact h.notifyNewConn fd s _
    · exact h
    · exact h
  | timer => exact h.foldl (Streamed.notifyNewConn (-2)) _
  | stop w => exact h.notifyNewConn (-1) s w
  | newConn w => exact h.newConnLoop _ 0
  | newMsg w => exact h.newMsgLoop _ (h.noticed w)
  | clientEvent flags hb => exact h.bufferEventEventCallback _ _ flags

end Callbacks

section Checks

variable {σ : Type} (R : Runtime σ) {env : Env}

theorem Streamed.replyLogin (h : s.Streamed) (d : LoginData) (ok : Bool) (msg : String) :
    (s.replyLogin R env d ok msg).Streamed := by
  let t := s.workThread d.workThread
  have hr : Encoded (getLoginRsp R t.analyseReq ok (ascii msg) t.pingTime env.mem).1 :=
    ⟨0, 11, _, getLoginRsp_eq R _ _ _ _ _⟩
  exact (h.setAnalyseReq _ _).addOutput _ fun _ => hr

theorem Streamed.bindLogin (h : s.Streamed) (d : LoginData) : (s.bindLogin env d).Streamed :=
  ((h.emit _).modify fun _ hd => Or.inl hd).redisAsyncCommand _ _

theorem Streamed.registerLogin (h : s.Streamed) (d : LoginData) (told : List ℕ) :
    (s.registerLogin R env d told).Streamed :=
  (((h.kick _ _).foldl (Streamed.notifyDelId env d.id) told).bindLogin d).replyLogin R d true _

theorem Streamed.httpLoginEvent (h : s.Streamed) (a : Addr) (d : LoginData) (flags : Flags) :
    (s.httpLoginEvent R env a d flags).Streamed := by
  simp only [Server.httpLoginEvent]
  split_ifs
  · exact ((h.replyLogin R d false _).emit _).bufferEventFree a
  · exact (h.emit _).bufferEventFree a
  · split
    · exact (h.setAnalyseReq _ _).place rfl
    · exact (h.setAnalyseReq _ _).emit _
  · exact ((h.setAnalyseReq _ _).bufferEventFree a).emit _
  · exact h

theorem Streamed.httpLoginCheck (h : s.Streamed) (d : LoginData) :
    (s.httpLoginCheck R env d).Streamed := by
  have hp : (s.setHeap (s.heap.insert (env.alloc.next s.heap)
    { owner := .httpLogin d false })).Streamed := h.place rfl
  simp only [Server.httpLoginCheck]
  split
  · exact hp
  · exact ((hp.httpLoginEvent R _ d _).bufferEventFree _).emit _
  · exact (hp.bufferEventFree _).emit _

theorem Streamed.redisLoginCallback (h : s.Streamed) (d : LoginData) (reply : Option RedisReply) :
    (s.redisLoginCallback R env d reply).Streamed := by
  have ht := redisLoginCallback_outcome R env s d reply
  generalize s.redisLoginCallback R env d reply = t at ht ⊢
  cases ht with
  | gone | repeated => exact h.emit _
  | asked => exact h.httpLoginCheck R d
  | refused => exact (h.replyLogin R d false _).emit _
  | accepted => exact (h.registerLogin R d _).emit _

theorem Streamed.httpLoginRead (h : s.Streamed) (a : Addr) (d : LoginData) (data : Bytes) :
    (s.httpLoginRead R env a d data).Streamed := by
  have ht := httpLoginRead_verdict R env s a d data
  generalize s.httpLoginRead R env a d data = t at ht ⊢
  cases ht with
  | gone => exact (h.bufferEventFree a).emit _
  | accepted => exact (((h.setAnalyseReq _ _).registerLogin R d _).bufferEventFree a).emit _
  | refused => exact (((h.setAnalyseReq _ _).replyLogin R d false _).bufferEventFree a).emit _

theorem Streamed.httpTransEvent (h : s.Streamed) (a : Addr) (d : Relay) (flags : Flags) :
    (s.httpTransEvent R env a d flags).Streamed := by
  simp only [Server.httpTransEvent]
  split_ifs
  · exact (h.emit _).bufferEventFree a
  · split
    · exact ((h.setAnalyseReq _ _).emit _).place rfl
    · exact (h.setAnalyseReq _ _).emit _
  · exact ((h.setAnalyseReq _ _).bufferEventFree a).emit _
  · exact h

theorem Streamed.httpTransCheck (h : s.Streamed) (d : Relay) :
    (s.httpTransCheck R env d).Streamed := by
  have hp : (s.setHeap (s.heap.insert (env.alloc.next s.heap)
    { owner := .httpTrans d false })).Streamed := h.place rfl
  simp only [Server.httpTransCheck]
  split
  · exact hp
  · exact ((hp.httpTransEvent R _ d _).bufferEventFree _).emit _
  · exact (hp.bufferEventFree _).emit _

theorem Streamed.httpTransRead (h : s.Streamed) (a : Addr) {d : Relay} (data : Bytes)
    (hd : d.toTransData.Noticed) : (s.httpTransRead R env a d data).Streamed := by
  simp only [Server.httpTransRead]
  refine Streamed.bufferEventFree ?_ a
  split_ifs
  · exact ((h.setAnalyseReq _ _).emit _).transmit hd
  · exact ((h.setAnalyseReq _ _).emit _).emit _

theorem Streamed.redisOnlineNotify (h : s.Streamed) {info : OnlineInfo} {reply : Option RedisReply}
    (ht : s.redisOnlineNotify R env info reply = some t) : t.Streamed := by
  simp only [Server.redisOnlineNotify] at ht
  split_ifs at ht
  · obtain ⟨strs, -, rfl⟩ := Option.map_eq_some_iff.mp ht
    have hf : Encoded (presenceFrame R env info.id 1) := encoded_packData _ 12 _
    exact ((Streamed.onlineFriends hf strs (s, []) h).emit _).addOutput _
      fun _ => encoded_packData _ 12 _
  · obtain rfl := Option.some.inj ht
    exact h

theorem Streamed.redisOfflineNotify (h : s.Streamed) {info : OfflineInfo}
    {reply : Option RedisReply} (ht : s.redisOfflineNotify R env info reply = some t) :
    t.Streamed := by
  obtain ⟨strs, -, rfl⟩ := Option.map_eq_some_iff.mp ht
  exact h.foldl (Streamed.offlineFriend (encoded_packData _ 12 _)) strs

end Checks

section Steps

variable {σ : Type} {R : Runtime σ} {env : Env}

/-- Bytes are moved to the output from a heartbeat only. -/
theorem analyseData_output {mem : ℕ → UInt8} {a : AnalyseReq} {input output : Bytes} {r : Analysed}
    (h : analyseData R mem a input output = some r) :
    r.output = output ∨ byteAt input 1 &&& 0x20 ≠ 0 ∧ r.output = output ++ input.take 4 := by
  unfold analyseData at h
  cases hp : evbufferPullup input 2 with
  | none =>
    obtain rfl : ⟨false, a, input, output⟩ = r := by simpa [hp] using h
    exact Or.inl rfl
  | some data =>
    simp only [hp] at h
    rw [byteAt_pullup hp] at h
    split_ifs at h with hb
    · obtain rfl := Option.some.inj h
      exact Or.inr ⟨hb, rfl⟩
    · left
      cases hc : packCall input with
      | none =>
        obtain rfl : ⟨false, a, input, output⟩ = r := by simpa [hc] using h
        rfl
      | some c =>
        rw [hc] at h
        exact (analysePack_echo R h).2

theorem Streamed.handleRequest (h : s.Streamed) (w : ℕ) (b : Addr) (conn : ℕ) (id : UInt64)
    (r : Analysed) : (handleRequest env w b conn id s r).Streamed := by
  have hl : (startLogin w b conn s r.req.loginData).Streamed := by
    cases r.req.loginData with
    | none => exact h
    | some l => exact (h.nextSeq.redisAsyncCommand w _).emit _
  have hh : (refreshHeartbeat env w b id (startLogin w b conn s r.req.loginData)
      r.req.isHeart).Streamed := by
    unfold refreshHeartbeat
    split
    · split
      · exact (hl.modify fun _ hd => Or.inl hd).emit _
      · exact hl
    · exact hl
  rw [Server.handleRequest]
  cases r.req.transData with
  | none => exact hh
  | some l =>
    simp only [startTrans]
    split_ifs
    · exact (hh.nextSeq.emit _).transmit (Relay.noticed w _ l)
    · exact (hh.nextSeq.emit _).redisAsyncCommand w _
    · exact (hh.nextSeq.emit _).emit _

theorem heap_handleRequest (w : ℕ) (b : Addr) (conn : ℕ) (id : UInt64) (s : Server) (r : Analysed) :
    (handleRequest env w b conn id s r).heap = s.heap := by
  have hl : (startLogin w b conn s r.req.loginData).heap = s.heap := by
    cases r.req.loginData <;> rfl
  have hh : (refreshHeartbeat env w b id (startLogin w b conn s r.req.loginData)
      r.req.isHeart).heap = s.heap := by
    unfold refreshHeartbeat
    split
    · split <;> exact hl
    · exact hl
  rw [handleRequest]
  cases r.req.transData with
  | none => exact hh
  | some l =>
    simp only [startTrans]
    split_ifs
    · rw [heap_transmit]
      exact hh
    · exact hh
    · exact hh

/-- The read callback appends the heartbeats it found, in their order. -/
theorem Streamed.read (h : s.Streamed) {w conn : ℕ} {b : Addr} {input chunk output : Bytes}
    (hb : s.heap.lookup b = some ⟨.client w conn, input, output⟩)
    (ht : s.bufferEventReadCallback R env w conn b ⟨.client w conn, input ++ chunk, output⟩ =
      some t) : t.Streamed := by
  obtain ⟨x, hx, rfl⟩ := Option.map_eq_some_iff.mp ht
  obtain ⟨hs, hheap, frames, hframes, hout⟩ : x.1.Streamed ∧ x.1.heap = s.heap ∧
      ∃ frames : List Bytes, (∀ f ∈ frames, HeartbeatFrame f) ∧
        x.2.2.2 = output ++ frames.flatten := by
    refine readLoop_rule R (P := fun u _ _ out => u.Streamed ∧ u.heap = s.heap ∧
      ∃ frames : List Bytes, (∀ f ∈ frames, HeartbeatFrame f) ∧ out = output ++ frames.flatten)
      ?_ ?_ ⟨h, rfl, [], by simp, by simp⟩ hx
    · rintro u a inp out r ⟨hu, hheap, frames, hframes, rfl⟩ hlen hcall -
      refine ⟨hu.handleRequest .., (heap_handleRequest ..).trans hheap, ?_⟩
      rcases analyseData_output hcall with hout | ⟨hbit, hout⟩
      · exact ⟨frames, hframes, hout⟩
      · refine ⟨frames ++ [inp.take 4], ?_, by simp [hout]⟩
        intro f hf
        rcases List.mem_append.mp hf with hold | hnew
        · exact hframes f hold
        · rw [List.mem_singleton.mp hnew]
          exact ⟨by simp; omega, by rwa [byteAt_take (by decide)]⟩
    · rintro u a inp out r ⟨hu, hheap, hframes⟩ hcall hret
      refine ⟨hu, hheap, ?_⟩
      rcases analyseData_echo R hcall with ⟨htrue, -⟩ | ⟨-, hout⟩
      · exact absurd htrue hret
      · rwa [hout]
  have hb' : (x.1.setAnalyseReq w x.2.1).heap.lookup b = some ⟨.client w conn, input, output⟩ := by
    rw [← hb, ← hheap]
    rfl
  refine (hs.setAnalyseReq w x.2.1).write hb' rfl rfl ?_ fun _ => ⟨frames, hframes, ?_⟩
  · simp [hout]
  · simp [hout]

/-- A record that was read is a client's. -/
theorem Kept.noticed (hk : s.Kept R) {d : Relay} (hd : ReadFrom s.log d) :
    d.toTransData.Noticed := by
  obtain ⟨-, w, b, hlog⟩ := hd
  obtain ⟨mem, rest, l, -, he⟩ := hk.framed _ hlog
  rw [he]
  exact Relay.noticed w d.seq l

theorem Streamed.step {x : Env × Event} (h : s.Streamed) (hk : s.Kept R)
    (ht : step R s x = some t) : t.Streamed := by
  obtain ⟨env, ev⟩ := x
  rcases step_cases R ht with hq | ha
  · exact hq.streamed h
  cases ha with
  | clientRead hb ht => exact h.read hb ht
  | @redisReply w i reply cmd _ hc ht =>
    have hu : (s.takeCommand w i cmd reply).Streamed := (h.modify fun _ hd => Or.inl hd).emit _
    cases hcb : cmd.callback with
    | login d =>
      rw [hcb] at ht
      obtain rfl := Option.some.inj ht
      exact hu.redisLoginCallback R d reply
    | trans d =>
      rw [hcb] at ht
      obtain ⟨r, -, rfl⟩ := Option.map_eq_some_iff.mp ht
      split_ifs
      · exact hu.httpTransCheck R d
      · exact hu.transmit (hk.noticed (hk.provenance.redis w cmd (List.mem_of_getElem? hc) d hcb).2)
    | online info =>
      rw [hcb] at ht
      exact hu.redisOnlineNotify R ht
    | offline info =>
      rw [hcb] at ht
      exact hu.redisOfflineNotify R ht
  | loginRead d hb => exact h.httpLoginRead R _ d _
  | transRead d hb =>
    exact h.httpTransRead R _ _ (hk.noticed (hk.provenance.http _ _ hb d true rfl).1)
  | loginEvent d sent hb => exact h.httpLoginEvent R _ d _
  | transEvent d sent hb => exact h.httpTransEvent R _ d _

theorem streamed_started (h : s.Started) : s.Streamed := by
  obtain ⟨num, cap, ping, url, heart, rfl⟩ := h
  constructor <;> simp [start, client, clientIn]

theorem streamed_reached {ok : Server → Env × Event → Prop} (h : Reached R ok s) :
    s.Streamed ∧ s.Kept R :=
  Transition.Reach.invariant (P := fun s => s.Streamed ∧ s.Kept R)
    (fun _ hs => ⟨streamed_started hs, kept_started hs⟩)
    (fun _ _ _ hs _ ht => ⟨hs.1.step hs.2 ht, hs.2.step ht⟩) h

end Steps

section Frames

variable {σ : Type} {R : Runtime σ}

/-- An entry that a reader of the stream cannot delimit: a forwarded record of which only a part of
the head was taken, or an encoded frame whose length field does not say its length. -/
def Broken (e : Sent) : Prop :=
  (∃ d, e.source = .relay d ∧ Cut e.bytes) ∨
    ∃ ttl propertyId src, e.bytes = frameOf ttl propertyId src ∧
      (src.length = 0xFF00 ∨ 2 ^ 32 ≤ src.length)

theorem Encoded.frames {bs : Bytes} (h : Encoded bs)
    (hn : ¬ ∃ ttl propertyId src, bs = frameOf ttl propertyId src ∧
      (src.length = 0xFF00 ∨ 2 ^ 32 ≤ src.length)) :
    ∃ frames : List Bytes, (∀ f ∈ frames, Complete f) ∧ frames.flatten = bs := by
  obtain ⟨ttl, propertyId, src, rfl⟩ := h
  refine ⟨[frameOf ttl propertyId src], ?_, by simp⟩
  simp only [List.mem_singleton, forall_eq]
  apply complete_frameOf
  · exact fun hm => hn ⟨ttl, propertyId, src, rfl, Or.inl hm⟩
  · exact not_le.mp fun hm => hn ⟨ttl, propertyId, src, rfl, Or.inr hm⟩

/-- Every entry that is not broken is made of whole frames. -/
theorem frames_of_sent (h : s.Streamed) (hk : s.Kept R) {e : Sent} (he : e ∈ s.sent)
    (hn : ¬ Broken e) :
    ∃ frames : List Bytes, (∀ f ∈ frames, Complete f) ∧ frames.flatten = e.bytes := by
  have hs := h.shaped e he
  have hrec := hk.recorded.sent e he
  have hown := not_or.mp hn
  obtain ⟨conn, source, bs⟩ := e
  cases source with
  | echo =>
    obtain ⟨frames, hframes, hbs⟩ := hs
    exact ⟨frames, fun f hf => .heartbeat (hframes f hf), hbs.symm⟩
  | loginRsp d ok => exact Encoded.frames hs hown.2
  | friends info => exact Encoded.frames hs hown.2
  | relay d =>
    cases ho : d.origin with
    | server => exact Encoded.frames (hs.2 ho) hown.2
    | client =>
      obtain ⟨hbs, r, rfl, -, w, b, hread⟩ := hrec ho
      simp only at hbs
      rw [hk.take_data hread] at hbs
      obtain ⟨mem, rest, l, hy, hst⟩ := hk.framed _ hread
      have hdata : r.data = l.data := by
        rw [hst]
        rfl
      rcases hy.complete_or_cut with hcomp | hcut
      · refine ⟨[bs], ?_, by simp⟩
        simpa [hbs, hdata] using hcomp
      · refine absurd ⟨_, rfl, ?_⟩ hown.1
        simpa [hbs, hdata] using hcut

/-- Pieces that are each made of whole frames are so together. -/
theorem frames_flatMap {α : Type} {g : α → Bytes} (as : List α)
    (h : ∀ a ∈ as, ∃ frames : List Bytes, (∀ f ∈ frames, Complete f) ∧ frames.flatten = g a) :
    ∃ frames : List Bytes, (∀ f ∈ frames, Complete f) ∧ frames.flatten = as.flatMap g := by
  induction as with
  | nil => exact ⟨[], by simp, rfl⟩
  | cons a as ih =>
    obtain ⟨frames, hframes, hflat⟩ := h a List.mem_cons_self
    obtain ⟨rest, hrest, hflat'⟩ := ih fun a' ha' => h a' (List.mem_cons_of_mem a ha')
    refine ⟨frames ++ rest, ?_, by simp [hflat, hflat']⟩
    exact fun f hf => (List.mem_append.mp hf).elim (hframes f) (hrest f)

/-- In every run, whatever the order of the callbacks of all workers, the output of a connection is
the concatenation of what was sent to it and to nobody else, and it is cut into whole frames in
exactly one way, provided that no entry of it is broken. -/
theorem client_stream_framed {ok : Server → Env × Event → Prop} (h : Reached R ok s) {b : Addr}
    {w conn : ℕ} {input output : Bytes}
    (hb : s.heap.lookup b = some ⟨.client w conn, input, output⟩)
    (hn : ∀ e ∈ s.sent, e.conn = conn → ¬ Broken e) :
    output = s.stream conn ∧
      (∀ e ∈ s.sent, e.conn = conn → ∃ frames : List Bytes, (∀ f ∈ frames, Complete f) ∧
        frames.flatten = e.bytes) ∧
      ∃! frames : List Bytes, (∀ f ∈ frames, Complete f) ∧ frames.flatten = output := by
  obtain ⟨hs, hk⟩ := streamed_reached h
  have hout : output = s.stream conn := hs.output b _ (w, conn) hb rfl
  have hentry : ∀ e ∈ s.sent, e.conn = conn → ∃ frames : List Bytes, (∀ f ∈ frames, Complete f) ∧
      frames.flatten = e.bytes := fun e he hc => frames_of_sent hs hk he (hn e he hc)
  refine ⟨hout, hentry, ?_⟩
  obtain ⟨frames, hframes, hflat⟩ := frames_flatMap
    (g := fun e => if e.conn = conn then e.bytes else []) s.sent (by
      intro e he
      split_ifs with hc
      · exact hentry e he hc
      · exact ⟨[], by simp, rfl⟩)
  refine ⟨frames, ⟨hframes, hflat.trans hout.symm⟩, ?_⟩
  rintro frames' ⟨hframes', hflat'⟩
  exact isPrefixCode_complete.flatten_inj hframes' hframes
    (hflat'.trans (hout.trans hflat.symm))

/-- A short entry that is an echo or holds its own head is not broken. -/
theorem not_broken_of_short {e : Sent} (hlen : e.bytes.length < 0xFF00)
    (hcut : e.source = .echo ∨ ¬ Cut e.bytes) : ¬ Broken e := by
  rintro (⟨d, hd, hc⟩ | ⟨ttl, propertyId, src, hbs, hsrc⟩)
  · rcases hcut with hecho | hcut
    · simp [hecho] at hd
    · exact hcut hc
  · rw [hbs, length_frameOf] at hlen
    omega

/-- A login is answered and a heartbeat comes back on the same connection. -/
theorem login_heartbeat_framed :
    ∃ s input output, Reached Wire.runtime (fun _ _ => True) s ∧
      s.heap.lookup 1 = some ⟨.client 0 0, input, output⟩ ∧
      ⟨0, .echo, [0x15, 0x20, 0x00, 0x00]⟩ ∈ s.sent ∧
      ∃! frames : List Bytes, (∀ f ∈ frames, Complete f) ∧ frames.flatten = output := by
  obtain ⟨s, hs, hb, hecho, hshort⟩ := exists_reached Wire.runtime 1
    (connect 0 1 ++ login 0 1 7 ++ [(plainEnv 1, .clientRead 1 [0x15, 0x20, 0x00, 0x00])])
    (fun _ _ => True)
    (fun s => (s.heap.lookup 1).any (fun be => be.owner = .client 0 0) = true ∧
      ⟨0, .echo, [0x15, 0x20, 0x00, 0x00]⟩ ∈ s.sent ∧
      ∀ e ∈ s.sent, e.bytes.length < 0xFF00 ∧ (e.source = .echo ∨ ¬ Cut e.bytes))
    (.of_forall (by simp) _) (by decide +kernel)
  obtain ⟨⟨owner, input, output⟩, hbe, ho⟩ := (Option.any_eq_true _ _).mp hb
  obtain rfl : owner = .client 0 0 := by simpa using ho
  have hn : ∀ e ∈ s.sent, e.conn = 0 → ¬ Broken e := fun e he _ =>
    not_broken_of_short (hshort e he).1 (hshort e he).2
  exact ⟨s, input, output, hs, hbe, hecho, (client_stream_framed hs hbe hn).2.2⟩

end Frames

end Server

end EglComet
