import EglComet.WorkThread.Custody
import EglComet.WorkThread.Sessions

/-!
Delivery of relayed messages. A record is put into the pipe of the first worker
that has the recipient, and stays there until that worker reads its pipe; it
reaches the recipient's connection if that worker is the connection's own.
-/
namespace EglComet

open Protobuf

namespace Server

/-- Id `id` is subscribed on connection `conn`, which is at `b` on worker `w`. -/
def SubscribedOn (s : Server) (w : ℕ) (b : Addr) (conn : ℕ) (id : UInt64) : Prop :=
  w < s.workThreadNum ∧ ((s.workThread w).subMap.lookup id).map Subscriber.bev = some b ∧
    s.client b = some (w, conn)

instance (s : Server) (w : ℕ) (b : Addr) (conn : ℕ) (id : UInt64) :
    Decidable (s.SubscribedOn w b conn id) :=
  inferInstanceAs (Decidable (_ ∧ _ ∧ _))

/-- The event `x`, which leads from `s` to `t`, hands record `d` to the workers: it was read by this
event and needs no relation check, or its check ends with this event. -/
inductive Dispatches {σ : Type} (R : Runtime σ) (s : Server) (x : Env × Event) (t : Server)
    (d : Relay) : Prop where
  | read {w conn : ℕ} {b : Addr} {buffer : Bytes} {id : UInt64} (hr : s.Reads x w b conn buffer)
      (hd : .relayRead w b id d ∈ t.log.drop s.log.length)
      (hid : (s.workThread w).bevId.lookup b = some d.fromId) (h0 : d.fromId ≠ 0)
      (hwide : (wideId d.fromId || wideId d.toId) = true)
  | redis {w i : ℕ} {r : RedisReply} {c : RedisCommand} (hx : x.2 = .redisReply w i (some r))
      (hc : (s.workThread w).redis[i]? = some c) (hcb : c.callback = .trans d)
      (hr : r.type = .string)
  | http {h : Addr} {chunk input output : Bytes} (hx : x.2 = .httpRead h chunk)
      (hb : s.heap.lookup h = some ⟨.httpTrans d true, input, output⟩)
      (hr : (analyseRelationData R (s.workThread d.workThread).analyseReq (input ++ chunk)).1 =
        true)

section Loop

variable {s t : Server} {w conn : ℕ} {b : Addr}

/-- Items that are no sessions. -/
def Sessionless (i : Item) : Prop := ∀ w id sub, i ≠ .sub w id sub

theorem tolerant_sessionless : Tolerant Sessionless := by
  constructor <;> simp [Sessionless]

/-- A session on an old connection was there before, if no session was entered in between. -/
theorem session_of_grows {id : UInt64} (hg : Grows Sessionless s t) (hn : conn < s.nextConn)
    (hb : ((t.workThread w).subMap.lookup id).map Subscriber.bev = some b)
    (hc : t.client b = some (w, conn)) :
    ∃ sub, (s.workThread w).subMap.lookup id = some sub ∧ s.occupant sub.bev = some conn := by
  obtain ⟨sub, hsub, rfl⟩ := Option.map_eq_some_iff.mp hb
  refine ⟨sub, (hg.subs w id sub hsub).resolve_right fun h => h w id sub rfl, ?_⟩
  have hold : s.client sub.bev = some (w, conn) :=
    (hg.clients _ _ hc).resolve_right fun h => absurd h.1 (not_le.mpr hn)
  simp [occupant, hold]

/-- Reading a pipe forwards every record for an id that keeps its session. -/
theorem newMsgLoop_forwards {d : TransData} {msgs : List TransData}
    (hq : (s.workThread w).newMsgFd = msgs) (hn : conn < s.nextConn) (hd : d ∈ msgs)
    (hm : d.msgType = .trans)
    (hb : (((newMsgLoop w msgs s).workThread w).subMap.lookup d.toId).map Subscriber.bev = some b)
    (hc : (newMsgLoop w msgs s).client b = some (w, conn)) :
    ⟨conn, .relay d, d.data.take d.dataSize.toNat⟩ ∈ (newMsgLoop w msgs s).sent := by
  induction msgs generalizing s with
  | nil => simp at hd
  | cons m ms ih =>
    let v := s.modify w fun t => { t with newMsgFd := ms }
    have hv : Grows Sessionless v (handleMsg w v m) :=
      grows_handleMsg tolerant_sessionless (by simp [Sessionless]) (by simp [Sessionless])
    have hqv : ((handleMsg w v m).workThread w).newMsgFd = ms := by
      rw [newMsgFd_handleMsg]
      simp [v, modify]
    rcases List.mem_cons.mp hd with rfl | hd
    · have hg : Grows Sessionless (handleMsg w v d) (newMsgLoop w ms (handleMsg w v d)) :=
        grows_newMsgLoop tolerant_sessionless (by simp [Sessionless]) ms
          (by simp [Sessionless]) (by simp [Sessionless]) _ hqv
      obtain ⟨sub, hsub, hocc⟩ := session_of_grows (hv.trans hg) hn hb hc
      obtain ⟨added, hs, -⟩ := hg.sent
      refine hs ▸ List.mem_append_left added ?_
      rw [sent_handleMsg, hm, hsub]
      simp [entryAt, hocc]
    · exact ih hqv (hn.trans_le hv.nextConn) hd hb hc

end Loop

section Dispatch

variable {s t : Server} {w : ℕ} {env : Env}

/-- With reliable pipes a record goes to the first worker that has the recipient. -/
theorem transmit_first {d : TransData} (hw : ∀ n, env.write n = .full) (hlt : w < s.workThreadNum)
    (hin : d.toId ∈ (s.workThread w).subMap) (hfirst : ∀ j < w, d.toId ∉ (s.workThread j).subMap) :
    ∃ n, s.transmit env d = (s.setWrites n).enqueue w d := by
  have hfind : (List.range s.workThreadNum).find?
      (fun j => decide (d.toId ∈ (s.workThread j).subMap)) =
      some w := by
    rw [List.find?_range_eq_some]
    simpa [hin, hlt] using hfirst
  have htaker := taker_reliable hw s.workThread d.toId (List.range s.workThreadNum) s.writes
  rw [transmit_eq]
  generalize taker env s.workThread d.toId (List.range s.workThreadNum) s.writes = r at htaker ⊢
  obtain ⟨j, n⟩ := r
  obtain rfl : j = some w := htaker.trans hfind
  exact ⟨n, rfl⟩

/-- The tables may be those of an earlier state of the same callback. -/
theorem mem_transmit {d : TransData} (hr : t.registry = s.registry)
    (hw : ∀ n, env.write n = .full) (hlt : w < s.workThreadNum)
    (hin : d.toId ∈ (s.workThread w).subMap) (hfirst : ∀ j < w, d.toId ∉ (s.workThread j).subMap) :
    d ∈ ((t.transmit env d).workThread w).newMsgFd := by
  have hnum : t.workThreadNum = s.workThreadNum := congrArg Registry.num hr
  have hmem : ∀ j, d.toId ∈ (t.workThread j).subMap ↔ d.toId ∈ (s.workThread j).subMap :=
    fun j => mem_subMap_of_registry_eq hr
  obtain ⟨n, he⟩ := transmit_first hw (hnum ▸ hlt) ((hmem w).mpr hin) fun j hj hm =>
    hfirst j hj ((hmem j).mp hm)
  rw [he]
  simp [enqueue, modify, emit]

/-- What is added while no pipe is read and the records that are read satisfy `P`. -/
def Reading (P : Relay → Prop) : Item → Prop
  | .obs (.relayRead _ _ _ r) => P r
  | .popped _ => False
  | _ => True

theorem tolerant_reading (P : Relay → Prop) : Tolerant (Reading P) where
  obs o ho := by cases o <;> simp_all [Reading, Obs.minor]
  offline _ _ := trivial
  client _ _ := trivial
  sent _ _ := trivial

theorem Grows.mem_pipe {P : Relay → Prop} {d : TransData} (h : Grows (Reading P) s t)
    (hd : d ∈ (s.workThread w).newMsgFd) : d ∈ (t.workThread w).newMsgFd :=
  ((h.popped w).resolve_right id).subset hd

/-- Record `d` is in the pipe of worker `w` if it was read after the first `n` entries of the
history. -/
def QueuedSince (n w : ℕ) (d : Relay) (s : Server) : Prop :=
  n ≤ s.log.length ∧ ((∃ v b id, .relayRead v b id d ∈ s.log.drop n) →
    d.toTransData ∈ (s.workThread w).newMsgFd)

theorem QueuedSince.grows {P : Relay → Prop} {n : ℕ} {d : Relay} (h : QueuedSince n w d s)
    (hg : Grows (Reading P) s t) (hP : P d → d.toTransData ∈ (t.workThread w).newMsgFd) :
    QueuedSince n w d t := by
  obtain ⟨added, hl, hadd⟩ := hg.log
  refine ⟨by rw [hl, List.length_append]; have := h.1; omega, ?_⟩
  rintro ⟨v, b, id, hd⟩
  rw [hl, List.drop_append_of_le_length h.1] at hd
  rcases List.mem_append.mp hd with hold | hnew
  · exact hg.mem_pipe (h.2 ⟨v, b, id, hold⟩)
  · exact hP (hadd _ hnew)

end Dispatch

section Reads

variable {s t u : Server} {w v conn : ℕ} {b : Addr} {env : Env} {d : Relay}

/-- A record that is read and needs no check is handed over in the same turn. -/
theorem mem_startTrans {l : TransData} (hr : u.registry = s.registry)
    (hw : ∀ n, env.write n = .full) (hlt : w < s.workThreadNum)
    (hin : d.toId ∈ (s.workThread w).subMap) (hfirst : ∀ j < w, d.toId ∉ (s.workThread j).subMap)
    (h0 : d.fromId ≠ 0) (hwide : (wideId d.fromId || wideId d.toId) = true)
    (hd : d = stampRelay v u.nextSeq l) :
    d.toTransData ∈ ((startTrans env v b d.fromId u (some l)).workThread w).newMsgFd := by
  have hstep : startTrans env v b d.fromId u (some l) = ({ u with nextSeq := u.nextSeq + 1 }.emit
      (.relayRead v b (((u.workThread v).bevId.lookup b).getD 0) d)).transmit env
        d.toTransData := by
    subst hd
    exact (if_pos ⟨h0, rfl⟩).trans (if_pos hwide)
  rw [hstep]
  apply mem_transmit _ hw hlt hin hfirst
  rw [registry_emit_of_none rfl]
  exact hr

theorem QueuedSince.handleRequest {n : ℕ} {r : Analysed} (h : QueuedSince n w d u)
    (hr : u.registry = s.registry) (hw : ∀ n, env.write n = .full) (hlt : w < s.workThreadNum)
    (hin : d.toId ∈ (s.workThread w).subMap) (hfirst : ∀ j < w, d.toId ∉ (s.workThread j).subMap)
    (h0 : d.fromId ≠ 0) (hwide : (wideId d.fromId || wideId d.toId) = true) :
    QueuedSince n w d (Server.handleRequest env v b conn d.fromId u r) := by
  let x := refreshHeartbeat env v b d.fromId (startLogin v b conn u r.req.loginData) r.req.isHeart
  have hx : Grows (Reading fun _ => False) u x := by
    apply Grows.trans (grows_startLogin fun _ _ => ⟨trivial, trivial⟩)
    exact grows_refreshHeartbeat fun _ _ _ _ => ⟨trivial, trivial⟩
  have hrx : x.registry = s.registry := by
    rw [registry_refreshHeartbeat, registry_startLogin, hr]
  have hq : QueuedSince n w d x := h.grows hx False.elim
  cases hl : r.req.transData with
  | none =>
    simp only [Server.handleRequest, hl]
    exact hq
  | some l =>
    have hg : Grows (Reading fun r => r = stampRelay v x.nextSeq l) x
        (startTrans env v b d.fromId x (some l)) := by
      apply grows_startTrans
      · rintro _ ⟨⟩
        rfl
      · exact fun _ _ => trivial
      · exact fun _ _ _ => trivial
      · exact fun _ _ => trivial
    simp only [Server.handleRequest, hl]
    exact hq.grows hg (mem_startTrans hrx hw hlt hin hfirst h0 hwide)

end Reads

section Step

variable {σ : Type} {R : Runtime σ} {s t : Server} {x : Env × Event} {w : ℕ} {d : Relay}

/-- A dispatched record is in the pipe of the first worker that has the recipient. -/
theorem Dispatches.mem_pipe (h : s.Dispatches R x t d) (hw : ReliablePipes s x)
    (ht : step R s x = some t) (hlt : w < s.workThreadNum)
    (hin : d.toId ∈ (s.workThread w).subMap)
    (hfirst : ∀ j < w, d.toId ∉ (s.workThread j).subMap) :
    d.toTransData ∈ (t.workThread w).newMsgFd := by
  cases h with
  | @read v conn b buffer id hr hd hid h0 hwide =>
    obtain ⟨output, hb, ht⟩ := hr.callback R ht
    have hstart : QueuedSince s.log.length w d s := ⟨le_rfl, by simp⟩
    obtain ⟨u, hu, -, -, -, htail⟩ :=
      bufferEventReadCallback_turns R (P := QueuedSince s.log.length w d) rfl hb hstart
        (fun u _ _ _ _ hru hu _ => by
          rw [hid]
          exact hu.handleRequest hru hw hlt hin hfirst h0 hwide) ht
    exact (hu.grows (htail _ (tolerant_reading fun _ => False) trivial) False.elim).2
      ⟨v, b, id, hd⟩
  | @redis v i r c hx hc hcb hr =>
    obtain ⟨env, ev⟩ := x
    obtain rfl : ev = .redisReply v i (some r) := hx
    rcases step_cases R ht with hq | ha
    · cases hq
    cases ha with
    | redisReply hc' ht =>
      obtain rfl : _ = c := Option.some.inj (hc'.symm.trans hc)
      rw [hcb] at ht
      obtain rfl := Option.some.inj ht
      simp only [ne_eq, hr, not_true_eq_false, ↓reduceIte]
      exact mem_transmit (registry_takeCommand s v i _ _) hw hlt hin hfirst
  | @http h chunk input output hx hb hr =>
    obtain ⟨env, ev⟩ := x
    obtain rfl : ev = .httpRead h chunk := hx
    rcases step_cases R ht with hq | ha
    · cases hq
    cases ha with
    | loginRead l hb' => simp [hb] at hb'
    | transRead r hb' =>
      obtain ⟨rfl, rfl, -⟩ : d = r ∧ input = _ ∧ output = _ := by simpa [hb] using hb'
      simp only [httpTransRead, if_pos hr]
      refine mem_transmit (s := s) ?_ hw hlt hin hfirst
      rw [registry_emit_of_none rfl, registry_setAnalyseReq]

/-- Only the callback of its worker takes a record out of a pipe. -/
def Pops (ev : Event) : Item → Prop
  | .popped w => ev = .newMsg w
  | _ => True

theorem step_pops (ht : step R s x = some t) : Grows (Pops x.2) s t := by
  refine Permits.step (R := R) (permits_of_additions ?_ ?_ ?_ ?_) ht
  · intro i hi
    cases i <;> trivial
  · exact fun _ _ => trivial
  · exact fun _ _ _ _ _ _ => trivial
  · exact fun _ h => h

/-- While the recipient stays subscribed, a record in the pipe of its worker waits or is sent. -/
theorem forwarded_step {conn : ℕ} {b : Addr} {m : TransData} (hn : conn < s.nextConn)
    (hm : m.msgType = .trans) (ht : step R s x = some t) (hsub : t.SubscribedOn w b conn m.toId)
    (h : m ∈ (s.workThread w).newMsgFd ∨
      ⟨conn, .relay m, m.data.take m.dataSize.toNat⟩ ∈ s.sent) :
    m ∈ (t.workThread w).newMsgFd ∨ ⟨conn, .relay m, m.data.take m.dataSize.toNat⟩ ∈ t.sent := by
  rcases h with hq | hs
  · rcases (step_pops ht).popped w with hkept | hpop
    · exact Or.inl (hkept.subset hq)
    · obtain ⟨env, ev⟩ := x
      obtain rfl : ev = .newMsg w := hpop
      rcases step_cases R ht with hquiet | ha
      · cases hquiet
        exact Or.inr (newMsgLoop_forwards rfl hn hq hm hsub.2.1 hsub.2.2)
      · cases ha
  · obtain ⟨added, he, -⟩ := (step_grows ht).sent
    exact Or.inr (he ▸ List.mem_append_left added hs)

end Step

section Runs

variable {σ : Type} {R : Runtime σ} {s t u : Server} {x : Env × Event} {w conn : ℕ} {b : Addr}
  {d : Relay}

theorem Dispatches.readFrom (h : s.Dispatches R x t d) (hk : s.Kept R) (ht : step R s x = some t) :
    ∃ w b id, .relayRead w b id d ∈ t.log := by
  have hold : ReadFrom s.log d → ∃ w b id, .relayRead w b id d ∈ t.log := by
    rintro ⟨-, v, a, hr⟩
    exact ⟨v, a, _, (step_grows ht).mem_log hr⟩
  cases h with
  | read hr hd => exact ⟨_, _, _, List.mem_of_mem_drop hd⟩
  | redis hx hc hcb => exact hold (hk.provenance.redis _ _ (List.mem_of_getElem? hc) d hcb).2
  | http hx hb => exact hold (hk.provenance.http _ _ hb d true rfl).1

/-- With reliable pipes, a record that is dispatched while its recipient is subscribed on a
connection, and on no worker before that of the connection, is appended to the output of the
connection by the time the pipe of its worker is empty, if the recipient stays subscribed on it. -/
theorem relay_delivered (h : Reached R ReliablePipes s) (hx : ReliablePipes s x)
    (hd : s.Dispatches R x t d) (ht : step R s x = some t)
    (hsub : s.SubscribedOn w b conn d.toId) (hfirst : ∀ j < w, d.toId ∉ (s.workThread j).subMap)
    (hrun : Transition.Reach (step R) (· = t)
      (fun v y => ReliablePipes v y ∧ v.SubscribedOn w b conn d.toId) u)
    (hu : u.SubscribedOn w b conn d.toId) (hq : (u.workThread w).newMsgFd = []) :
    ⟨conn, .relay d.toTransData, d.data⟩ ∈ u.sent := by
  have hk : s.Kept R := kept_reached h
  have hn : conn < s.nextConn := numbered_reached h b _ hsub.2.2
  have hin : d.toId ∈ (s.workThread w).subMap := by
    obtain ⟨sub, hl, -⟩ := Option.map_eq_some_iff.mp hsub.2.1
    exact Table.mem_of_lookup hl
  have hpipe := hd.mem_pipe hx ht hsub.1 hin hfirst
  obtain ⟨-, hkept⟩ := Transition.Reach.invariant
    (P := fun v => conn < v.nextConn ∧ (v.SubscribedOn w b conn d.toId →
      d.toTransData ∈ (v.workThread w).newMsgFd ∨
        ⟨conn, .relay d.toTransData, d.data.take d.dataSize.toNat⟩ ∈ v.sent))
    (by
      rintro _ rfl
      exact ⟨hn.trans_le (step_grows ht).nextConn, fun _ => Or.inl hpipe⟩)
    (by
      rintro v y v' ⟨hnv, hv⟩ ⟨-, hsv⟩ hstep
      refine ⟨hnv.trans_le (step_grows hstep).nextConn, fun hs => ?_⟩
      exact forwarded_step hnv d.isTrans hstep hs (hv hsv))
    hrun
  obtain ⟨v, a, id, hread⟩ := hd.readFrom hk ht
  rw [(hk.step ht).take_data hread] at hkept
  exact (hkept hu).resolve_left (by simp [hq])

/-- The reply of redis that confirms a relation. -/
def confirmed : Env × Event :=
  (plainEnv 1, .redisReply 0 0 (some { type := .string, str := some [0x31] }))

/-- The record of a relay frame whose relation is being checked. -/
def offeredRecord (seq : ℕ) (fromId toId : UInt8) : Relay :=
  { relayRecord seq fromId toId with isTrans := rfl }

/-- After a run, worker 0 dispatches the record it asked redis about and reads its pipe, while the
recipient is subscribed on one connection in all three states. -/
theorem exists_dispatch (num : ℕ) (events : List (Env × Event)) (w : ℕ) (b : Addr) (conn seq : ℕ)
    (fromId toId : UInt8) (P : Server → Prop) [DecidablePred P]
    (hok : ∀ x ∈ events, ∀ n, x.1.write n = .full)
    (hr : (Transition.run (step Wire.runtime) (deployment num) events).any (fun s =>
      decide ((s.workThread 0).redis[0]?.map RedisCommand.callback =
        some (.trans (offeredRecord seq fromId toId)) ∧
          s.SubscribedOn w b conn toId.toUInt64) &&
      (step Wire.runtime s confirmed).any fun t => decide (t.SubscribedOn w b conn toId.toUInt64) &&
        (step Wire.runtime t (plainEnv 1, .newMsg 0)).any fun u =>
          decide (u.SubscribedOn w b conn toId.toUInt64 ∧ P u)) = true) :
    ∃ s t u, Reached Wire.runtime ReliablePipes s ∧ s.SubscribedOn w b conn toId.toUInt64 ∧
      s.Dispatches Wire.runtime confirmed t (offeredRecord seq fromId toId) ∧
      step Wire.runtime s confirmed = some t ∧
      Transition.Reach (step Wire.runtime) (· = t)
        (fun v y => ReliablePipes v y ∧ v.SubscribedOn w b conn toId.toUInt64) u ∧
      u.SubscribedOn w b conn toId.toUInt64 ∧ P u := by
  obtain ⟨s, hs, hr⟩ := (Option.any_eq_true _ _).mp hr
  obtain ⟨hp, hr⟩ := (Bool.and_eq_true _ _).mp hr
  obtain ⟨t, ht, hr⟩ := (Option.any_eq_true _ _).mp hr
  obtain ⟨hst, hr⟩ := (Bool.and_eq_true _ _).mp hr
  obtain ⟨u, hu, hr⟩ := (Option.any_eq_true _ _).mp hr
  obtain ⟨hc, hss⟩ := of_decide_eq_true hp
  obtain ⟨c, hc, hcb⟩ := Option.map_eq_some_iff.mp hc
  refine ⟨s, t, u, ?_, hss, .redis rfl hc hcb rfl, ht, ?_, of_decide_eq_true hr⟩
  · exact Transition.Reach.run (.start (deployment_started num))
      (.of_forall (fun x hx _ => hok x hx) _) hs
  · exact .next (.start rfl) ⟨fun _ => rfl, of_decide_eq_true hst⟩ hu

/-- 7 sends a message to 9, both on worker 0. -/
def offered : List (Env × Event) :=
  connect 0 1 ++ login 0 1 7 ++ connect 0 2 ++ login 0 2 9 ++
    [(plainEnv 1, .clientRead 1 (relayFrame 7 9))]

theorem offered_delivered :
    ∃ u : Server, u.SubscribedOn 0 2 1 9 ∧
      ⟨1, .relay (relayRecord 2 7 9), relayFrame 7 9⟩ ∈ u.sent := by
  obtain ⟨s, t, u, hs, hsub, hd, ht, hrun, hu, hq⟩ := exists_dispatch 1 offered 0 2 1 2 7 9
    (fun u => (u.workThread 0).newMsgFd = []) (by simp [offered, connect, login, plainEnv])
    (by decide +kernel)
  exact ⟨u, hu, relay_delivered hs (fun _ => rfl) hd ht hsub (by simp) hrun hu hq⟩

/-- 7 moves from worker 0 to worker 1, and worker 0 has not read the delete-id message when 9 sends
a message to 7. -/
def overtaken : List (Env × Event) :=
  connect 0 1 ++ connect 1 2 ++ login 0 1 7 ++ login 1 2 7 ++ connect 0 3 ++ login 0 3 9 ++
    [(plainEnv 3, .clientRead 3 (relayFrame 9 7))]

/-- The message is queued at worker 0 behind the delete-id message and dropped there, while 7 is
subscribed on its connection to worker 1 all the time. -/
theorem overtaken_not_delivered :
    ∃ s t u, Reached Wire.runtime ReliablePipes s ∧ s.SubscribedOn 1 2 1 7 ∧
      s.Dispatches Wire.runtime confirmed t (offeredRecord 4 9 7) ∧
      step Wire.runtime s confirmed = some t ∧
      Transition.Reach (step Wire.runtime) (· = t)
        (fun v y => ReliablePipes v y ∧ v.SubscribedOn 1 2 1 7) u ∧
      u.SubscribedOn 1 2 1 7 ∧ (∀ w < u.workThreadNum, (u.workThread w).newMsgFd = []) ∧
      ∀ e ∈ u.sent, e.source ≠ .relay (relayRecord 4 9 7) :=
  exists_dispatch 2 overtaken 1 2 1 4 9 7
    (fun u => (∀ w < u.workThreadNum, (u.workThread w).newMsgFd = []) ∧
      ∀ e ∈ u.sent, e.source ≠ .relay (relayRecord 4 9 7))
    (by simp [overtaken, connect, login, plainEnv]) (by decide +kernel)

end Runs

end Server

end EglComet
