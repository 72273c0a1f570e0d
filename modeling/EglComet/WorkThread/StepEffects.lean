import EglComet.WorkThread.Effects

/-!
What one event can leave behind. The things an event may add are listed once;
a predicate that allows them bounds the whole step.
-/
namespace EglComet

open Protobuf

/-- The login request that a redis callback was given. -/
def RedisCallback.loginData : RedisCallback → Option LoginData
  | .login d => some d
  | _ => none

/-- The record that a redis callback was given. -/
def RedisCallback.transData : RedisCallback → Option Relay
  | .trans d => some d
  | _ => none

def Owner.loginData : Owner → Option LoginData
  | .httpLogin d _ => some d
  | _ => none

def Owner.transData : Owner → Option Relay
  | .httpTrans d _ => some d
  | _ => none

theorem RedisCallback.number_of_loginData {c : RedisCallback} {d : LoginData}
    (h : c.loginData = some d) : c.number = some d.seq := by
  cases c with
  | login e =>
    obtain rfl := Option.some.inj h
    rfl
  | trans | online | offline => cases h

theorem RedisCallback.number_of_transData {c : RedisCallback} {d : Relay}
    (h : c.transData = some d) : c.number = some d.seq := by
  cases c with
  | trans e =>
    obtain rfl := Option.some.inj h
    rfl
  | login | online | offline => cases h

theorem Owner.number_of_loginData {o : Owner} {d : LoginData} (h : o.loginData = some d) :
    o.number = some d.seq := by
  cases o with
  | httpLogin e sent =>
    obtain rfl := Option.some.inj h
    rfl
  | client | httpTrans => cases h

theorem Owner.number_of_transData {o : Owner} {d : Relay} (h : o.transData = some d) :
    o.number = some d.seq := by
  cases o with
  | httpTrans e sent =>
    obtain rfl := Option.some.inj h
    rfl
  | client | httpLogin => cases h

namespace Server

/-- The read callback runs on connection `conn` of worker `w` at `b`, whose buffer is `buffer`. -/
def Reads (s : Server) (x : Env × Event) (w : ℕ) (b : Addr) (conn : ℕ) (buffer : Bytes) : Prop :=
  ∃ chunk input output, x.2 = .clientRead b chunk ∧
    s.heap.lookup b = some ⟨.client w conn, input, output⟩ ∧ buffer = input ++ chunk

/-- A login request that redis or the HTTP service has not answered yet. -/
def PendingLogin (s : Server) (d : LoginData) : Prop :=
  (∃ w, ∃ c ∈ (s.workThread w).redis, c.callback = .login d) ∨
    ∃ a be sent, s.heap.lookup a = some be ∧ be.owner = .httpLogin d sent

/-- The login request whose check an event goes on with. -/
def checkedLogin (s : Server) (ev : Event) : Option LoginData :=
  match ev with
  | .redisReply w i _ => (s.workThread w).redis[i]?.bind fun c => c.callback.loginData
  | .httpRead h _ => (s.heap.lookup h).bind fun be => be.owner.loginData
  | .httpEvent h _ => (s.heap.lookup h).bind fun be => be.owner.loginData
  | _ => none

/-- The record of a client whose check an event goes on with. -/
def checkedRelay (s : Server) (ev : Event) : Option Relay :=
  match ev with
  | .redisReply w i _ => (s.workThread w).redis[i]?.bind fun c => c.callback.transData
  | .httpRead h _ => (s.heap.lookup h).bind fun be => be.owner.transData
  | .httpEvent h _ => (s.heap.lookup h).bind fun be => be.owner.transData
  | _ => none

section Step

variable {σ : Type} (R : Runtime σ)

theorem Reads.callback {s t : Server} {x : Env × Event} {w : ℕ} {b : Addr} {conn : ℕ}
    {buffer : Bytes} (h : s.Reads x w b conn buffer) (ht : step R s x = some t) :
    ∃ output, s.client b = some (w, conn) ∧
      s.bufferEventReadCallback R x.1 w conn b ⟨.client w conn, buffer, output⟩ = some t := by
  obtain ⟨env, ev⟩ := x
  obtain ⟨chunk, input, output, rfl, hb, rfl⟩ := h
  rcases step_cases R ht with hq | ha
  · cases hq
  cases ha with
  | clientRead hb' ht =>
    obtain ⟨⟨rfl, rfl⟩, rfl, rfl⟩ : (w = _ ∧ conn = _) ∧ input = _ ∧ output = _ := by
      simpa [hb] using hb'
    exact ⟨output, client_of_lookup hb, ht⟩

/-- An approved login was being checked, and its worker knows its address. -/
theorem approval_checked {s : Server} {ev : Event} {d : LoginData} (h : d ∈ s.approval R ev) :
    d ∈ s.checkedLogin ev ∧ d.bev ∈ (s.workThread d.workThread).bevId := by
  cases ev with
  | redisReply w i reply =>
    simp only [approval, Option.mem_def] at h
    split at h
    · rename_i hc _
      obtain ⟨c, hc, hcb⟩ := Option.map_eq_some_iff.mp hc
      simp only [Option.ite_none_right_eq_some, Option.some.injEq] at h
      obtain ⟨⟨hb, -⟩, rfl⟩ := h
      exact ⟨by simp [checkedLogin, hc, hcb, RedisCallback.loginData], hb⟩
    · simp at h
  | httpRead a chunk =>
    simp only [approval, Option.mem_def] at h
    split at h
    · rename_i hb
      simp only [Option.ite_none_right_eq_some, Option.some.injEq] at h
      obtain ⟨⟨hm, -⟩, rfl⟩ := h
      exact ⟨by simp [checkedLogin, hb, Owner.loginData], hm⟩
    · simp at h
  | acceptConn | timer | stop | newConn | newMsg | clientRead | clientEvent | httpEvent =>
    simp [approval] at h

theorem checkedLogin_pending {s : Server} {ev : Event} {d : LoginData} (h : d ∈ s.checkedLogin ev) :
    (∀ v, ev ≠ .newConn v) ∧ s.PendingLogin d := by
  have howner : ∀ be : BufferEvent, be.owner.loginData = some d →
      ∃ sent, be.owner = .httpLogin d sent := by
    intro be hd
    cases ho : be.owner with
    | httpLogin l sent =>
      rw [ho] at hd
      obtain rfl : l = d := by simpa [Owner.loginData] using hd
      exact ⟨sent, rfl⟩
    | client | httpTrans => simp [ho, Owner.loginData] at hd
  cases ev with
  | redisReply w i reply =>
    obtain ⟨c, hc, hd⟩ := Option.bind_eq_some_iff.mp h
    refine ⟨by simp, Or.inl ⟨w, c, List.mem_of_getElem? hc, ?_⟩⟩
    cases hcb : c.callback <;> simp_all [RedisCallback.loginData]
  | httpRead a chunk =>
    obtain ⟨be, hb, hd⟩ := Option.bind_eq_some_iff.mp h
    obtain ⟨sent, ho⟩ := howner be hd
    exact ⟨by simp, Or.inr ⟨a, be, sent, hb, ho⟩⟩
  | httpEvent a flags =>
    obtain ⟨be, hb, hd⟩ := Option.bind_eq_some_iff.mp h
    obtain ⟨sent, ho⟩ := howner be hd
    exact ⟨by simp, Or.inr ⟨a, be, sent, hb, ho⟩⟩
  | acceptConn | timer | stop | newConn | newMsg | clientRead | clientEvent =>
    simp [checkedLogin] at h

/-- A predicate allows everything that an event can add in a state. -/
structure Permits (s : Server) (x : Env × Event) (E : Item → Prop) : Prop extends Tolerant E where
  conns : ∀ w, x.2.feeds w = true → E (.conns w)
  taken : ∀ w i reply c, x.2 = .redisReply w i reply → (s.workThread w).redis[i]? = some c →
    E (.taken w c)
  popped : ∀ w, x.2 = .newMsg w → E (.popped w)
  forwarded : ∀ w, x.2 = .newMsg w → ∀ d ∈ (s.workThread w).newMsgFd,
    ∀ conn, E (.sent ⟨conn, .relay d, d.data.take d.dataSize.toNat⟩)
  handled : ∀ w, x.2 = .newMsg w → ∀ d ∈ (s.workThread w).newMsgFd, E (.obs (.deletedTrans d))
  parser : ∀ w b conn buffer, s.Reads x w b conn buffer → E (.parser w)
  login : ∀ w b conn buffer a input output r, s.Reads x w b conn buffer →
    Call R x.1.mem (s.workThread w).analyseReq buffer a input output r →
      ∀ l ∈ r.req.loginData, ∀ seq, E (.cmd w (tokenCommand (stampLogin w b conn seq l))) ∧
        E (.obs (.loginRead w b (stampLogin w b conn seq l)))
  heartbeat : ∀ w b conn buffer a input output r, s.Reads x w b conn buffer →
    Call R x.1.mem (s.workThread w).analyseReq buffer a input output r → r.req.isHeart = true →
      ∀ id ∈ (s.workThread w).bevId.lookup b, id ≠ 0 →
        (∀ sub : Subscriber, E (.sub w id (sub.updateHeartbeat x.1.now))) ∧
          E (.obs (.heartbeat w b id))
  relay : ∀ w b conn buffer a input output r, s.Reads x w b conn buffer →
    Call R x.1.mem (s.workThread w).analyseReq buffer a input output r →
      ∀ l ∈ r.req.transData, ∀ seq, (∀ id, E (.obs (.relayRead w b id (stampRelay w seq l)))) ∧
        E (.cmd w (relationCommand (stampRelay w seq l))) ∧
          (∀ j, E (.obs (.enqueued j (stampRelay w seq l).toTransData))) ∧
            E (.obs (.deletedTrans (stampRelay w seq l).toTransData))
  loginOwner : ∀ d ∈ s.checkedLogin x.2, ∀ sent, E (.owner (.httpLogin d sent))
  refused : ∀ d ∈ s.checkedLogin x.2, ∀ conn bs, IsReply R false bs →
    E (.sent ⟨conn, .loginRsp d false, bs⟩)
  admitted : ∀ d ∈ s.approval R x.2,
    Admits R E x.1 d ((s.registry.kick d.workThread d.id).connAt d.bev)
  transOwner : ∀ d ∈ s.checkedRelay x.2, ∀ sent, E (.owner (.httpTrans d sent))
  enqueued : ∀ d ∈ s.checkedRelay x.2, ∀ j, E (.obs (.enqueued j d.toTransData))
  dropped : ∀ d ∈ s.checkedRelay x.2, E (.obs (.deletedTrans d.toTransData))
  friends : ∀ w i reply c info, x.2 = .redisReply w i reply →
    (s.workThread w).redis[i]? = some c → c.callback = .online info →
      info.bev ∈ (s.workThread info.workThread).bevId →
        E (.obs (.friendList info.workThread info.bev info.id info.conn (s.occupant info.bev)))

variable {R} {s t : Server} {E : Item → Prop}

/-- A predicate that allows every addition has to look at what is taken away alone. -/
theorem permits_of_additions {x : Env × Event} (hE : ∀ i, i.isRemoval = false → E i)
    (hconns : ∀ w, x.2.feeds w = true → E (.conns w))
    (htaken : ∀ w i reply c, x.2 = .redisReply w i reply → (s.workThread w).redis[i]? = some c →
      E (.taken w c))
    (hpopped : ∀ w, x.2 = .newMsg w → E (.popped w)) : s.Permits R x E where
  obs _ _ := hE _ rfl
  offline _ _ := hE _ rfl
  client _ _ := hE _ rfl
  sent _ _ := hE _ rfl
  conns := hconns
  taken := htaken
  popped := hpopped
  forwarded _ _ _ _ _ := hE _ rfl
  handled _ _ _ _ := hE _ rfl
  parser _ _ _ _ _ := hE _ rfl
  login _ _ _ _ _ _ _ _ _ _ _ _ _ := ⟨hE _ rfl, hE _ rfl⟩
  heartbeat _ _ _ _ _ _ _ _ _ _ _ _ _ _ := ⟨fun _ => hE _ rfl, hE _ rfl⟩
  relay _ _ _ _ _ _ _ _ _ _ _ _ _ := ⟨fun _ => hE _ rfl, hE _ rfl, fun _ => hE _ rfl, hE _ rfl⟩
  loginOwner _ _ _ := hE _ rfl
  refused _ _ _ _ _ := hE _ rfl
  admitted _ _ := ⟨hE _ rfl, hE _ rfl, hE _ rfl, fun _ _ _ => hE _ rfl⟩
  transOwner _ _ _ := hE _ rfl
  enqueued _ _ _ := hE _ rfl
  dropped _ _ := hE _ rfl
  friends _ _ _ _ _ _ _ _ _ := hE _ rfl

theorem Permits.redisCallback {env : Env} {w i : ℕ} {reply : Option RedisReply} {cmd : RedisCommand}
    (h : s.Permits R (env, .redisReply w i reply) E) (hc : (s.workThread w).redis[i]? = some cmd)
    (ht : redisCallback R env (s.takeCommand w i cmd reply) reply cmd.callback = some t) :
    Grows E s t := by
  have hr := registry_takeCommand s w i cmd reply
  apply Grows.trans (t := s.takeCommand w i cmd reply)
    (grows_takeCommand h.toTolerant hc (h.taken w i reply cmd rfl hc))
  cases hcb : cmd.callback with
  | login d =>
    rw [hcb] at ht
    obtain rfl := Option.some.inj ht
    have hd : d ∈ s.checkedLogin (.redisReply w i reply) := by
      simp [checkedLogin, hc, hcb, RedisCallback.loginData]
    apply grows_redisLoginCallback R h.toTolerant (h.loginOwner d hd false) (h.refused d hd)
    intro ha
    rw [hr]
    exact h.admitted d (ha.approval R hc hcb)
  | trans d =>
    rw [hcb] at ht
    obtain ⟨r, -, rfl⟩ := Option.map_eq_some_iff.mp ht
    have hd : d ∈ s.checkedRelay (.redisReply w i reply) := by
      simp [checkedRelay, hc, hcb, RedisCallback.transData]
    split_ifs
    · exact grows_httpTransCheck R h.toTolerant (h.transOwner d hd false) (h.dropped d hd)
    · exact grows_transmit (h.enqueued d hd) (h.dropped d hd)
  | online info =>
    rw [hcb] at ht
    apply grows_redisOnlineNotify R h.toTolerant ht
    intro hb
    rw [bevId_of_registry_eq hr] at hb
    have ho : (s.takeCommand w i cmd reply).occupant info.bev = s.occupant info.bev := by
      simp only [occupant, client_eq_of_registry_eq hr]
    rw [ho]
    exact h.friends w i reply cmd info rfl hc hcb hb
  | offline info =>
    rw [hcb] at ht
    exact grows_redisOfflineNotify R h.toTolerant ht

theorem Permits.clientRead {env : Env} {b : Addr} {chunk input output : Bytes} {w conn : ℕ}
    (h : s.Permits R (env, .clientRead b chunk) E)
    (hb : s.heap.lookup b = some ⟨.client w conn, input, output⟩)
    (ht : s.bufferEventReadCallback R env w conn b ⟨.client w conn, input ++ chunk, output⟩ =
      some t) : Grows E s t := by
  have hread : s.Reads (env, .clientRead b chunk) w b conn (input ++ chunk) :=
    ⟨chunk, input, output, rfl, hb, rfl⟩
  apply grows_bufferEventReadCallback R h.toTolerant (h.parser w b conn _ hread) rfl
    (client_of_lookup hb) _ ht
  intro u a input' output' r hcall
  refine ((grows_startLogin ?_).trans (grows_refreshHeartbeat ?_)).trans
    (grows_startTrans ?_ ?_ ?_ ?_)
  · intro l hl
    exact h.login w b conn _ a input' output' r hread hcall l hl u.nextSeq
  · intro hheart hid sub _
    have hlook : ((s.workThread w).bevId.lookup b).getD 0 ∈ (s.workThread w).bevId.lookup b := by
      cases hl : (s.workThread w).bevId.lookup b with
      | none => simp [hl] at hid
      | some id => simp
    obtain ⟨hsub, hobs⟩ := h.heartbeat w b conn _ a input' output' r hread hcall hheart _ hlook hid
    exact ⟨hsub sub, hobs⟩
  · intro l hl
    exact (h.relay w b conn _ a input' output' r hread hcall l hl _).1 _
  · intro l hl
    exact (h.relay w b conn _ a input' output' r hread hcall l hl _).2.1
  · intro l hl
    exact (h.relay w b conn _ a input' output' r hread hcall l hl _).2.2.1
  · intro l hl
    exact (h.relay w b conn _ a input' output' r hread hcall l hl _).2.2.2

/-- What one event leaves behind is allowed by every predicate that permits the event. -/
theorem Permits.step {x : Env × Event} (h : s.Permits R x E) (ht : Server.step R s x = some t) :
    Grows E s t := by
  obtain ⟨env, ev⟩ := x
  rcases step_cases R ht with hq | ha
  · exact hq.grows h.toTolerant h.conns h.popped h.forwarded h.handled
  cases ha with
  | clientRead hb ht => exact h.clientRead hb ht
  | redisReply hc ht => exact h.redisCallback hc ht
  | @loginRead a chunk input output d hb =>
    have hd : d ∈ s.checkedLogin (.httpRead a chunk) := by
      simp [checkedLogin, hb, Owner.loginData]
    apply grows_httpLoginRead R h.toTolerant (h.refused d hd)
    intro hm hr
    apply h.admitted
    simp only [approval, hb]
    exact if_pos ⟨hm, hr⟩
  | @transRead a chunk input output d hb =>
    have hd : d ∈ s.checkedRelay (.httpRead a chunk) := by
      simp [checkedRelay, hb, Owner.transData]
    exact grows_httpTransRead R h.toTolerant (h.enqueued d hd) (h.dropped d hd)
  | @loginEvent a flags input output d sent hb =>
    have hd : d ∈ s.checkedLogin (.httpEvent a flags) := by
      simp [checkedLogin, hb, Owner.loginData]
    exact grows_httpLoginEvent R h.toTolerant (fun _ => h.loginOwner d hd true) (h.refused d hd)
  | @transEvent a flags input output d sent hb =>
    have hd : d ∈ s.checkedRelay (.httpEvent a flags) := by
      simp [checkedRelay, hb, Owner.transData]
    exact grows_httpTransEvent R h.toTolerant (fun _ => h.transOwner d hd true) (h.dropped d hd)

/-- Every step adds to the histories, and what it does not name stays. -/
theorem step_grows {x : Env × Event} (ht : step R s x = some t) : Grows (fun _ => True) s t :=
  (permits_of_additions (R := R) (fun _ _ => trivial) (fun _ _ => trivial)
    (fun _ _ _ _ _ _ => trivial) fun _ _ => trivial).step ht

theorem numbered_started (h : s.Started) : s.Numbered := by
  obtain ⟨num, cap, ping, url, heart, rfl⟩ := h
  simp [Numbered, start, client, clientIn]

theorem numbered_reached {ok : Server → Env × Event → Prop} (h : Reached R ok s) : s.Numbered :=
  Transition.Reach.invariant (fun _ => numbered_started)
    (fun _ _ _ hn _ ht => hn.grows (step_grows ht))
    h

end Step

end Server

end EglComet
