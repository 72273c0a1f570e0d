import EglComet.Registry.Ownership
import EglComet.WorkThread.Custody
import EglComet.WorkThread.Logins
import EglComet.WorkThread.Sessions

/-!
Who reads a client's message. `notify_new_msg_callback` looks the addressee up
in the table of sessions and writes to the bufferevent it finds there; neither
the record nor the session says which connection that is. In runs where no
connection takes a second id and no address is given out while something is
outstanding for it, it is a connection whose own login for the addressee was
approved.
-/
namespace EglComet

open Protobuf

/-- A forwarded record of a client went to a connection registered for its addressee. -/
def Sent.Addressed (log : List (Note UInt64 Addr)) (e : Sent) : Prop :=
  ∀ d, e.source = .relay d → d.origin = .client →
    ∃ w b, Note.registered w b d.toId (some e.conn) ∈ log

theorem Sent.Addressed.mono {log log' : List (Note UInt64 Addr)} {e : Sent} (h : e.Addressed log)
    (hl : log ⊆ log') : e.Addressed log' := by
  intro d hd ho
  obtain ⟨w, b, hm⟩ := h d hd ho
  exact ⟨w, b, hl hm⟩

/-- A registration answers a login that was read on its connection. -/
def Obs.Asked (log : List Obs) (o : Obs) : Prop :=
  ∀ w b id asker occupant, o = .registered w b id asker occupant →
    ∃ l : LoginData, LoginRead log l ∧ l.workThread = w ∧ l.bev = b ∧ l.id = id ∧ l.conn = asker

theorem Obs.Asked.mono {log log' : List Obs} {o : Obs} (h : o.Asked log) (hl : log ⊆ log') :
    o.Asked log' := by
  intro w b id asker occupant ho
  obtain ⟨l, hread, hsame⟩ := h w b id asker occupant ho
  exact ⟨l, hl hread, hsame⟩

/-- The connection that an entry of the history reads a login from. -/
def Obs.loginConn : Obs → Option ℕ
  | .loginRead _ _ l => some l.conn
  | _ => none

namespace Server

/-- The part of the state that decides who reads a message, and what was sent so far. -/
structure Addressed (s : Server) : Prop where
  attested : s.registry.Attested
  sent : ∀ e ∈ s.sent, e.Addressed s.registry.log

section Messages

variable {s : Server} {w : ℕ}

/-- The connection that a message is written to was registered for its addressee. -/
theorem Addressed.entryAt (h : s.registry.Attested) {d : TransData} {sub : Subscriber}
    (hs : (s.workThread w).subMap.lookup d.toId = some sub) {e : Sent} {bs : Bytes}
    (he : e ∈ s.entryAt sub.bev (.relay d) bs) : e.Addressed s.registry.log := by
  obtain ⟨hocc, hsource, -⟩ := mem_entryAt.mp he
  intro d' hd' _
  obtain rfl : d = d' := by
    rw [hsource] at hd'
    exact Source.relay.inj hd'
  have hh : (s.registry.dir w).holder d.toId = some sub.bev := by
    simp [registry, WorkThread.directory, hs]
  obtain ⟨c, hc, hlog⟩ := h.owned w d.toId sub.bev hh
  have hconn : s.occupant sub.bev = some c := by
    rw [occupant, show s.client sub.bev = some (w, c) from hc]
    rfl
  obtain rfl : c = e.conn := Option.some.inj (hconn.symm.trans hocc)
  exact ⟨w, sub.bev, hlog⟩

/-- One turn of the loop over the message pipe. -/
theorem Addressed.turn (h : s.Addressed) {d : TransData} {ds : List TransData}
    (hq : (s.workThread w).newMsgFd = d :: ds) :
    (handleMsg w (s.modify w fun t => { t with newMsgFd := ds }) d).Addressed := by
  set u := s.modify w fun t => { t with newMsgFd := ds } with hu
  have hpop := registry_pop s w ds
  have hatt : u.registry.Attested := by
    rw [hpop]
    exact ⟨⟨h.attested.coherent.dir, h.attested.coherent.log⟩, h.attested.knownLive,
      h.attested.owned⟩
  have hlog : u.registry.log = s.registry.log := by rw [hpop]
  cases hm : d.msgType with
  | trans =>
    have hr := registry_handleMsg_trans (w := w) (s := u) hm
    refine ⟨hr ▸ hatt, fun e he => ?_⟩
    rw [hr]
    rw [sent_handleMsg, hm] at he
    rcases List.mem_append.mp he with hold | hnew
    · exact hlog ▸ h.sent e hold
    · cases hs : (u.workThread w).subMap.lookup d.toId with
      | none => simp [hs] at hnew
      | some sub =>
        rw [hs] at hnew
        exact Addressed.entryAt hatt hs hnew
  | delId =>
    have hdels : s.registry.dels w =
        d.toId :: (ds.filter fun d => d.msgType = .delId).map TransData.toId := by
      simp [registry, WorkThread.dels, hq, hm]
    have hr : (handleMsg w u d).registry = s.registry.apply (.deliver w d.toId
        ((ds.filter fun d => d.msgType = .delId).map TransData.toId)) := by
      rw [registry_handleMsg_delId hm, hpop]
      rfl
    refine ⟨hr ▸ h.attested.apply hdels trivial trivial, fun e he => ?_⟩
    rw [sent_handleMsg, hm, List.append_nil] at he
    rw [registry_handleMsg_delId hm, hlog]
    exact (h.sent e he).mono (List.subset_append_left _ _)

theorem Addressed.newMsgLoop (msgs : List TransData) (s : Server) (h : s.Addressed)
    (hq : (s.workThread w).newMsgFd = msgs) : (newMsgLoop w msgs s).Addressed := by
  induction msgs generalizing s with
  | nil => exact h
  | cons d ds ih =>
    apply ih _ (h.turn hq)
    rw [newMsgFd_handleMsg]
    simp [modify]

end Messages

section Step

variable {σ : Type} (R : Runtime σ)

/-- No connection takes a second id, and no address or session is taken over by the connection
it belongs to. -/
def Distinct (s : Server) (x : Env × Event) : Prop :=
  s.FreshAddresses R x ∧ s.OneIdPerConnection R x

instance (s : Server) (x : Env × Event) : Decidable (s.Distinct R x) :=
  inferInstanceAs (Decidable (_ ∧ _))

/-- What an event may add: registrations of logins that were read, and no record of a client
outside the message callback. -/
def Addressable (s : Server) (ev : Event) : Item → Prop
  | .obs o => o.Asked s.log
  | .sent e => (∀ w, ev ≠ .newMsg w) → ∀ d, e.source = .relay d → d.origin ≠ .client
  | _ => True

variable {R} {s t : Server}

theorem tolerant_addressable (s : Server) (ev : Event) : Tolerant (s.Addressable ev) where
  obs o ho := by
    rintro w b id asker occupant rfl
    simp [Obs.minor] at ho
  offline _ _ := trivial
  client _ _ := trivial
  sent e he _ d hd ho := by simp [hd, Source.number, TransData.number, ho] at he

theorem permits_addressable {x : Env × Event} (hrec : s.Recorded R) :
    s.Permits R x (s.Addressable x.2) where
  toTolerant := tolerant_addressable s x.2
  conns _ _ := trivial
  taken _ _ _ _ _ _ := trivial
  popped _ _ := trivial
  forwarded w hx d _ conn hne := absurd hx (hne w)
  handled _ _ _ _ := by rintro _ _ _ _ _ ⟨⟩
  parser _ _ _ _ _ := trivial
  login _ _ _ _ _ _ _ _ _ _ _ _ _ := ⟨trivial, by rintro _ _ _ _ _ ⟨⟩⟩
  heartbeat _ _ _ _ _ _ _ _ _ _ _ _ _ _ := ⟨fun _ => trivial, by rintro _ _ _ _ _ ⟨⟩⟩
  relay _ _ _ _ _ _ _ _ _ _ _ _ _ :=
    ⟨fun _ => by rintro _ _ _ _ _ ⟨⟩, trivial, fun _ => by rintro _ _ _ _ _ ⟨⟩,
      by rintro _ _ _ _ _ ⟨⟩⟩
  loginOwner _ _ _ := trivial
  refused _ _ _ _ _ := by rintro _ _ ⟨⟩
  admitted d hd := by
    refine ⟨?_, trivial, trivial, fun _ _ _ => by rintro _ _ ⟨⟩⟩
    rintro _ _ _ _ _ ⟨⟩
    exact ⟨d, hrec.login d (checkedLogin_pending (approval_checked R hd).1).2, rfl, rfl, rfl, rfl⟩
  transOwner _ _ _ := trivial
  enqueued _ _ _ := by rintro _ _ _ _ _ ⟨⟩
  dropped _ _ := by rintro _ _ _ _ _ ⟨⟩
  friends _ _ _ _ _ _ _ _ _ := by rintro _ _ _ _ _ ⟨⟩

theorem Addressed.step {x : Env × Event} (h : s.Addressed) (hd : s.Distinct R x)
    (hrec : s.Recorded R) (ht : step R s x = some t) : t.Addressed := by
  by_cases hx : ∃ w, x.2 = .newMsg w
  · obtain ⟨env, ev⟩ := x
    obtain ⟨w, rfl⟩ := hx
    rcases step_cases R ht with hq | ha
    · cases hq
      exact h.newMsgLoop _ s rfl
    · cases ha
  · have hmoves := step_moves R ht
    refine ⟨hmoves.invariant (fun r l hr he hl => hr.apply he (hd.2.oneId hl) (hd.1.fresh hl))
      h.attested, fun e he => ?_⟩
    have hg := (permits_addressable hrec).step ht
    obtain ⟨added, hs, hadd⟩ := hg.sent
    have hlog : s.registry.log ⊆ t.registry.log := by
      obtain ⟨notes, hn, -⟩ := hmoves.logged
      exact hn ▸ List.subset_append_left _ _
    rw [hs] at he
    rcases List.mem_append.mp he with hold | hnew
    · exact (h.sent e hold).mono hlog
    · intro d hsource ho
      exact absurd ho (hadd e hnew (not_exists.mp hx) d hsource)

theorem addressed_started (h : s.Started) : s.Addressed := by
  refine ⟨registry_started h ▸ Registry.attested_start _, ?_⟩
  obtain ⟨num, cap, ping, url, heart, rfl⟩ := h
  simp [start]

/-- Every registration in the history answers a login in the history. -/
theorem asked_reached {ok : Server → Env × Event → Prop} (h : Reached R ok s) :
    ∀ o ∈ s.log, o.Asked s.log := by
  suffices hinv : s.Kept R ∧ ∀ o ∈ s.log, o.Asked s.log from hinv.2
  apply Transition.Reach.invariant (P := fun s => s.Kept R ∧ ∀ o ∈ s.log, o.Asked s.log) _ _ h
  · intro s hs
    refine ⟨kept_started hs, ?_⟩
    obtain ⟨num, cap, ping, url, heart, rfl⟩ := hs
    simp [start]
  · rintro s x t ⟨hk, ha⟩ - ht
    refine ⟨hk.step ht, fun o ho => ?_⟩
    obtain ⟨added, hl, hadd⟩ := ((permits_addressable hk.recorded).step ht).log
    have hsub : s.log ⊆ t.log := hl ▸ List.subset_append_left _ _
    rw [hl] at ho
    rcases List.mem_append.mp ho with hold | hnew
    · exact (ha o hold).mono hsub
    · exact (hadd o hnew : o.Asked s.log).mono hsub

theorem addressed_reached (h : Reached R (Distinct R) s) : s.Addressed := by
  suffices hinv : s.Kept R ∧ s.Addressed from hinv.2
  exact Transition.Reach.invariant (P := fun s => s.Kept R ∧ s.Addressed)
    (fun _ hs => ⟨kept_started hs, addressed_started hs⟩)
    (fun _ _ _ hi hd ht => ⟨hi.1.step ht, hi.2.step hd hi.1.recorded ht⟩) h

/-- A message of a client is read only by its addressee: whatever connection it was written to
sent a login with the id that the message names, and was itself registered for that id. -/
theorem relay_reaches_addressee (h : Reached R (Distinct R) s) {e : Sent} {d : TransData}
    (he : e ∈ s.sent) (hd : e.source = .relay d) (ho : d.origin = .client) :
    ∃ l : LoginData, LoginRead s.log l ∧ l.id = d.toId ∧ l.conn = e.conn ∧
      Obs.registered l.workThread l.bev d.toId e.conn (some e.conn) ∈ s.log := by
  obtain ⟨w, b, hm⟩ := (addressed_reached h).sent e he d hd ho
  obtain ⟨o, hmem, hnote⟩ := List.mem_filterMap.mp hm
  cases o with
  | registered w' b' id asker occupant =>
    obtain ⟨rfl, rfl, rfl, rfl⟩ : w' = w ∧ b' = b ∧ id = d.toId ∧ occupant = some e.conn := by
      simpa [Obs.note] using hnote
    -- the connection at the address is the one that sent the login
    have htrue := Transition.Reach.invariant (fun s hs => attributed_started hs)
      (fun s x t hi hok ht => hi.step hok.1 ht) h |>.log _ hmem
    obtain rfl : e.conn = asker := Option.some.inj htrue
    obtain ⟨l, hread, rfl, rfl, hid, hconn⟩ := asked_reached h _ hmem _ _ _ _ _ rfl
    exact ⟨l, hread, hid, hconn, hmem⟩
  | _ => simp [Obs.note] at hnote

/-- 7 sends a message to 9, both on worker 0, and the worker reads its pipe. -/
def relayedAndRead : List (Env × Event) := relayed ++ [(plainEnv 1, .newMsg 0)]

theorem relayedAndRead_reaches_addressee :
    ∃ s, Reached Wire.runtime (Distinct Wire.runtime) s ∧
      ⟨1, .relay (relayRecord 2 7 9), relayFrame 7 9⟩ ∈ s.sent ∧
      ∃ l : LoginData, LoginRead s.log l ∧ l.id = 9 ∧ l.conn = 1 ∧
        Obs.registered l.workThread l.bev 9 1 (some 1) ∈ s.log := by
  obtain ⟨s, hs, he⟩ := exists_reached Wire.runtime 1 relayedAndRead (Distinct Wire.runtime)
    (fun s => ⟨1, .relay (relayRecord 2 7 9), relayFrame 7 9⟩ ∈ s.sent)
    (by decide +kernel) (by decide +kernel)
  exact ⟨s, hs, he, relay_reaches_addressee hs he rfl rfl⟩

/-- A connection logs in as 7 and as 8 and closes; the next one is placed at the same address and
says nothing, and 9 sends a message to 7. -/
def orphanedSession : List (Env × Event) :=
  connect 0 1 ++ login 0 1 7 ++ login 0 1 8 ++
    [(plainEnv 1, .clientEvent 1 { eof := true }), (plainEnv 1, .redisReply 0 0 noFriends)] ++
    connect 0 1 ++ connect 0 2 ++ login 0 2 9 ++
    [(plainEnv 1, .clientRead 2 (relayFrame 9 7)),
      (plainEnv 1, .redisReply 0 0 (some { type := .string, str := some [0x31] })),
      (plainEnv 1, .newMsg 0)]

-- The close removes the session of 8 alone, and the silent connection reads the message.
example : ∃ s, Reached Wire.runtime (fun _ _ => True) s ∧
    ⟨1, .relay (relayRecord 3 9 7), relayFrame 9 7⟩ ∈ s.sent ∧
    ∀ o ∈ s.log, o.loginConn ≠ some 1 :=
  exists_reached Wire.runtime 1 orphanedSession _ _ (.of_forall (by simp) _) (by decide +kernel)

end Step

end Server

end EglComet
