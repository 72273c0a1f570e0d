import EglComet.WorkThread.Effects

/-!
Where relayed messages come from. A record passes through the read callback,
redis and possibly an HTTP check before it is written to a pipe, while the
records of other clients do the same; each place that can hold one is tied to
the entries of the history that let it get there.
-/
namespace EglComet

open Protobuf

/-- The frame of a record was read on a connection that `_bev_id` had under the sender's id. -/
def ReadFrom (log : List Obs) (d : Relay) : Prop :=
  d.fromId ≠ 0 ∧ ∃ w b, .relayRead w b d.fromId d ∈ log

section Authorised

variable {σ : Type} (R : Runtime σ)

/-- The relation request for the two ids of a record was sent. -/
def Requested (log : List Obs) (d : Relay) : Prop :=
  ∃ a url, .relationRequest d
    (getRelationPostData R a (signed d.fromId) (signed d.toId) url).1 ∈ log

/-- One of the ids is exempt, redis had the relation, or the HTTP service granted it. -/
def Cleared (log : List Obs) (d : Relay) : Prop :=
  wideId d.fromId = true ∨ wideId d.toId = true ∨
    (∃ w r, .redisAnswer w (relationCommand d) (some r) ∈ log ∧ r.type = .string) ∨
      Requested R log d ∧ ∃ reply, .relationAnswer d reply true ∈ log ∧
        ∀ a, (analyseRelationData R a reply).1 = true

structure Authorised (log : List Obs) (d : Relay) : Prop where
  readFrom : ReadFrom log d
  cleared : Cleared R log d

variable {R} {log log' : List Obs} {d : Relay}

theorem ReadFrom.mono (h : ReadFrom log d) (hl : log ⊆ log') : ReadFrom log' d := by
  obtain ⟨h0, w, b, hr⟩ := h
  exact ⟨h0, w, b, hl hr⟩

theorem Requested.mono (h : Requested R log d) (hl : log ⊆ log') : Requested R log' d := by
  obtain ⟨a, url, hr⟩ := h
  exact ⟨a, url, hl hr⟩

theorem Cleared.mono (h : Cleared R log d) (hl : log ⊆ log') : Cleared R log' d := by
  rcases h with h | h | ⟨w, r, hr, ht⟩ | ⟨hq, reply, hr, ha⟩
  · exact Or.inl h
  · exact Or.inr (Or.inl h)
  · exact Or.inr (Or.inr (Or.inl ⟨w, r, hl hr, ht⟩))
  · exact Or.inr (Or.inr (Or.inr ⟨hq.mono hl, reply, hl hr, ha⟩))

theorem Authorised.mono (h : Authorised R log d) (hl : log ⊆ log') : Authorised R log' d :=
  ⟨h.readFrom.mono hl, h.cleared.mono hl⟩

end Authorised

namespace Server

section Provenance

variable {σ : Type} (R : Runtime σ)

/-- Every place that holds a relayed record is accounted for by the history, and every record
written to a pipe by the history before the write. -/
structure Provenance (s : Server) : Prop where
  redis : ∀ w, ∀ c ∈ (s.workThread w).redis, ∀ d, c.callback = .trans d →
    c = relationCommand d ∧ ReadFrom s.log d
  http : ∀ h be, s.heap.lookup h = some be → ∀ d sent, be.owner = .httpTrans d sent →
    ReadFrom s.log d ∧ (sent = true → Requested R s.log d)
  log : ∀ before after j d, s.log = before ++ .enqueued j d :: after → d.origin = .client →
    ∃ r : Relay, r.toTransData = d ∧ Authorised R before r
  pipe : ∀ w, ∀ d ∈ (s.workThread w).newMsgFd, .enqueued w d ∈ s.log

/-- What may be added after a history. -/
def Sourced (log : List Obs) : Item → Prop
  | .cmd _ c => ∀ d, c.callback = .trans d → c = relationCommand d ∧ ReadFrom log d
  | .owner o => ∀ d sent, o = .httpTrans d sent →
      ReadFrom log d ∧ (sent = true → Requested R log d)
  | .obs o => ∀ j d, o = .enqueued j d → d.origin = .client →
      ∃ r : Relay, r.toTransData = d ∧ Authorised R log r
  | _ => True

theorem tolerant_sourced (log : List Obs) : Tolerant (Sourced R log) where
  obs o ho := by
    rintro j d rfl hd
    simp [Obs.minor, hd] at ho
  offline w id := by
    rintro d ⟨⟩
  client w conn := by
    rintro d sent ⟨⟩
  sent _ _ := trivial

theorem sourced_deletedTrans (log : List Obs) (d : TransData) :
    Sourced R log (.obs (.deletedTrans d)) := by
  rintro j d ⟨⟩

variable {R} {s t : Server}

theorem Provenance.grows (h : s.Provenance R) (hg : Grows (Sourced R s.log) s t) :
    t.Provenance R := by
  obtain ⟨added, hl, hadd⟩ := hg.log
  have hsub : s.log ⊆ t.log := fun o ho => hg.mem_log ho
  constructor
  · intro w c hc d hd
    obtain ⟨he, hr⟩ := (hg.redis w c hc).elim (fun hc => h.redis w c hc d hd) fun hn => hn d hd
    exact ⟨he, hr.mono hsub⟩
  · intro a be hb d sent ho
    have hw : ReadFrom s.log d ∧ (sent = true → Requested R s.log d) := by
      rcases hg.heap a be hb with ⟨a', be', hb', ho'⟩ | hn
      · exact h.http a' be' hb' d sent (ho'.trans ho)
      · exact hn d sent ho
    exact ⟨hw.1.mono hsub, fun hsent => (hw.2 hsent).mono hsub⟩
  · intro before after j d hs hd
    rw [hl] at hs
    rcases List.append_eq_append_iff.mp hs with ⟨xs, hb, ha⟩ | ⟨xs, hb, ha⟩
    · obtain ⟨r, hr, hauth⟩ := hadd (.enqueued j d) (by simp [ha]) j d rfl hd
      exact ⟨r, hr, hauth.mono (by simp [hb])⟩
    · cases xs with
      | nil =>
        rw [List.nil_append] at ha
        obtain ⟨r, hr, hauth⟩ := hadd (.enqueued j d) (by simp [← ha]) j d rfl hd
        exact ⟨r, hr, hauth.mono (by simp [hb])⟩
      | cons x xs =>
        obtain ⟨rfl, -⟩ := List.cons.inj ha
        exact h.log before xs j d hb hd
  · intro w d hd
    rcases hg.pipe w d hd with hd | hd
    · exact hsub (h.pipe w d hd)
    · exact hd

theorem Provenance.transmit {env : Env} {d : Relay} (h : s.Provenance R)
    (ha : Authorised R s.log d) : (s.transmit env d.toTransData).Provenance R := by
  apply h.grows
  refine grows_transmit ?_ (sourced_deletedTrans R s.log _)
  rintro j _ _ ⟨⟩ -
  exact ⟨d, rfl, ha⟩

/-- Only the entries of records written to a pipe matter. -/
theorem Provenance.emit {o : Obs} (h : s.Provenance R) (ho : ∀ j d, o ≠ .enqueued j d) :
    (s.emit o).Provenance R :=
  h.grows (grows_emit fun j d he => absurd he (ho j d))

theorem Provenance.deleteTrans {d : TransData} (h : s.Provenance R) :
    (s.deleteTrans d).Provenance R :=
  h.emit (by simp)

end Provenance

section Step

variable {σ : Type} {R : Runtime σ} {s t : Server}

theorem provenance_startTrans {env : Env} {w : ℕ} {b : Addr} {id : UInt64} {d : Option TransData}
    (h : s.Provenance R) (hid : ((s.workThread w).bevId.lookup b).getD 0 = id) :
    (startTrans env w b id s d).Provenance R := by
  cases d with
  | none => exact h
  | some d =>
    let r : Relay :=
      { d with
        msgType := .trans, workThread := w, seq := s.nextSeq, origin := .client, isTrans := rfl }
    let u := { s with nextSeq := s.nextSeq + 1 }.emit (.relayRead w b id r)
    have hu : u.Provenance R :=
      (h.grows grows_nextSeq).emit (o := .relayRead w b id r) (by simp)
    have hread : id ≠ 0 ∧ id = r.fromId → ReadFrom u.log r := fun hc =>
      ⟨hc.2 ▸ hc.1, w, b, by simp [u, Server.emit, ← hc.2]⟩
    simp only [startTrans, hid]
    split_ifs with hc hwide
    · apply hu.transmit (d := r)
      constructor
      · exact hread hc
      · rcases (Bool.or_eq_true _ _).mp hwide with hw | hw
        · exact Or.inl (hc.2 ▸ hw)
        · exact Or.inr (Or.inl hw)
    · apply hu.grows
      apply grows_redisAsyncCommand
      rintro _ ⟨⟩
      exact ⟨rfl, hread hc⟩
    · exact hu.deleteTrans

theorem provenance_handleRequest {env : Env} {w conn : ℕ} {b : Addr} {id : UInt64} {r : Analysed}
    (h : s.Provenance R) (hid : ((s.workThread w).bevId.lookup b).getD 0 = id) :
    (handleRequest env w b conn id s r).Provenance R := by
  have hl : (refreshHeartbeat env w b id
      (startLogin w b conn s r.req.loginData) r.req.isHeart).Provenance R := by
    refine h.grows ((grows_startLogin fun d _ => ⟨?_, ?_⟩).trans
      (grows_refreshHeartbeat fun _ _ _ _ => ⟨trivial, ?_⟩))
    · rintro _ ⟨⟩
    · rintro _ _ ⟨⟩
    · rintro _ _ ⟨⟩
  apply provenance_startTrans hl
  rw [bevId_of_registry_eq (s := s), hid]
  rw [registry_refreshHeartbeat, registry_startLogin]

/-- A record of a client in a pipe was read. -/
theorem Provenance.queued {w : ℕ} {m : TransData} (h : s.Provenance R)
    (hm : m ∈ (s.workThread w).newMsgFd) (ho : m.origin = .client) :
    ∃ r : Relay, r.toTransData = m ∧ ReadFrom s.log r := by
  obtain ⟨before, after, hl⟩ := List.append_of_mem (h.pipe w m hm)
  obtain ⟨r, hr, ha⟩ := h.log before after w m hl ho
  exact ⟨r, hr, ha.readFrom.mono (by simp [hl])⟩

theorem provenance_clientRead {env : Env} {w conn : ℕ} {b : Addr} {be : BufferEvent}
    (h : s.Provenance R) (ho : be.owner = .client w conn) (hb : s.client b = some (w, conn))
    (ht : s.bufferEventReadCallback R env w conn b be = some t) : t.Provenance R := by
  obtain ⟨x, hx, -, -, -, htail⟩ :=
    bufferEventReadCallback_turns R (P := fun t => t.Provenance R) ho hb h
      (fun u _ _ _ r hr hu _ => provenance_handleRequest hu (by rw [bevId_of_registry_eq hr])) ht
  exact hx.grows (htail _ (tolerant_sourced R x.log) trivial)

theorem provenance_redisCallback {env : Env} {w i : ℕ} {reply : Option RedisReply}
    {cmd : RedisCommand} (h : s.Provenance R) (hc : (s.workThread w).redis[i]? = some cmd)
    (ht : redisCallback R env (s.takeCommand w i cmd reply) reply cmd.callback = some t) :
    t.Provenance R := by
  have hu : (s.takeCommand w i cmd reply).Provenance R :=
    h.grows (grows_takeCommand (tolerant_sourced R s.log) hc trivial)
  have hE := tolerant_sourced R (s.takeCommand w i cmd reply).log
  cases hcb : cmd.callback with
  | login d =>
    rw [hcb] at ht
    obtain rfl := Option.some.inj ht
    refine hu.grows (grows_redisLoginCallback R hE ?_ (fun _ _ _ => trivial) fun _ =>
      ⟨?_, trivial, ?_, fun _ _ _ => trivial⟩)
    · rintro _ _ ⟨⟩
    · rintro _ _ ⟨⟩
    · rintro _ ⟨⟩
  | trans d =>
    obtain ⟨hcmd, hread⟩ := h.redis w cmd (List.mem_of_getElem? hc) d hcb
    have hread : ReadFrom (s.takeCommand w i cmd reply).log d := hread.mono fun o ho => by
      simp [takeCommand, Server.emit, modify, ho]
    rw [hcb] at ht
    obtain ⟨r, rfl, rfl⟩ := Option.map_eq_some_iff.mp ht
    split_ifs with hty
    · apply hu.grows
      refine grows_httpTransCheck R hE ?_ (sourced_deletedTrans R _ _)
      rintro _ _ ⟨⟩
      exact ⟨hread, by simp⟩
    · have hanswer : .redisAnswer w (relationCommand d) (some r) ∈
          (s.takeCommand w i cmd (some r)).log := by
        simp [takeCommand, Server.emit, hcmd]
      apply hu.transmit
      exact ⟨hread, Or.inr (Or.inr (Or.inl ⟨w, r, hanswer, not_not.mp hty⟩))⟩
  | online info =>
    rw [hcb] at ht
    apply hu.grows
    apply grows_redisOnlineNotify R hE ht
    rintro - _ _ ⟨⟩
  | offline info =>
    rw [hcb] at ht
    exact hu.grows (grows_redisOfflineNotify R hE ht)

theorem provenance_httpTransRead {env : Env} {a : Addr} {d : Relay} {data : Bytes}
    (h : s.Provenance R) (hread : ReadFrom s.log d) (hreq : Requested R s.log d) :
    (s.httpTransRead R env a d data).Provenance R := by
  let r := analyseRelationData R (s.workThread d.workThread).analyseReq data
  let u := (s.setAnalyseReq d.workThread r.2).emit (.relationAnswer d data r.1)
  have hu : u.Provenance R := (h.grows (grows_setAnalyseReq (Or.inr trivial))).emit (by simp)
  have hsub : s.log ⊆ u.log := fun o ho => by simp [u, Server.emit, setAnalyseReq, modify, ho]
  have hv : (if r.1 then u.transmit env d.toTransData
      else u.deleteTrans d.toTransData).Provenance R := by
    split_ifs with hr
    · have hanswer : .relationAnswer d data true ∈ u.log := by simp [u, Server.emit, hr]
      have hgrant : ∀ a', (analyseRelationData R a' data).1 = true := by
        intro a'
        rw [analyseRelationData_iff]
        exact (analyseRelationData_iff R _ data).mp hr
      apply hu.transmit
      exact ⟨hread.mono hsub,
        Or.inr (Or.inr (Or.inr ⟨hreq.mono hsub, data, hanswer, hgrant⟩))⟩
    · exact hu.deleteTrans
  exact hv.grows (grows_bufferEventFree (tolerant_sourced R _))

theorem provenance_httpTransEvent {env : Env} {a : Addr} {d : Relay} {flags : Flags}
    (h : s.Provenance R) (hread : ReadFrom s.log d) :
    (s.httpTransEvent R env a d flags).Provenance R := by
  have hE := tolerant_sourced R s.log
  simp only [httpTransEvent]
  split_ifs with hf hc hadd
  · exact h.grows
      ((grows_deleteTrans (sourced_deletedTrans R _ _)).trans (grows_bufferEventFree hE))
  · split
    · refine Provenance.grows ((h.grows (grows_setAnalyseReq (Or.inr trivial))).emit (by simp))
        (grows_insert ?_ (by rintro _ ⟨⟩))
      rintro _ _ ⟨⟩
      refine ⟨hread.mono fun o ho => ?_, fun _ => ?_⟩
      · simp [Server.emit, setAnalyseReq, modify, ho]
      · exact ⟨_, _, List.mem_append_right _ (List.mem_singleton_self _)⟩
    · exact (h.grows (grows_setAnalyseReq (Or.inr trivial))).emit (by simp)
  · exact h.grows ((Grows.trans (grows_setAnalyseReq (Or.inr trivial))
      (grows_bufferEventFree hE)).trans (grows_deleteTrans (sourced_deletedTrans R _ _)))
  · exact h

theorem Provenance.step {x : Env × Event} (h : s.Provenance R) (ht : step R s x = some t) :
    t.Provenance R := by
  have hE := tolerant_sourced R s.log
  obtain ⟨env, ev⟩ := x
  rcases step_cases R ht with hq | ha
  · exact h.grows (hq.grows hE (fun _ _ => trivial) (fun _ _ => trivial)
      (fun _ _ _ _ _ => trivial) fun _ _ d _ => sourced_deletedTrans R _ d)
  cases ha with
  | clientRead hb ht => exact provenance_clientRead h rfl (client_of_lookup hb) ht
  | redisReply hc ht => exact provenance_redisCallback h hc ht
  | loginRead d hb =>
    refine h.grows (grows_httpLoginRead R hE (fun _ _ _ => trivial) fun _ _ =>
      ⟨?_, trivial, ?_, fun _ _ _ => trivial⟩)
    · rintro _ _ ⟨⟩
    · rintro _ ⟨⟩
  | transRead d hb =>
    obtain ⟨hread, hreq⟩ := h.http _ _ hb d true rfl
    exact provenance_httpTransRead h hread (hreq rfl)
  | loginEvent d sent hb =>
    apply h.grows
    apply grows_httpLoginEvent R hE _ fun _ _ _ => trivial
    rintro - _ _ ⟨⟩
  | transEvent d sent hb => exact provenance_httpTransEvent h (h.http _ _ hb d sent rfl).1

theorem provenance_started (h : s.Started) : s.Provenance R := by
  obtain ⟨num, cap, ping, url, heart, rfl⟩ := h
  constructor <;> simp [start]

/-- Whatever the clients and the backends do, a record of a client that is written to a pipe was
authorised before, and so was every one that a pipe still holds. -/
theorem relayed_authorised {ok : Server → Env × Event → Prop} (h : Reached R ok s) :
    (∀ before after j d, s.log = before ++ .enqueued j d :: after → d.origin = .client →
      ∃ r : Relay, r.toTransData = d ∧ Authorised R before r) ∧
    ∀ w, ∀ d ∈ (s.workThread w).newMsgFd, d.origin = .client →
      ∃ r : Relay, r.toTransData = d ∧ Authorised R s.log r := by
  have hp : s.Provenance R := Transition.Reach.invariant (fun s hs => provenance_started hs)
    (fun s x t hi _ ht => hi.step ht) h
  refine ⟨hp.log, ?_⟩
  intro w d hd ho
  obtain ⟨before, after, hl⟩ := List.append_of_mem (hp.pipe w d hd)
  obtain ⟨r, hr, ha⟩ := hp.log before after w d hl ho
  exact ⟨r, hr, ha.mono (by simp [hl])⟩

/-- A relay frame with one-byte ids. -/
def relayFrame (fromId toId : UInt8) : Bytes :=
  [0x15, 0x40, 0x00, 0x00, 0, 0, 0, 0, 0, 0, 0, fromId, 0, 0, 0, 0, 0, 0, 0, toId,
    0x00, 0x0b, 0x01, 0x00, 0x01, 0x68]

/-- The record that worker 0 builds from such a frame. -/
def relayRecord (seq : ℕ) (fromId toId : UInt8) : TransData where
  fromId := fromId.toUInt64
  toId := toId.toUInt64
  dataSize := 26
  data := relayFrame fromId toId
  seq := seq
  origin := .client

/-- 7 sends a message to 9, both on worker 0, and redis knows the relation. -/
def relayed : List (Env × Event) :=
  connect 0 1 ++ login 0 1 7 ++ connect 0 2 ++ login 0 2 9 ++
    [(plainEnv 1, .clientRead 1 (relayFrame 7 9)),
      (plainEnv 1, .redisReply 0 0 (some { type := .string, str := some [0x31] }))]

theorem relayed_is_authorised :
    ∃ s, Reached Wire.runtime (fun _ _ => True) s ∧
      (s.workThread 0).newMsgFd = [relayRecord 2 7 9] ∧
      ∃ r : Relay, r.toTransData = relayRecord 2 7 9 ∧ Authorised Wire.runtime s.log r := by
  obtain ⟨s, hs, hq⟩ := exists_reached Wire.runtime 1 relayed (fun _ _ => True)
    (fun s => (s.workThread 0).newMsgFd = [relayRecord 2 7 9]) (.of_forall (by simp) _)
    (by decide +kernel)
  exact ⟨s, hs, hq, (relayed_authorised hs).2 0 _ (by simp [hq]) rfl⟩

end Step

end Server

end EglComet
