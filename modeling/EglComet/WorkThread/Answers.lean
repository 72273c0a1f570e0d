import EglComet.WorkThread.Checks
import EglComet.WorkThread.Custody
import EglComet.WorkThread.LiveKeys

/-!
Every login request is answered once, on its own connection. A request is
pending until its check ends; the branches that end a check without a word are
the condition under which this holds.
-/
namespace EglComet

open Protobuf

namespace Server

section Condition

variable {σ : Type} (R : Runtime σ)

/-- The check of `d` ends without a reply on its connection: redis accepts the login that the
connection already has, there is no socket for the HTTP service, the service cannot be reached and
the id is no key of `_bev_id`, or the request to it cannot be sent. -/
def silent (s : Server) (x : Env × Event) (d : LoginData) : Bool :=
  let t := s.workThread d.workThread
  match x.2 with
  | .redisReply _ _ reply =>
    match reply.bind RedisReply.str with
    | none =>
      match x.1.connect with
      | .started => false
      | .failed => decide (d.id.toNat ∉ t.bevId)
      | .noSocket => true
    | some str =>
      decide (cstr d.token = cstr str) &&
        decide ((t.subMap.lookup d.id).map Subscriber.bev = some d.bev)
  | .httpEvent _ flags =>
    if flags.eof || flags.error then decide (d.id.toNat ∉ t.bevId)
    else flags.connected && !x.1.addOk
  | _ => false

/-- No check of a login ends silently, and no login is approved on the connection that already is
the session of its id. -/
def Answering (s : Server) (x : Env × Event) : Prop :=
  s.FreshLogin R x ∧ ∀ d ∈ s.checkedLogin x.2, s.silent x d = false

instance (s : Server) (x : Env × Event) : Decidable (s.Answering R x) :=
  inferInstanceAs (Decidable ((∀ d ∈ s.approval R x.2, _) ∧ ∀ d ∈ s.checkedLogin x.2, _))

end Condition

/-- A request is pending or was answered, and what was sent for it went to its connection. -/
def Attended (s : Server) (d : LoginData) : Prop :=
  (s.PendingLogin d ∨ ∃ e ∈ s.sent, e.source.number = some d.seq) ∧
    ∀ e ∈ s.sent, e.source.number = some d.seq → e.conn = d.conn

/-- Connections are numbered in order, and every request read on a connection that is still open is
attended to. -/
structure Served (s : Server) : Prop where
  client : s.Numbered
  read : ∀ d, LoginRead s.log d → d.conn < s.nextConn
  attended : ∀ d, LoginRead s.log d → s.client d.bev = some (d.workThread, d.conn) → s.Attended d

section Rules

variable {s t : Server} {d : LoginData} {E : Item → Prop}

/-- A connection that is open after a step was open before it, unless it is new. -/
theorem Served.client_of_grows (h : s.Served) (hg : Grows E s t) (hd : LoginRead s.log d)
    (hc : t.client d.bev = some (d.workThread, d.conn)) :
    s.client d.bev = some (d.workThread, d.conn) := by
  rcases hg.clients d.bev _ hc with hold | ⟨hnew, -⟩
  · exact hold
  · exact absurd (h.read d hd) (not_lt.mpr hnew)

/-- A pending request stays pending while no event goes on with it. -/
theorem PendingLogin.kept {E' : Obs → Prop} {a : Option Addr} (h : s.PendingLogin d)
    (hg : Grows E s t) (hc : Careful E' a s t)
    (ht : ∀ w c, c.callback = .login d → ¬ E (.taken w c))
    (ha : ∀ be sent, ∀ b ∈ a, s.heap.lookup b = some be → be.owner ≠ .httpLogin d sent) :
    t.PendingLogin d := by
  rcases h with ⟨w, c, hm, hcb⟩ | ⟨b, be, sent, hb, ho⟩
  · exact Or.inl ⟨w, c, (hg.taken w c hm).resolve_right (ht w c hcb), hcb⟩
  · have hcheck : t.checkAt b = some (.httpLogin d sent) := by
      apply hc.check b _ _ (by simp [checkAt, hb, ho, Owner.connection])
      intro hab
      exact ha be sent b hab hb ho
    obtain ⟨be', hb', ho'⟩ := Option.bind_eq_some_iff.mp hcheck
    refine Or.inr ⟨b, be', sent, hb', ?_⟩
    split_ifs at ho'
    exact Option.some.inj ho'

/-- A request stays attended to while nothing is sent for it. -/
theorem Attended.kept (h : s.Attended d)
    (hs : ∃ added, t.sent = s.sent ++ added ∧ ∀ e ∈ added, e.source.number ≠ some d.seq)
    (hp : s.PendingLogin d → t.PendingLogin d) : t.Attended d := by
  obtain ⟨added, hs, hadd⟩ := hs
  constructor
  · rcases h.1 with hpend | ⟨e, he, hn⟩
    · exact Or.inl (hp hpend)
    · exact Or.inr ⟨e, hs ▸ List.mem_append_left added he, hn⟩
  · intro e he hn
    rw [hs] at he
    rcases List.mem_append.mp he with hold | hnew
    · exact h.2 e hold hn
    · exact absurd hn (hadd e hnew)

end Rules

section Checked

variable {σ : Type} (R : Runtime σ) {s t u : Server} {d : LoginData} {env : Env} {h : Addr}

/-- Nothing was sent for a request yet. -/
def Unanswered (s : Server) (d : LoginData) : Prop := ∀ e ∈ s.sent, e.source.number ≠ some d.seq

theorem Unanswered.attended_of_pending (hn : s.Unanswered d) (hp : t.PendingLogin d)
    (hs : t.sent = s.sent) : t.Attended d := by
  refine ⟨Or.inl hp, fun e he hnum => ?_⟩
  rw [hs] at he
  exact absurd hnum (hn e he)

/-- A reply at the address of the request, while its connection lives there. -/
theorem Unanswered.attended_of_entry {isSuccess : Bool} {bs : Bytes} (hn : s.Unanswered d)
    (ho : u.occupant d.bev = some d.conn)
    (hs : t.sent = s.sent ++ u.entryAt d.bev (.loginRsp d isSuccess) bs) : t.Attended d := by
  have hentry : u.entryAt d.bev (.loginRsp d isSuccess) bs =
      [⟨d.conn, .loginRsp d isSuccess, bs⟩] := by
    simp [entryAt, ho]
  rw [hentry] at hs
  constructor
  · exact Or.inr ⟨_, hs ▸ List.mem_append_right _ (List.mem_singleton_self _), rfl⟩
  · intro e he hnum
    rw [hs, List.mem_append, List.mem_singleton] at he
    rcases he with he | rfl
    · exact absurd hnum (hn e he)
    · rfl

theorem occupant_of_client {c : ℕ × ℕ} {b : Addr} (hc : s.client b = some c) :
    s.occupant b = some c.2 := by
  simp [occupant, hc]

/-- The connection of a request survives its registration if it is not the session it replaces. -/
theorem occupant_kick (hk : s.registry.KnownLive) (hb : d.bev ∈ (s.workThread d.workThread).bevId)
    (hf : ((s.workThread d.workThread).subMap.lookup d.id).map Subscriber.bev ≠ some d.bev) :
    (s.kick d.workThread d.id).occupant d.bev = s.occupant d.bev := by
  have hl := hk.live_kick_eq (w := d.workThread) (x := d.id) (j := d.workThread) hb fun h => hf h.2
  rw [← registry_kick] at hl
  exact congrArg (Option.map Prod.snd) hl

theorem Unanswered.httpLoginEvent {flags : Flags} (hn : s.Unanswered d)
    (hc : s.client d.bev = some (d.workThread, d.conn)) (hf : (flags.eof || flags.error) = true)
    (hi : d.id.toNat ∈ (s.workThread d.workThread).bevId) :
    (s.httpLoginEvent R env h d flags).Attended d := by
  obtain ⟨bs, hs⟩ := sent_httpLoginEvent R env s h d flags
  rw [if_pos ⟨hf, hi⟩] at hs
  exact hn.attended_of_entry (occupant_of_client hc) hs

theorem Unanswered.httpLoginCheck (hn : s.Unanswered d)
    (hc : s.client d.bev = some (d.workThread, d.conn))
    (hi : env.connect = .started ∨
      env.connect = .failed ∧ d.id.toNat ∈ (s.workThread d.workThread).bevId) :
    (s.httpLoginCheck R env d).Attended d := by
  let v := s.setHeap (s.heap.insert (env.alloc.next s.heap) { owner := .httpLogin d false })
  simp only [Server.httpLoginCheck]
  rcases hi with hconn | ⟨hconn, hi⟩
  · simp only [hconn]
    refine hn.attended_of_pending (t := v) (Or.inr ?_) rfl
    exact ⟨env.alloc.next s.heap, { owner := .httpLogin d false }, false, by simp [v, setHeap], rfl⟩
  · simp only [hconn]
    have hv : v.client d.bev = some (d.workThread, d.conn) := by
      have hne : d.bev ≠ env.alloc.next s.heap := by
        intro he
        rw [he, client_alloc] at hc
        simp at hc
      rw [client_setHeap_insert, if_neg hne]
      exact hc
    obtain ⟨bs, hs⟩ := sent_httpLoginEvent R env v (env.alloc.next s.heap) d { error := true }
    rw [if_pos ⟨rfl, hi⟩] at hs
    exact hn.attended_of_entry (u := v) (occupant_of_client hv) hs

theorem Unanswered.redisLoginCallback {reply : Option RedisReply} (hn : s.Unanswered d)
    (hc : s.client d.bev = some (d.workThread, d.conn)) (hk : s.registry.KnownLive)
    (hb : d.bev ∈ (s.workThread d.workThread).bevId)
    (hnone : reply.bind RedisReply.str = none →
      env.connect = .started ∨
        env.connect = .failed ∧ d.id.toNat ∈ (s.workThread d.workThread).bevId)
    (hsome : ∀ str, reply.bind RedisReply.str = some str → cstr d.token = cstr str →
      ((s.workThread d.workThread).subMap.lookup d.id).map Subscriber.bev ≠ some d.bev) :
    (s.redisLoginCallback R env d reply).Attended d := by
  have ht := redisLoginCallback_outcome R env s d reply
  generalize s.redisLoginCallback R env d reply = t at ht ⊢
  cases ht with
  | gone hgone => exact absurd hb hgone
  | repeated _ hs hsame =>
    obtain ⟨str, hstr, htok⟩ := hs
    exact absurd hsame (hsome str hstr htok)
  | asked _ hs => exact hn.httpLoginCheck R hc (hnone hs)
  | refused =>
    obtain ⟨bs, hs⟩ := sent_replyLogin R env s d false "wrong id or token"
    exact hn.attended_of_entry (occupant_of_client hc) hs
  | accepted ha =>
    obtain ⟨bs, hs⟩ := sent_registerLogin R env s d
      ((List.range s.workThreadNum).filter (· ≠ d.workThread))
    refine hn.attended_of_entry ?_ hs
    rw [occupant_kick hk hb ha.2.2]
    exact occupant_of_client hc

theorem Unanswered.httpLoginRead {data : Bytes} (hn : s.Unanswered d)
    (hc : s.client d.bev = some (d.workThread, d.conn)) (hk : s.registry.KnownLive)
    (hb : d.bev ∈ (s.workThread d.workThread).bevId)
    (hf : (analyseLoginData R (s.workThread d.workThread).analyseReq data).1 = true →
      ((s.workThread d.workThread).subMap.lookup d.id).map Subscriber.bev ≠ some d.bev) :
    (s.httpLoginRead R env h d data).Attended d := by
  have ht := httpLoginRead_verdict R env s h d data
  generalize s.httpLoginRead R env h d data = t at ht ⊢
  cases ht with
  | gone hgone => exact absurd hb hgone
  | accepted _ ha a _ =>
    have hr := registry_setAnalyseReq s d.workThread a
    obtain ⟨bs, hs⟩ := sent_registerLogin R env (s.setAnalyseReq d.workThread a) d
      (List.range s.workThreadNum)
    refine hn.attended_of_entry ?_ hs
    rw [occupant_kick]
    · exact occupant_of_client hc
    · rwa [hr]
    · rwa [bevId_of_registry_eq hr]
    · rw [bev_of_registry_eq hr]
      exact hf ha
  | refused _ _ a _ =>
    obtain ⟨bs, hs⟩ := sent_replyLogin R env (s.setAnalyseReq d.workThread a) d false
      "wrong id or token"
    exact hn.attended_of_entry (u := s.setAnalyseReq d.workThread a) (occupant_of_client hc) hs

end Checked

section Step

variable {σ : Type} {R : Runtime σ} {s t : Server} {x : Env × Event} {d : LoginData}

theorem PendingLogin.tally_pos (h : s.PendingLogin d) : ∃ p, 0 < s.tally d.seq (some p) := by
  rcases h with ⟨w, c, hc, hcb⟩ | ⟨a, be, sent, hb, ho⟩
  · refine ⟨.redis w, ?_⟩
    simp only [tally, copies, List.countP_pos_iff]
    exact ⟨c, hc, by simp [hcb, RedisCallback.number]⟩
  · exact ⟨.http a, by simp [tally, copies, hb, ho, Owner.number]⟩

/-- A request that is pending was not answered yet. -/
theorem Custody.unanswered (h : s.Custody) (hd : s.PendingLogin d) : s.Unanswered d := by
  obtain ⟨p, hp⟩ := hd.tally_pos
  have hz := (h.once d.seq).elsewhere hp none
  rw [if_neg (by simp)] at hz
  intro e he hn
  exact absurd (tally_pos_of_sent he hn) (not_lt.mpr hz)

theorem attended_checked (hk : s.Kept R) (hl : s.registry.KnownLive)
    (hl' : s.registry.LiveKnown) (ha : s.Answering R x) (hd : d ∈ s.checkedLogin x.2)
    (hc : s.client d.bev = some (d.workThread, d.conn)) (ht : step R s x = some t) :
    t.Attended d := by
  have hn : s.Unanswered d := hk.custody.unanswered (checkedLogin_pending hd).2
  have hb : d.bev ∈ (s.workThread d.workThread).bevId := hl' _ _ _ hc
  have hsil := ha.2 d hd
  obtain ⟨env, ev⟩ := x
  rcases step_cases R ht with hq | hact
  · cases hq <;> simp [checkedLogin] at hd
  cases hact with
  | clientRead => simp [checkedLogin] at hd
  | @redisReply w i reply cmd _ hcmd ht =>
    have hcb : cmd.callback = .login d := by
      simp only [checkedLogin, hcmd, Option.bind_some, Option.mem_def] at hd
      cases hcb : cmd.callback <;> simp_all [RedisCallback.loginData]
    rw [hcb] at ht
    obtain rfl := Option.some.inj ht
    have hr := registry_takeCommand s w i cmd reply
    have hbid := bevId_of_registry_eq hr (w := d.workThread)
    have hbev := bev_of_registry_eq hr (w := d.workThread) d.id
    apply Unanswered.redisLoginCallback R (s := s.takeCommand w i cmd reply) hn
    · exact (client_eq_of_registry_eq hr d.bev).trans hc
    · rwa [hr]
    · rwa [hbid]
    · intro hs
      rw [hbid]
      cases hconn : env.connect <;> simp_all [silent]
    · intro str hs htok
      rw [hbev]
      simpa [silent, hs, htok] using hsil
  | @loginRead a chunk input output l hbe =>
    obtain rfl : l = d := by simpa [checkedLogin, hbe, Owner.loginData] using hd
    apply Unanswered.httpLoginRead R hn hc hl hb
    intro hr
    apply ha.1 l
    simp only [approval, hbe]
    exact if_pos ⟨hb, hr⟩
  | transRead r hbe => simp [checkedLogin, hbe, Owner.loginData] at hd
  | @loginEvent a flags input output l sent hbe =>
    obtain rfl : l = d := by simpa [checkedLogin, hbe, Owner.loginData] using hd
    by_cases hf : (flags.eof || flags.error) = true
    · apply Unanswered.httpLoginEvent R hn hc hf
      simpa [silent, hf] using hsil
    · have hok : flags.connected = true → env.addOk = true := by simpa [silent, hf] using hsil
      simp only [httpLoginEvent, if_neg hf]
      split_ifs with hconn hadd
      · simp only [setAnalyseReq, modify, hbe]
        refine hn.attended_of_pending (Or.inr ?_) rfl
        exact ⟨a, _, true, Finmap.lookup_insert _, rfl⟩
      · exact absurd (hok hconn) hadd
      · exact hn.attended_of_pending (Or.inr ⟨a, _, sent, hbe, rfl⟩) rfl
  | transEvent r sent hbe => simp [checkedLogin, hbe, Owner.loginData] at hd

/-- The check an event goes on with is of a login request or of a record. -/
theorem checked_of_number {ev : Event} {n : ℕ} (h : s.checkedNumber ev = some n) :
    (∃ l ∈ s.checkedLogin ev, l.seq = n) ∨ ∃ r ∈ s.checkedRelay ev, r.seq = n := by
  have howner : ∀ o : Owner, o.number = some n →
      (∃ l ∈ o.loginData, l.seq = n) ∨ ∃ r ∈ o.transData, r.seq = n := by
    intro o ho
    cases o <;> simp_all [Owner.number, Owner.loginData, Owner.transData]
  cases ev with
  | redisReply w i reply =>
    obtain ⟨c, hc, hn⟩ := Option.bind_eq_some_iff.mp h
    simp only [checkedLogin, checkedRelay, hc, Option.bind_some]
    cases hcb : c.callback <;>
      simp_all [RedisCallback.number, RedisCallback.loginData, RedisCallback.transData]
  | httpRead a chunk =>
    obtain ⟨be, hb, hn⟩ := Option.bind_eq_some_iff.mp h
    simpa only [checkedLogin, checkedRelay, hb, Option.bind_some] using howner be.owner hn
  | httpEvent a flags =>
    obtain ⟨be, hb, hn⟩ := Option.bind_eq_some_iff.mp h
    simpa only [checkedLogin, checkedRelay, hb, Option.bind_some] using howner be.owner hn
  | _ => simp [checkedNumber] at h

theorem Provenance.checkedRelay (h : s.Provenance R) {ev : Event} {r : Relay}
    (hr : r ∈ s.checkedRelay ev) : ReadFrom s.log r := by
  have howner : ∀ a be, s.heap.lookup a = some be → be.owner.transData = some r →
      ReadFrom s.log r := by
    intro a be hb ho
    cases hbo : be.owner with
    | httpTrans l sent =>
      obtain rfl : l = r := by simpa [hbo, Owner.transData] using ho
      exact (h.http a be hb l sent hbo).1
    | client | httpLogin => simp [hbo, Owner.transData] at ho
  cases ev with
  | redisReply w i reply =>
    obtain ⟨c, hc, hd⟩ := Option.bind_eq_some_iff.mp hr
    cases hcb : c.callback with
    | trans l =>
      obtain rfl : l = r := by simpa [hcb, RedisCallback.transData] using hd
      exact (h.redis w c (List.mem_of_getElem? hc) l hcb).2
    | login | online | offline => simp [hcb, RedisCallback.transData] at hd
  | httpRead a chunk =>
    obtain ⟨be, hb, hd⟩ := Option.bind_eq_some_iff.mp hr
    exact howner a be hb hd
  | httpEvent a flags =>
    obtain ⟨be, hb, hd⟩ := Option.bind_eq_some_iff.mp hr
    exact howner a be hb hd
  | _ => simp [Server.checkedRelay] at hr

theorem Recorded.readFrom_ne {r : Relay} (h : s.Recorded R) (hr : ReadFrom s.log r)
    (hd : LoginRead s.log d) : d.seq ≠ r.seq := by
  obtain ⟨-, w, b, hr⟩ := hr
  exact h.login_ne hr hd

/-- An event that goes on with the number of a login request goes on with that request. -/
theorem Kept.checkedLogin {ev : Event} (h : s.Kept R) (hd : LoginRead s.log d)
    (hn : s.checkedNumber ev = some d.seq) : d ∈ s.checkedLogin ev := by
  rcases checked_of_number hn with ⟨l, hl, hseq⟩ | ⟨r, hr, hseq⟩
  · have hread := h.recorded.login l (checkedLogin_pending hl).2
    have he := h.recorded.unique hread hd (congrArg some hseq) rfl
    injection he with _ _ he
    exact he ▸ hl
  · exact absurd hseq.symm (h.recorded.readFrom_ne (h.provenance.checkedRelay hr) hd)

/-- No record in a pipe has the number of a login request. -/
theorem Kept.queue_ne {w : ℕ} {m : TransData} (h : s.Kept R) (hd : LoginRead s.log d)
    (hm : m ∈ (s.workThread w).newMsgFd) : m.number ≠ some d.seq := by
  intro hn
  have ho := TransData.number_eq_some.mp hn
  obtain ⟨r, rfl, hr⟩ := h.provenance.queued hm ho.1
  exact h.recorded.readFrom_ne hr hd ho.2.symm

end Step

section Reads

variable {s t : Server} {env : Env} {w conn : ℕ} {b : Addr} {id : UInt64}

/-- What is added without a login request being read, checked or answered. -/
def Unrelated : Item → Prop
  | .obs o => ∀ w b d, o ≠ .loginRead w b d
  | .sent e => e.source.number = none
  | .taken _ _ => False
  | _ => True

theorem tolerant_unrelated : Tolerant Unrelated where
  obs o ho := by cases o <;> simp_all [Unrelated, Obs.minor]
  offline _ _ := trivial
  client _ _ := trivial
  sent _ h := h

theorem Served.grows {E : Obs → Prop} (h : s.Served) (hg : Grows Unrelated s t)
    (hc : Careful E none s t) : t.Served := by
  have hread : ∀ d, LoginRead t.log d → LoginRead s.log d := by
    intro d hd
    obtain ⟨added, hl, hadd⟩ := hg.log
    unfold LoginRead at hd
    rw [hl] at hd
    refine (List.mem_append.mp hd).resolve_right fun hnew => ?_
    exact hadd _ hnew _ _ _ rfl
  refine ⟨h.client.grows hg, fun d hd => (h.read d (hread d hd)).trans_le hg.nextConn, ?_⟩
  intro d hd hcl
  refine (h.attended d (hread d hd) (h.client_of_grows hg (hread d hd) hcl)).kept ?_ ?_
  · obtain ⟨added, hs, hadd⟩ := hg.sent
    refine ⟨added, hs, fun e he => ?_⟩
    rw [show e.source.number = none from hadd e he]
    simp
  · intro hp
    exact hp.kept hg hc (fun _ _ _ h => h) (by simp)

theorem Served.startLogin {d : Option LoginData} (h : s.Served) (hcu : s.Custody)
    (hb : s.client b = some (w, conn)) : (Server.startLogin w b conn s d).Served := by
  cases d with
  | none => exact h
  | some l =>
    let new := stampLogin w b conn s.nextSeq l
    have hg : Grows (fun i => ∀ w c, i ≠ .taken w c) s (Server.startLogin w b conn s (some l)) :=
      grows_startLogin fun _ _ => ⟨by simp, by simp⟩
    have hold : ∀ d, LoginRead (Server.startLogin w b conn s (some l)).log d →
        LoginRead s.log d ∨ d = new := by
      intro d hd
      refine (List.mem_append.mp hd).imp_right fun hnew => ?_
      have he := List.mem_singleton.mp hnew
      injection he
    refine ⟨h.client, fun d hd => ?_, fun d hd hcl => ?_⟩
    · rcases hold d hd with hd | rfl
      · exact h.read d hd
      · exact h.client b _ hb
    · rcases hold d hd with hd | rfl
      · refine (h.attended d hd hcl).kept
          ⟨[], by simp [Server.startLogin, redisAsyncCommand, modify, emit], by simp⟩ ?_
        intro hp
        exact hp.kept hg (careful_startLogin (E := fun _ => True) (x := none))
          (fun w c _ hn => hn w c rfl) (by simp)
      · have hz := hcu.fresh s.nextSeq le_rfl none
        have hn : s.Unanswered new := fun e he hnum => (tally_pos_of_sent he hnum).ne' hz
        refine hn.attended_of_pending (Or.inl ⟨w, tokenCommand new, ?_, rfl⟩) rfl
        simp [Server.startLogin, redisAsyncCommand, modify, emit, new, stampLogin]

theorem Served.handleRequest {r : Analysed} (h : s.Served) (hcu : s.Custody)
    (hb : s.client b = some (w, conn)) : (Server.handleRequest env w b conn id s r).Served := by
  have hl := h.startLogin (d := r.req.loginData) hcu hb
  have hh : (refreshHeartbeat env w b id (Server.startLogin w b conn s r.req.loginData)
      r.req.isHeart).Served := by
    apply hl.grows (E := fun _ => True) (grows_refreshHeartbeat ?_) careful_refreshHeartbeat
    intro _ _ sub _
    exact ⟨trivial, by simp [Unrelated]⟩
  apply hh.grows (E := fun _ => True) (grows_startTrans ?_ ?_ ?_ ?_)
    careful_startTrans
  · intro l _
    simp [Unrelated]
  · intro l _
    trivial
  · intro l _ j
    simp [Unrelated]
  · intro l _
    simp [Unrelated]

theorem Served.bufferEventReadCallback {σ : Type} {R : Runtime σ} {be : BufferEvent} (h : s.Served)
    (hcu : s.Custody) (ho : be.owner = .client w conn) (hb : s.client b = some (w, conn))
    (ht : s.bufferEventReadCallback R env w conn b be = some t) : t.Served := by
  obtain ⟨u, ⟨-, hu⟩, hr, -, ⟨hlog, hheap⟩, htail⟩ :=
    bufferEventReadCallback_turns R (P := fun u => u.Custody ∧ u.Served) ho hb ⟨hcu, h⟩
      (fun u _ _ _ _ hr hu _ =>
        ⟨hu.1.handleRequest, hu.2.handleRequest hu.1 ((client_eq_of_registry_eq hr b).trans hb)⟩) ht
  have hbu : u.client b = some (w, conn) := (client_eq_of_registry_eq hr b).trans hb
  refine hu.grows (htail _ tolerant_unrelated trivial) (E := fun _ => True) ?_
  constructor
  · exact ⟨[], by simp [hlog]⟩
  · intro a o _ hao
    have hne : a ≠ b := by
      rintro rfl
      simp [checkAt_of_client hbu] at hao
    rw [checkAt, hheap a hne]
    exact hao

end Reads

section Runs

variable {σ : Type} {R : Runtime σ} {s t : Server} {x : Env × Event} {d : LoginData}

/-- Only the command whose reply arrives is taken from a queue of redis commands. -/
def Takes (n : Option ℕ) : Item → Prop
  | .taken _ c => c.callback.number = n
  | _ => True

theorem step_takes (ht : step R s x = some t) : Grows (Takes (s.checkedNumber x.2)) s t := by
  refine Permits.step (R := R) (permits_of_additions ?_ ?_ ?_ ?_) ht
  · intro i hi
    cases i <;> trivial
  · exact fun _ _ => trivial
  · intro w i reply c hx hc
    simp [Takes, checkedNumber, hx, hc]
  · exact fun _ _ => trivial

/-- A pending request that an event does not go on with stays pending. -/
theorem PendingLogin.step (h : s.PendingLogin d) (hl : s.registry.KnownLive) (ha : s.FreshLogin R x)
    (hn : s.checkedNumber x.2 ≠ some d.seq) (ht : Server.step R s x = some t) :
    t.PendingLogin d := by
  have hc : Careful (fun _ => True) x.2.check s t :=
    careful_step hl ha (fun _ _ _ _ _ _ _ => trivial) (fun _ _ _ => trivial)
      (fun _ _ _ => Or.inr trivial) ht
  apply h.kept (step_takes ht) hc
  · intro w c hcb htaken
    exact hn (by rw [← show c.callback.number = _ from htaken, hcb]; rfl)
  · intro be sent b hb hlook ho
    apply hn
    obtain ⟨env, ev⟩ := x
    cases ev with
    | httpRead a chunk =>
      obtain rfl : a = b := by simpa [Event.check] using hb
      simp [checkedNumber, hlook, ho, Owner.number]
    | httpEvent a flags =>
      obtain rfl : a = b := by simpa [Event.check] using hb
      simp [checkedNumber, hlook, ho, Owner.number]
    | _ => simp [Event.check] at hb

theorem Served.step (h : s.Served) (hk : s.Kept R) (hl : s.registry.KnownLive)
    (hl' : s.registry.LiveKnown) (ha : s.Answering R x) (ht : Server.step R s x = some t) :
    t.Served := by
  by_cases hx : ∃ w b conn buffer, s.Reads x w b conn buffer
  · obtain ⟨w, b, conn, buffer, hread⟩ := hx
    obtain ⟨output, hb, ht⟩ := hread.callback R ht
    exact h.bufferEventReadCallback hk.custody rfl hb ht
  push Not at hx
  have hg := (permits_logged hk.recorded hk.provenance hx).step ht
  have hread : ∀ d, LoginRead t.log d → LoginRead s.log d := by
    intro d hd
    obtain ⟨added, hlog, hadd⟩ := hg.log
    unfold LoginRead at hd
    rw [hlog] at hd
    refine (List.mem_append.mp hd).resolve_right fun hnew => ?_
    exact absurd (hadd _ hnew) (by simp [Logged, Obs.number])
  refine ⟨h.client.grows hg, fun d hd => (h.read d (hread d hd)).trans_le hg.nextConn, ?_⟩
  intro d hd hc
  have hds := hread d hd
  have hcs := h.client_of_grows hg hds hc
  by_cases hn : s.checkedNumber x.2 = some d.seq
  · exact attended_checked hk hl hl' ha (hk.checkedLogin hds hn) hcs ht
  · refine (h.attended d hds hcs).kept ?_ fun hp => hp.step hl ha.1 hn ht
    obtain ⟨added, hs, hadd⟩ :=
      ((permits_spares hn hx fun w hw m hm => hk.queue_ne hds hm).step ht).sent
    exact ⟨added, hs, fun e he => (hadd e he).2.1 e rfl⟩

theorem served_started (h : s.Started) : s.Served := by
  obtain ⟨num, cap, ping, url, heart, rfl⟩ := h
  constructor <;> simp [start, Numbered, client, clientIn, LoginRead]

theorem served_reached (h : Reached R (Answering R) s) : s.Served := by
  refine (Transition.Reach.invariant (P := fun s => s.Kept R ∧ s.registry.KnownLive ∧
    s.registry.LiveKnown ∧ s.Served) ?_ ?_ h).2.2.2
  · intro s hs
    have hr := registry_started hs
    refine ⟨kept_started hs, ?_, ?_, served_started hs⟩
    · rw [hr]
      exact Registry.knownLive_start _
    · rw [hr]
      simp [Registry.LiveKnown, Registry.start]
  · rintro s x t ⟨hk, hl, hl', hs⟩ hok ht
    refine ⟨hk.step ht, knownLive_step hl hok.1 ht, ?_, hs.step hk hl hl' hok ht⟩
    exact (step_moves R ht).invariant (fun r l hr _ _ => hr.apply l) hl'

/-- What was sent for a login request is a reply to it. -/
theorem Kept.reply (h : s.Kept R) (hd : LoginRead s.log d) {e : Sent} (he : e ∈ s.sent)
    (hn : e.source.number = some d.seq) :
    ∃ isSuccess, e.source = .loginRsp d isSuccess ∧ IsReply R isSuccess e.bytes := by
  have hrec := h.recorded.sent e he
  obtain ⟨conn, source, bs⟩ := e
  cases source with
  | echo | friends => simp [Source.number] at hn
  | loginRsp l isSuccess =>
    have heq := h.recorded.unique hrec.1 hd hn rfl
    injection heq with _ _ heq
    exact ⟨isSuccess, by rw [heq], hrec.2⟩
  | relay m =>
    have ho := TransData.number_eq_some.mp hn
    obtain ⟨-, r, rfl, hr⟩ := hrec ho.1
    exact absurd ho.2.symm (h.recorded.readFrom_ne hr hd)

theorem Kept.loginRead {w : ℕ} {b : Addr} (h : s.Kept R) (hd : .loginRead w b d ∈ s.log) :
    d.workThread = w ∧ d.bev = b := by
  obtain ⟨mem, frame, rest, l, -, he⟩ := h.framed _ hd
  rw [he]
  exact ⟨rfl, rfl⟩

/-- In runs where every step meets the condition, nothing but replies to it is sent for a login
request while its connection stays open, all of it on that connection; and once neither redis nor
the HTTP service is being asked about it, one reply has been sent. -/
theorem login_answered_once {w : ℕ} {b : Addr} (h : Reached R (Answering R) s)
    (hd : .loginRead w b d ∈ s.log) (hc : s.client b = some (w, d.conn)) :
    (∀ e ∈ s.sent, e.source.number = some d.seq → e.conn = d.conn ∧
      ∃ isSuccess, e.source = .loginRsp d isSuccess ∧ IsReply R isSuccess e.bytes) ∧
      (¬ s.PendingLogin d → ∃ e, s.sent.filter (fun e => e.source.number = some d.seq) = [e]) := by
  have hk : s.Kept R := kept_reached h
  obtain ⟨rfl, rfl⟩ := hk.loginRead hd
  have ha := (served_reached h).attended d hd hc
  refine ⟨fun e he hn => ⟨ha.2 e he hn, hk.reply hd he hn⟩, fun hp => ?_⟩
  obtain ⟨e, he, hn⟩ := ha.1.resolve_left hp
  rw [← List.length_eq_one_iff, ← List.countP_eq_length_filter]
  obtain ⟨o, ho⟩ := hk.custody.once d.seq
  have hle : s.tally d.seq none ≤ 1 := (ho none).trans (by split_ifs <;> simp)
  apply le_antisymm ((s.countP_sent_le d.seq).trans hle)
  exact List.countP_pos_iff.mpr ⟨e, he, decide_eq_true hn⟩

/-- The request with number 0 in a run that starts with the login of 7 at address 1. -/
def firstLogin : LoginData :=
  { id := 7, token := [0x74], workThread := 0, bev := 1, conn := 0, seq := 0 }

/-- A login that redis has no token for is answered by the HTTP service. -/
def askedLogin : List (Env × Event) :=
  connect 0 1 ++ [(plainEnv 1, .clientRead 1 (loginFrame 7)),
    (plainEnv 2, .redisReply 0 0 (some { type := .nil })),
    (plainEnv 2, .httpEvent 2 { connected := true }), (plainEnv 2, .httpRead 2 grantReply)]

theorem askedLogin_answered :
    ∃ s e, Reached Wire.runtime (Answering Wire.runtime) s ∧ s.client 1 = some (0, 0) ∧
      s.sent.filter (fun e => e.source.number = some 0) = [e] ∧ e.conn = 0 ∧
        e.source = .loginRsp firstLogin true := by
  obtain ⟨s, hs, ⟨hd, hc⟩, e, he, hn⟩ := exists_reached Wire.runtime 1 askedLogin
    (Answering Wire.runtime)
    (fun s => (.loginRead 0 1 firstLogin ∈ s.log ∧ s.client 1 = some (0, 0)) ∧
      ∃ e ∈ s.sent, e.source = .loginRsp firstLogin true)
    (by decide +kernel) (by decide +kernel)
  obtain ⟨hall, hone⟩ := login_answered_once hs hd hc
  have hp : ¬ s.PendingLogin firstLogin := by
    intro hp
    exact (kept_reached hs).custody.unanswered hp e he (by rw [hn]; rfl)
  obtain ⟨e', he'⟩ := hone hp
  have hmem : e ∈ [e'] := he' ▸ List.mem_filter.mpr ⟨he, by simp [hn, Source.number, firstLogin]⟩
  obtain rfl := List.mem_singleton.mp hmem
  exact ⟨s, e, hs, hc, he', (hall e he (by rw [hn]; rfl)).1, hn⟩

/-- The HTTP service closes the connection on which it was asked about a login. -/
def failedCheck : List (Env × Event) :=
  connect 0 1 ++ [(plainEnv 1, .clientRead 1 (loginFrame 7)),
    (plainEnv 2, .redisReply 0 0 (some { type := .nil })),
    (plainEnv 2, .httpEvent 2 { eof := true })]

/-- Redis accepts the login that its connection already has. -/
def sameLogin : List (Env × Event) :=
  connect 0 1 ++ login 0 1 7 ++
    [(plainEnv 1, .clientRead 1 (loginFrame 7)), (plainEnv 1, .redisReply 0 0 tokenReply)]

/-- In both runs the connection stays open and nobody is asked any more; the login of the first run
and the second login of the other one are never answered. -/
theorem login_not_answered :
    (∃ s, Reached Wire.runtime (fun _ _ => True) s ∧ .loginRead 0 1 firstLogin ∈ s.log ∧
      s.client 1 = some (0, 0) ∧ (s.workThread 0).redis = [] ∧ s.heap.keys = {1} ∧
        s.sent.filter (fun e => e.source.number = some 0) = []) ∧
    ∃ s, Reached Wire.runtime (fun _ _ => True) s ∧
      .loginRead 0 1 { firstLogin with seq := 1 } ∈ s.log ∧
      s.client 1 = some (0, 0) ∧ (s.workThread 0).redis = [] ∧ s.heap.keys = {1} ∧
        s.sent.filter (fun e => e.source.number = some 1) = [] := by
  constructor
  · apply exists_reached Wire.runtime 1 failedCheck
    · exact .of_forall (by simp) _
    · decide +kernel
  · apply exists_reached Wire.runtime 1 sameLogin
    · exact .of_forall (by simp) _
    · decide +kernel

end Runs

end Server

end EglComet
