import EglComet.WorkThread.Isolation

/-!
The times in `_sub_map`. A read callback refreshes the time of one session
exactly if it takes a heartbeat off a connection that is logged in, and then the
four bytes of the heartbeat are in the output; a login that is approved leaves a
session with the current time.
-/
namespace EglComet

open Protobuf

namespace Server

/-- Everything but new sessions. -/
def NoSession : Item → Prop
  | .sub _ _ _ => False
  | _ => True

theorem tolerant_noSession : Tolerant NoSession :=
  ⟨fun _ _ => trivial, fun _ _ => trivial, fun _ _ => trivial, fun _ _ => trivial⟩

/-- The sessions of all workers with their times. -/
def sessions (s : Server) (w : ℕ) (id : UInt64) : Option Subscriber :=
  (s.workThread w).subMap.lookup id

section Reads

variable {s t : Server} {env : Env} {w conn : ℕ} {b : Addr} {id : UInt64}

theorem sessions_eq (hr : t.registry = s.registry) (hg : Grows NoSession s t) :
    t.sessions = s.sessions := by
  funext v x
  cases hx : t.sessions v x with
  | some sub => exact ((hg.subs v x sub hx).resolve_right fun h => h).symm
  | none =>
    have hn : x ∉ (t.workThread v).subMap := Finmap.lookup_eq_none.mp hx
    rw [mem_subMap_of_registry_eq hr] at hn
    exact (Finmap.lookup_eq_none.mpr hn).symm

theorem sessions_recordSent (s : Server) (o : Owner) (source : Source) (bs : Bytes) :
    (s.recordSent o source bs).sessions = s.sessions := by
  funext v x
  simp [sessions]

theorem sessions_setHeap (s : Server) (heap : Table Addr BufferEvent) :
    (s.setHeap heap).sessions = s.sessions := rfl

theorem sessions_setAnalyseReq (s : Server) (w : ℕ) (a : AnalyseReq) :
    (s.setAnalyseReq w a).sessions = s.sessions := by
  funext v x
  simp only [sessions, setAnalyseReq, modify, Function.update_apply]
  split_ifs with hv
  · rw [hv]
  · rfl

/-- The session of `id` on worker `w` is given the current time, if there is one. -/
def refreshed (env : Env) (w : ℕ) (id : UInt64) (sessions : ℕ → UInt64 → Option Subscriber) :
    ℕ → UInt64 → Option Subscriber := fun v x =>
  if v = w ∧ x = id ∧ id ≠ 0 then (sessions v x).map (Subscriber.updateHeartbeat env.now)
  else sessions v x

theorem updateHeartbeat_updateHeartbeat (now : Option ℤ) (sub : Subscriber) :
    (sub.updateHeartbeat now).updateHeartbeat now = sub.updateHeartbeat now := by
  cases now <;> rfl

theorem refreshed_zero (f : ℕ → UInt64 → Option Subscriber) : refreshed env w 0 f = f := by
  funext v x
  simp [refreshed]

theorem refreshed_refreshed (f : ℕ → UInt64 → Option Subscriber) :
    refreshed env w id (refreshed env w id f) = refreshed env w id f := by
  funext v x
  unfold refreshed
  split_ifs
  · rw [Option.map_map]
    congr 1
    funext sub
    exact updateHeartbeat_updateHeartbeat env.now sub
  · rfl

theorem sessions_refreshHeartbeat (s : Server) (isHeart : Bool) :
    (refreshHeartbeat env w b id s isHeart).sessions =
      if isHeart then refreshed env w id s.sessions else s.sessions := by
  cases isHeart with
  | false => simp [refreshHeartbeat]
  | true =>
    by_cases h0 : id = 0
    · subst h0
      simp [refreshHeartbeat, refreshed_zero]
    · simp only [refreshHeartbeat, Bool.true_and, ne_eq, h0, not_false_eq_true, decide_true,
        ↓reduceIte]
      funext v x
      cases hs : (s.workThread w).subMap.lookup id with
      | none =>
        simp only [refreshed]
        split_ifs with hv
        · obtain ⟨rfl, rfl, -⟩ := hv
          simp [sessions, hs]
        · rfl
      | some sub =>
        simp only [refreshed, sessions, emit, modify, Function.update_apply]
        by_cases hv : v = w
        · subst hv
          simp only [↓reduceIte, Table.lookup_insert_eq, true_and]
          by_cases hx : x = id
          · subst hx
            simp [hs, h0]
          · simp [hx]
        · simp [hv]

theorem sessions_handleRequest (s : Server) (r : Analysed) :
    (handleRequest env w b conn id s r).sessions =
      if r.req.isHeart then refreshed env w id s.sessions else s.sessions := by
  have hl : (startLogin w b conn s r.req.loginData).sessions = s.sessions :=
    sessions_eq (registry_startLogin w b conn s _) (grows_startLogin fun _ _ => ⟨trivial, trivial⟩)
  rw [handleRequest, sessions_eq (registry_startTrans env w b id _ _)
    (grows_startTrans (fun _ _ => trivial) (fun _ _ => trivial)
      (fun _ _ _ => trivial) fun _ _ => trivial), sessions_refreshHeartbeat, hl]

/-- The bytes that wait in the output of the bufferevent at an address. -/
def outputLength (s : Server) (b : Addr) : ℕ :=
  (s.heap.lookup b).elim 0 fun be => be.output.length

variable {σ : Type} {R : Runtime σ}

/-- A read callback refreshes the session of its connection exactly if its output grows, provided
that the flag of the parser is not set or the connection is not logged in. -/
theorem sessions_read {input chunk output : Bytes}
    (hb : s.heap.lookup b = some ⟨.client w conn, input, output⟩)
    (hid : ((s.workThread w).bevId.lookup b).getD 0 = id)
    (hflag : (s.workThread w).analyseReq.isHeart = false ∨ id = 0)
    (ht : s.bufferEventReadCallback R env w conn b ⟨.client w conn, input ++ chunk, output⟩ =
      some t) :
    t.sessions =
      if s.outputLength b < t.outputLength b then refreshed env w id s.sessions
      else s.sessions := by
  obtain ⟨x, hx, rfl⟩ := Option.map_eq_some_iff.mp ht
  obtain ⟨-, hloop⟩ : (x.2.1.isHeart = false ∨ id = 0) ∧
      (x.2.2.2 = output ∧ x.1.sessions = s.sessions ∨
        output.length < x.2.2.2.length ∧ x.1.sessions = refreshed env w id s.sessions) := by
    refine readLoop_rule R (P := fun u a _ out => (a.isHeart = false ∨ id = 0) ∧
      (out = output ∧ u.sessions = s.sessions ∨
        output.length < out.length ∧ u.sessions = refreshed env w id s.sessions)) ?_ ?_
      ⟨hflag, Or.inl ⟨rfl, rfl⟩⟩ hx
    · rintro u a inp out r ⟨ha, hu⟩ hlen hcall hret
      refine ⟨Or.inl rfl, ?_⟩
      simp only [hid]
      rw [sessions_handleRequest]
      rcases analyseData_echo R hcall with ⟨-, hheart, hout⟩ | ⟨hheart, hout⟩
      · right
        rw [if_pos hheart, hout, List.length_append, List.length_take]
        rcases hu with ⟨ho, hs⟩ | ⟨ho, hs⟩
        · exact ⟨by rw [ho]; omega, by rw [hs]⟩
        · exact ⟨by omega, by rw [hs, refreshed_refreshed]⟩
      · rw [hheart, hout]
        rcases ha with ha | rfl
        · rw [ha]
          exact hu
        · rw [refreshed_zero, ite_self]
          exact hu
    · rintro u a inp out r ⟨ha, hu⟩ hcall hret
      rcases analyseData_echo R hcall with ⟨htrue, -⟩ | ⟨hheart, hout⟩
      · exact absurd htrue hret
      · rw [hheart, hout]
        exact ⟨ha, hu⟩
  have hold : s.outputLength b = output.length := by simp [outputLength, hb]
  rcases hloop with ⟨hout, hs⟩ | ⟨hlt, hs⟩
  · rw [if_neg]
    · rw [sessions_recordSent, sessions_setHeap, sessions_setAnalyseReq, hs]
    · rw [hold, outputLength, heap_recordSent]
      simp [setHeap, hout]
  · rw [if_pos]
    · rw [sessions_recordSent, sessions_setHeap, sessions_setAnalyseReq, hs]
    · rw [hold, outputLength, heap_recordSent]
      simpa [setHeap] using hlt

end Reads

section Logins

variable {σ : Type} {R : Runtime σ} {s t : Server} {env : Env} {d : LoginData}

/-- A login that is approved leaves its id with a session of its own and the current time. -/
theorem sessions_registerLogin (js : List ℕ) :
    (s.registerLogin R env d js).sessions d.workThread d.id =
      some (({} : Subscriber).setIdBev env.now d.id d.bev) := by
  have hkick : (s.kick d.workThread d.id).sessions d.workThread d.id = none := by
    have hh : ((s.kick d.workThread d.id).registry.dir d.workThread).holder d.id = none := by
      rw [registry_kick, Registry.holder_kick, if_pos ⟨rfl, rfl⟩]
    exact Option.map_eq_none_iff.mp hh
  have htold : (js.foldl (notifyDelId env d.id) (s.kick d.workThread d.id)).sessions
      d.workThread d.id = none := by
    have hg : Grows NoSession (s.kick d.workThread d.id)
        (js.foldl (notifyDelId env d.id) (s.kick d.workThread d.id)) :=
      grows_foldl (grows_notifyDelId tolerant_noSession env d.id) js _
    by_contra hne
    obtain ⟨sub, hs⟩ := Option.ne_none_iff_exists'.mp hne
    have hold := (hg.subs _ _ _ hs).resolve_right fun h => h
    rw [sessions, hold] at hkick
    cases hkick
  have hn : d.id ∉ ((js.foldl (notifyDelId env d.id) (s.kick d.workThread d.id)).workThread
      d.workThread).subMap := Finmap.lookup_eq_none.mp htold
  simp only [registerLogin, replyLogin, sessions, workThread_addOutput]
  simp only [setAnalyseReq, bindLogin, redisAsyncCommand, modify, emit, Function.update_self,
    Table.lookup_insertNew, true_and, if_pos hn]

/-- A login that is approved is registered in the history. -/
theorem log_registerLogin (R : Runtime σ) (env : Env) (s : Server) (d : LoginData) (js : List ℕ) :
    ∃ added conn, (s.registerLogin R env d js).log = s.log ++ added ∧
      .registered d.workThread d.bev d.id d.conn conn ∈ added := by
  let u := js.foldl (notifyDelId env d.id) (s.kick d.workThread d.id)
  have hu : Grows NoSession s u := (grows_kick tolerant_noSession).trans
    (grows_foldl (grows_notifyDelId tolerant_noSession env d.id) js _)
  have hr : Grows NoSession (u.bindLogin env d) (s.registerLogin R env d js) :=
    grows_replyLogin R tolerant_noSession fun _ _ _ => trivial
  obtain ⟨before, hb, -⟩ := hu.log
  obtain ⟨after, ha, -⟩ := hr.log
  have hbind : (u.bindLogin env d).log =
      u.log ++ [.registered d.workThread d.bev d.id d.conn (u.occupant d.bev)] := rfl
  refine ⟨before ++ (.registered d.workThread d.bev d.id d.conn (u.occupant d.bev) :: after),
    _, ?_, List.mem_append_right before List.mem_cons_self⟩
  rw [ha, hbind, hb]
  simp

/-- A reply of redis that approves a login passes the tests of `redis_login_callback`. -/
theorem redisAccepts_of_approval {w i : ℕ} {reply : Option RedisReply} {cmd : RedisCommand}
    (hc : (s.workThread w).redis[i]? = some cmd)
    (hd : s.approval R (.redisReply w i reply) = some d) :
    cmd.callback = .login d ∧ RedisAccepts (s.takeCommand w i cmd reply) d reply := by
  have hr := registry_takeCommand s w i cmd reply
  simp only [approval, hc, Option.map_some] at hd
  split at hd
  · rename_i hcb hs
    simp only [Option.ite_none_right_eq_some, Option.some.injEq] at hd
    obtain ⟨⟨hb, ht, hsame⟩, rfl⟩ := hd
    refine ⟨Option.some.inj hcb, ?_, ⟨_, hs, ht⟩, ?_⟩
    · rwa [bevId_of_registry_eq hr]
    · rwa [bev_of_registry_eq hr]
  · simp at hd

theorem tolerant_true : Tolerant fun _ => True :=
  ⟨fun _ _ => trivial, fun _ _ => trivial, fun _ _ => trivial, fun _ _ => trivial⟩

/-- A step that approves a login is its registration, with changes before and after it that touch
no session. -/
theorem step_of_approval {x : Env × Event} (ht : step R s x = some t)
    (hd : s.approval R x.2 = some d) :
    ∃ (u : Server) (js : List ℕ), Grows (fun _ => True) s u ∧ u.registry = s.registry ∧
      t.workThread = (u.registerLogin R x.1 d js).workThread ∧
        Grows (fun _ => True) (u.registerLogin R x.1 d js) t := by
  obtain ⟨env, ev⟩ := x
  rcases step_cases R ht with hq | ha
  · cases hq <;> simp [approval] at hd
  cases ha with
  | clientRead | loginEvent | transEvent => simp [approval] at hd
  | transRead d' hb => simp [approval, hb] at hd
  | @redisReply w i reply cmd t hc ht =>
    obtain ⟨hcb, hacc⟩ := redisAccepts_of_approval hc hd
    rw [hcb] at ht
    obtain rfl := Option.some.inj ht
    have hout := redisLoginCallback_outcome R env (s.takeCommand w i cmd reply) d reply
    generalize (s.takeCommand w i cmd reply).redisLoginCallback R env d reply = t at hout ⊢
    obtain ⟨hb, ⟨str, hs, htok⟩, hne⟩ := hacc
    cases hout with
    | gone hb' => exact absurd hb hb'
    | repeated _ _ hsame => exact absurd hsame hne
    | asked _ hs' => simp [hs] at hs'
    | refused _ hs' =>
      obtain ⟨str', hs', hno⟩ := hs'
      obtain rfl : str = str' := Option.some.inj (hs.symm.trans hs')
      exact absurd htok hno
    | accepted =>
      exact ⟨_, _, grows_takeCommand tolerant_true hc trivial,
        registry_takeCommand s w i cmd reply, rfl, grows_emit trivial⟩
  | @loginRead a chunk input output d' hb =>
    simp only [approval, hb, Option.ite_none_right_eq_some, Option.some.injEq] at hd
    obtain ⟨⟨hm, hok⟩, rfl⟩ := hd
    have hout := httpLoginRead_verdict R env s a d' (input ++ chunk)
    generalize s.httpLoginRead R env a d' (input ++ chunk) = t at hout ⊢
    cases hout with
    | gone hb' => exact absurd hm hb'
    | refused _ hno => simp [hok] at hno
    | accepted _ _ p =>
      exact ⟨s.setAnalyseReq d'.workThread p, _, grows_setAnalyseReq (Or.inr trivial),
        registry_setAnalyseReq s d'.workThread p, rfl,
        (grows_bufferEventFree tolerant_true).trans (grows_emit trivial)⟩

/-- Whoever is at the address of an approved login afterwards was there when the previous session
of its id had gone. -/
theorem live_of_approval {x : Env × Event} {b : Addr} {c : ℕ × ℕ} (ht : step R s x = some t)
    (hd : s.approval R x.2 = some d) (hc : t.client b = some c) (hn : c.2 < s.nextConn) :
    (s.registry.kick d.workThread d.id).live b = some c := by
  obtain ⟨u, js, hu, hreg, -, hg⟩ := step_of_approval ht hd
  have hl : Grows (fun _ => True) u (u.registerLogin R x.1 d js) :=
    grows_registerLogin R tolerant_true ⟨trivial, trivial, trivial, fun _ _ _ => trivial⟩
  obtain ⟨told, hr, -⟩ := registry_registerLogin R x.1 u d js
  rcases hg.clients b c hc with hold | ⟨hnew, -⟩
  · have hlive : (u.registerLogin R x.1 d js).registry.live b = some c := hold
    rw [hr, hreg] at hlive
    simpa [Registry.apply, Registry.onDir] using hlive
  · have hle := hu.nextConn.trans (hl.nextConn.trans hnew)
    omega

end Logins

end Server

end EglComet
