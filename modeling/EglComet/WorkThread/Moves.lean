import EglComet.WorkThread.Refinement

/-!
Every callback of the server is a sequence of moves of its registry. The moves
are restricted to what the callback can do: a login that a backend accepted is
one approval taken from the state the callback started in, and deletions are
delivered by the message callback alone.
-/
namespace EglComet

open Protobuf

namespace Server

variable {s : Server} {w : ℕ} {ok : Registry UInt64 Addr → Label UInt64 Addr → Prop}

theorem moves_of_eq {t : Server} (h : t.registry = s.registry) :
    Registry.Moves ok s.registry t.registry :=
  h ▸ Relation.ReflTransGen.refl

theorem moves_trans {t u : Server} (h : Registry.Moves ok s.registry t.registry)
    (h' : Registry.Moves ok t.registry u.registry) : Registry.Moves ok s.registry u.registry :=
  Relation.ReflTransGen.trans h h'

theorem moves_apply {t : Server} {l : Label UInt64 Addr} (h : t.registry = s.registry.apply l)
    (he : s.registry.Enabled l) (ho : ok s.registry l) :
    Registry.Moves ok s.registry t.registry :=
  h ▸ Registry.Moves.single he ho

section Connections

theorem registry_newConnection (env : Env) (s : Server) (w : ℕ) :
    (s.newConnection env w).registry =
      s.registry.apply (.accept w (env.alloc.next s.heap) s.nextConn) := by
  have hl : clientIn (s.heap.insert (env.alloc.next s.heap) { owner := .client w s.nextConn }) =
      Function.update (clientIn s.heap) (env.alloc.next s.heap) (some (w, s.nextConn)) := by
    funext b
    simp only [clientIn, Table.lookup_insert_eq, Function.update_apply]
    split_ifs <;> rfl
  simp only [newConnection]
  rw [registry_emit, registry_modify_of_dels (g := fun d => d.enter 0 _) rfl rfl]
  simp only [registry, setHeap, hl]
  rfl

theorem registry_bufferEventEventCallback {b : Addr} {flags : Flags}
    (hf : (flags.eof || flags.error) = true) :
    (s.bufferEventEventCallback w b flags).registry = s.registry.apply (.leave w b) := by
  simp only [bufferEventEventCallback, if_pos hf, registry_requestOffline,
    registry_bufferEventFree]
  cases hb : (s.workThread w).bevId.lookup b with
  | none =>
    have hm : b ∉ ((s.emit (.closed w b (s.occupant b))).workThread w).bevId :=
      Finmap.lookup_eq_none.mp hb
    have hd : (s.registry.dir w).leave b = s.registry.dir w := by
      simp [Directory.leave, registry, WorkThread.directory, hb]
    rw [if_neg hm, registry_modify_of_dels (g := fun d => d.leave b) ?_ rfl, registry_emit]
    · rfl
    · exact hd.symm
  | some id =>
    have hm : b ∈ ((s.emit (.closed w b (s.occupant b))).workThread w).bevId :=
      Table.mem_of_lookup hb
    rw [if_pos hm, modify_modify, registry_modify_of_dels (g := fun d => d.leave b)
      (directory_leave hb) rfl, registry_emit]
    rfl

theorem expireEntry_moves (hl : ∀ r b, ok r (.leave w b)) (t : ℤ) (s : Server) (b : Addr) :
    Registry.Moves ok s.registry (expireEntry w t s b).registry := by
  cases hb : (s.workThread w).bevId.lookup b with
  | none =>
    simp only [expireEntry, hb]
    exact moves_of_eq rfl
  | some id =>
    cases hs : (s.workThread w).subMap.lookup id with
    | none =>
      simp only [expireEntry, hb, hs]
      exact moves_of_eq rfl
    | some sub =>
      simp only [expireEntry, hb, hs]
      split_ifs
      · refine moves_apply (l := .leave w b) ?_ (Or.inr (Table.mem_of_lookup hb)) (hl _ b)
        rw [registry_requestOffline, registry_modify_of_dels (g := fun d => d.leave b)
          (directory_leave hb) rfl, registry_bufferEventFree, registry_emit]
        rfl
      · exact moves_of_eq rfl

theorem delExpireClient_moves (hl : ∀ r b, ok r (.leave w b)) (env : Env) (s : Server) :
    Registry.Moves ok s.registry (s.delExpireClient env w).registry := by
  unfold delExpireClient
  cases env.now with
  | none => exact moves_of_eq rfl
  | some t =>
    simp only
    induction env.order.toList (s.workThread w).bevId generalizing s with
    | nil => exact moves_of_eq rfl
    | cons b bs ih => exact moves_trans (expireEntry_moves hl t s b) (ih _)

theorem newConnLoop_moves (ha : ∀ r b conn, ok r (.accept w b conn)) (hl : ∀ r b, ok r (.leave w b))
    (env : Env) (items : List ℤ) (i : ℕ) (s : Server) :
    Registry.Moves ok s.registry (newConnLoop env w i items s).registry := by
  induction items generalizing i s with
  | nil => exact moves_of_eq rfl
  | cons data rest ih =>
    have hp : (s.modify w fun t => { t with newConnFd := rest }).registry = s.registry :=
      registry_modify_of_eq rfl rfl rfl
    refine moves_trans (moves_of_eq hp) ?_
    simp only [newConnLoop]
    split_ifs
    · refine moves_trans (moves_apply (registry_newConnection env _ w) ?_ (ha _ _ _)) (ih _ _)
      exact client_alloc env _
    · exact moves_of_eq (registry_modify_of_eq rfl rfl rfl)
    · exact moves_trans (delExpireClient_moves hl env _) (ih _ _)
    · exact ih _ _
    · exact moves_of_eq rfl

@[simp] theorem registry_notifyNewConn (env : Env) (fd : ℤ) (s : Server) (j : ℕ) :
    (notifyNewConn env fd s j).registry = s.registry := by
  simp only [notifyNewConn]
  split_ifs
  · exact registry_modify_of_eq rfl rfl rfl
  · rfl

theorem registry_acceptCallback (env : Env) (s : Server) (fd : ℤ) :
    (s.acceptCallback env fd).registry = s.registry := by
  unfold acceptCallback
  split_ifs <;> simp

theorem registry_checkExpireClient (env : Env) (s : Server) :
    (s.checkExpireClient env).registry = s.registry := by
  unfold checkExpireClient
  induction List.range s.workThreadNum generalizing s with
  | nil => rfl
  | cons j js ih => rw [List.foldl_cons, ih, registry_notifyNewConn]

end Connections

section Messages

/-- A forwarded message is not seen. -/
theorem registry_handleMsg_trans {d : TransData} (hm : d.msgType = .trans) :
    (handleMsg w s d).registry = s.registry := by
  simp only [handleMsg, hm, registry_deleteTrans]
  split <;> simp

/-- A delete-id message removes a session, and says so if it missed the connection. -/
theorem registry_handleMsg_delId {d : TransData} (hm : d.msgType = .delId) :
    (handleMsg w s d).registry =
      { s.registry.kick w d.toId with
        log := s.registry.log ++
          if (s.registry.dir w).holder d.toId ≠ none ∧
            ∀ a ∈ (s.registry.dir w).holder d.toId, a ∉ (s.registry.dir w).names
          then [.eraseEnd w d.toId] else [] } := by
  have hkick := registry_kick s w d.toId
  cases hs : (s.workThread w).subMap.lookup d.toId with
  | none =>
    have hh : (s.registry.dir w).holder d.toId = none := by
      simp [registry, WorkThread.directory, hs]
    simp only [kick, hs] at hkick
    simp only [handleMsg, hm, hs, registry_deleteTrans, hh, ← hkick]
    simp
  | some sub =>
    have hh : (s.registry.dir w).holder d.toId = some sub.bev := by
      simp [registry, WorkThread.directory, hs]
    simp only [handleMsg, hm, hs, registry_deleteTrans, hh]
    by_cases hk : sub.bev ∈ (s.workThread w).bevId
    · have hk' : sub.bev ∈ (s.registry.dir w).names := hk
      rw [kick_of_lookup hs, if_pos hk] at hkick
      rw [if_pos hk, hkick]
      simp [hk', Registry.kick]
    · have hk' : sub.bev ∉ (s.registry.dir w).names := hk
      have hke : sub.bev ∉ ((s.emit (.eraseEnd w d.toId)).workThread w).bevId := hk
      have hkick := registry_kick (s.emit (.eraseEnd w d.toId)) w d.toId
      rw [kick_of_lookup (s := s.emit (.eraseEnd w d.toId)) hs, if_neg hke, registry_emit] at hkick
      rw [if_neg hk, hkick]
      simp [hk', Registry.kick, Obs.note]

@[simp] theorem workThread_recordSent (s : Server) (o : Owner) (source : Source) (bs : Bytes) :
    (s.recordSent o source bs).workThread = s.workThread := by
  unfold recordSent
  split <;> rfl

@[simp] theorem workThread_addOutput (s : Server) (b : Addr) (source : Source) (bs : Bytes) :
    (s.addOutput b source bs).workThread = s.workThread := by
  unfold addOutput
  split
  · rw [workThread_recordSent]
    rfl
  · rfl

theorem newMsgFd_handleMsg (s : Server) (w : ℕ) (d : TransData) :
    ((handleMsg w s d).workThread w).newMsgFd = (s.workThread w).newMsgFd := by
  simp only [handleMsg, deleteTrans, emit]
  cases d.msgType with
  | trans =>
    simp only
    split <;> simp
  | delId =>
    simp only
    split
    · simp only [modify, Function.update_self]
      split_ifs <;> rfl
    · rfl

/-- Reading a pipe changes the pending deletions alone. -/
theorem registry_pop (s : Server) (w : ℕ) (ds : List TransData) :
    (s.modify w fun t => { t with newMsgFd := ds }).registry =
      { s.registry with
        dels := Function.update s.registry.dels w
          ((ds.filter fun d => d.msgType = .delId).map TransData.toId) } := by
  rw [registry_modify]
  ext1
  · rfl
  · exact Function.update_eq_self _ _
  · exact Function.update_eq_self _ _
  · rfl
  · rfl
  · rfl

theorem newMsgLoop_moves (hd : ∀ r id rest, ok r (.deliver w id rest)) (msgs : List TransData)
    (s : Server) (hq : (s.workThread w).newMsgFd = msgs) :
    Registry.Moves ok s.registry (newMsgLoop w msgs s).registry := by
  induction msgs generalizing s with
  | nil => exact moves_of_eq rfl
  | cons d ds ih =>
    let s' := s.modify w fun t => { t with newMsgFd := ds }
    have hq' : ((handleMsg w s' d).workThread w).newMsgFd = ds := by
      rw [newMsgFd_handleMsg]
      simp [s', modify]
    refine moves_trans ?_ (ih _ hq')
    have hr := registry_pop s w ds
    have hdels : s.registry.dels w =
        ((d :: ds).filter fun d => d.msgType = .delId).map TransData.toId := by
      simp only [registry, WorkThread.dels, hq]
    cases hm : d.msgType with
    | trans =>
      apply moves_of_eq
      rw [registry_handleMsg_trans hm, hr]
      simp only [hm, reduceCtorEq, decide_false, Bool.false_eq_true, not_false_eq_true,
        List.filter_cons_of_neg] at hdels
      rw [← hdels, Function.update_eq_self]
    | delId =>
      simp only [hm, decide_true, List.filter_cons_of_pos, List.map_cons] at hdels
      refine moves_apply (l := .deliver w d.toId _) ?_ hdels (hd _ _ _)
      rw [registry_handleMsg_delId hm, hr]
      rfl

end Messages

section Requests

variable {σ : Type} (R : Runtime σ)

theorem registry_startLogin (w : ℕ) (b : Addr) (conn : ℕ) (s : Server) (d : Option LoginData) :
    (startLogin w b conn s d).registry = s.registry := by
  cases d with
  | none => rfl
  | some d =>
    simp only [startLogin]
    rw [registry_emit_of_none rfl, registry_redisAsyncCommand]
    rfl

theorem registry_refreshHeartbeat (env : Env) (w : ℕ) (b : Addr) (id : UInt64) (s : Server)
    (isHeart : Bool) : (refreshHeartbeat env w b id s isHeart).registry = s.registry := by
  unfold refreshHeartbeat
  split
  · cases hs : (s.workThread w).subMap.lookup id with
    | none => rfl
    | some sub =>
      simp only
      rw [registry_emit_of_none rfl]
      refine registry_modify_of_eq ?_ rfl rfl
      simp only [WorkThread.directory, Directory.mk.injEq, and_true]
      funext y
      rw [Table.lookup_insert_eq]
      split_ifs with hy
      · subst hy
        simp [hs]
      · rfl
  · rfl

theorem registry_startTrans (env : Env) (w : ℕ) (b : Addr) (id : UInt64) (s : Server)
    (d : Option TransData) : (startTrans env w b id s d).registry = s.registry := by
  cases d with
  | none => rfl
  | some d =>
    simp only [startTrans]
    split_ifs
    · rw [registry_transmit rfl, registry_emit_of_none rfl]
      rfl
    · rw [registry_redisAsyncCommand, registry_emit_of_none rfl]
      rfl
    · rw [registry_deleteTrans, registry_emit_of_none rfl]
      rfl

theorem registry_handleRequest (env : Env) (w : ℕ) (b : Addr) (conn : ℕ) (id : UInt64)
    (s : Server) (r : Analysed) : (handleRequest env w b conn id s r).registry = s.registry := by
  simp only [handleRequest, registry_startTrans, registry_refreshHeartbeat, registry_startLogin]

theorem registry_bufferEventReadCallback {env : Env} {conn : ℕ} {b : Addr} {be : BufferEvent}
    {t : Server} (hb : be.owner.connection = s.client b)
    (h : s.bufferEventReadCallback R env w conn b be = some t) : t.registry = s.registry := by
  obtain ⟨x, hx, rfl⟩ := Option.map_eq_some_iff.mp h
  have hr : x.1.registry = s.registry := by
    refine readLoop_invariant R (P := fun t => t.registry = s.registry) ?_ rfl hx
    intro t input output r ht
    rw [registry_handleRequest, ht]
  have ha : (x.1.setAnalyseReq w x.2.1).registry = s.registry := by
    rw [registry_setAnalyseReq, hr]
  rw [registry_recordSent]
  refine (registry_setHeap_insert (s := x.1.setAnalyseReq w x.2.1) ?_).trans ha
  exact hb.trans (client_eq_of_registry_eq ha b).symm

end Requests

section Logins

variable {σ : Type} (R : Runtime σ)

/-- The registry after a login was approved; with reliable pipes every other worker that has a
session of the id was told to delete it. -/
def Approved (env : Env) (s : Server) (d : LoginData) (r : Registry UInt64 Addr) : Prop :=
  ∃ told, r = s.registry.apply (.approve d.workThread d.bev d.id told) ∧
    s.registry.Enabled (.approve d.workThread d.bev d.id told) ∧
    ((∀ n, env.write n = .full) →
      s.registry.TellsAll (.approve d.workThread d.bev d.id told))

theorem approved_registerLogin (env : Env) {d : LoginData} {js : List ℕ}
    (hb : d.bev ∈ (s.workThread d.workThread).bevId)
    (hj : ∀ j < s.workThreadNum, j ≠ d.workThread → j ∈ js) :
    Approved env s d (s.registerLogin R env d js).registry := by
  obtain ⟨told, hr, ht, hf⟩ := registry_registerLogin R env s d js
  exact ⟨told, hr, ⟨hb, ht⟩, fun hw j hn hne hh => hf hw j (hj j hn hne) hne hh⟩

/-- The tests of `redis_login_callback` that precede a registration. -/
def RedisAccepts (s : Server) (d : LoginData) (reply : Option RedisReply) : Prop :=
  d.bev ∈ (s.workThread d.workThread).bevId ∧
    (∃ str, reply.bind RedisReply.str = some str ∧ cstr d.token = cstr str) ∧
    ((s.workThread d.workThread).subMap.lookup d.id).map Subscriber.bev ≠ some d.bev

theorem RedisAccepts.approved (env : Env) {d : LoginData} {reply : Option RedisReply}
    (h : RedisAccepts s d reply) :
    Approved env s d ((s.registerLogin R env d
      ((List.range s.workThreadNum).filter (· ≠ d.workThread))).deleteLogin d).registry := by
  rw [registry_deleteLogin]
  apply approved_registerLogin R env h.1
  intro j hj hne
  exact List.mem_filter.mpr ⟨List.mem_range.mpr hj, by simpa using hne⟩

/-- The ways `redis_login_callback` can end: the connection is gone, the login repeats the session
on its own connection, the HTTP service is asked, the token is wrong, or the login succeeds. -/
inductive LoginOutcome (env : Env) (s : Server) (d : LoginData) (reply : Option RedisReply) :
    Server → Prop where
  | gone (hb : d.bev ∉ (s.workThread d.workThread).bevId) :
      LoginOutcome env s d reply (s.deleteLogin d)
  | repeated (hb : d.bev ∈ (s.workThread d.workThread).bevId)
      (hs : ∃ str, reply.bind RedisReply.str = some str ∧ cstr d.token = cstr str)
      (hsame : ((s.workThread d.workThread).subMap.lookup d.id).map Subscriber.bev = some d.bev) :
      LoginOutcome env s d reply (s.deleteLogin d)
  | asked (hb : d.bev ∈ (s.workThread d.workThread).bevId)
      (hs : reply.bind RedisReply.str = none) :
      LoginOutcome env s d reply (s.httpLoginCheck R env d)
  | refused (hb : d.bev ∈ (s.workThread d.workThread).bevId)
      (hs : ∃ str, reply.bind RedisReply.str = some str ∧ cstr d.token ≠ cstr str) :
      LoginOutcome env s d reply ((s.replyLogin R env d false "wrong id or token").deleteLogin d)
  | accepted (ha : RedisAccepts s d reply) :
      LoginOutcome env s d reply ((s.registerLogin R env d
        ((List.range s.workThreadNum).filter (· ≠ d.workThread))).deleteLogin d)

theorem redisLoginCallback_outcome (env : Env) (s : Server) (d : LoginData)
    (reply : Option RedisReply) :
    LoginOutcome R env s d reply (s.redisLoginCallback R env d reply) := by
  by_cases hb : d.bev ∈ (s.workThread d.workThread).bevId
  · cases hs : reply.bind RedisReply.str with
    | none =>
      simp only [redisLoginCallback, if_pos hb, hs]
      exact .asked hb hs
    | some str =>
      by_cases ht : cstr d.token = cstr str
      · by_cases hsame :
            ((s.workThread d.workThread).subMap.lookup d.id).map Subscriber.bev = some d.bev
        · simp only [redisLoginCallback, if_pos hb, hs, if_pos ht, if_pos hsame]
          exact .repeated hb ⟨str, hs, ht⟩ hsame
        · simp only [redisLoginCallback, if_pos hb, hs, if_pos ht, if_neg hsame]
          exact .accepted ⟨hb, ⟨str, hs, ht⟩, hsame⟩
      · simp only [redisLoginCallback, if_pos hb, hs, if_neg ht]
        exact .refused hb ⟨str, hs, ht⟩
  · simp only [redisLoginCallback, if_neg hb]
    exact .gone hb

theorem redisLoginCallback_cases (env : Env) (s : Server) (d : LoginData)
    (reply : Option RedisReply) :
    (s.redisLoginCallback R env d reply).registry = s.registry ∨
      RedisAccepts s d reply ∧
        Approved env s d (s.redisLoginCallback R env d reply).registry := by
  have ht := redisLoginCallback_outcome R env s d reply
  generalize s.redisLoginCallback R env d reply = t at ht ⊢
  cases ht with
  | gone | repeated => exact Or.inl (registry_deleteLogin s d)
  | asked => exact Or.inl (registry_httpLoginCheck R env s d)
  | refused => exact Or.inl (by rw [registry_deleteLogin, registry_replyLogin])
  | accepted ha => exact Or.inr ⟨ha, ha.approved R env⟩

theorem live_approve_of_none {r : Registry UInt64 Addr} {w : ℕ} {b c : Addr} {id : UInt64}
    {told : List ℕ} (h : r.live c = none) : (r.apply (.approve w b id told)).live c = none := by
  simp only [Registry.apply, Registry.onDir, Registry.live_tell, Registry.live_kick, h, ite_self]

/-- The ways `http_login_read` can end: the connection is gone, or the service accepts or refuses
the login. -/
inductive LoginVerdict (env : Env) (s : Server) (h : Addr) (d : LoginData) (data : Bytes) :
    Server → Prop where
  | gone (hb : d.bev ∉ (s.workThread d.workThread).bevId) :
      LoginVerdict env s h d data ((s.bufferEventFree h).deleteLogin d)
  | accepted (hb : d.bev ∈ (s.workThread d.workThread).bevId)
      (ha : (analyseLoginData R (s.workThread d.workThread).analyseReq data).1 = true)
      (a : AnalyseReq) (hp : a.pending = (s.workThread d.workThread).analyseReq.pending) :
      LoginVerdict env s h d data ((((s.setAnalyseReq d.workThread a).registerLogin R env d
        (List.range s.workThreadNum)).bufferEventFree h).deleteLogin d)
  | refused (hb : d.bev ∈ (s.workThread d.workThread).bevId)
      (hn : (analyseLoginData R (s.workThread d.workThread).analyseReq data).1 = false)
      (a : AnalyseReq) (hp : a.pending = (s.workThread d.workThread).analyseReq.pending) :
      LoginVerdict env s h d data ((((s.setAnalyseReq d.workThread a).replyLogin R env d false
        "wrong id or token").bufferEventFree h).deleteLogin d)

theorem httpLoginRead_verdict (env : Env) (s : Server) (h : Addr) (d : LoginData) (data : Bytes) :
    LoginVerdict R env s h d data (s.httpLoginRead R env h d data) := by
  by_cases hb : d.bev ∈ (s.workThread d.workThread).bevId
  · cases ha : (analyseLoginData R (s.workThread d.workThread).analyseReq data).1 with
    | true =>
      simp only [httpLoginRead, if_pos hb, ha, if_true]
      exact .accepted hb ha _ (pending_analyseLoginData R _ data)
    | false =>
      simp only [httpLoginRead, if_pos hb, ha, Bool.false_eq_true, if_false]
      exact .refused hb ha _ (pending_analyseLoginData R _ data)
  · simp only [httpLoginRead, if_neg hb]
    exact .gone hb

theorem Approved.httpLoginRead {env : Env} {h : Addr} {d : LoginData} (hc : s.client h = none)
    (hb : d.bev ∈ (s.workThread d.workThread).bevId) (a : AnalyseReq) :
    Approved env s d ((((s.setAnalyseReq d.workThread a).registerLogin R env d
      (List.range s.workThreadNum)).bufferEventFree h).deleteLogin d).registry := by
  have hb' : d.bev ∈ ((s.setAnalyseReq d.workThread a).workThread d.workThread).bevId := by
    simpa [setAnalyseReq, modify] using hb
  obtain ⟨told, ht, he⟩ := approved_registerLogin R env hb' fun j hj _ => List.mem_range.mpr hj
  rw [registry_setAnalyseReq] at ht he
  refine ⟨told, ?_, he⟩
  rw [registry_deleteLogin, registry_bufferEventFree_of_none]
  · exact ht
  · exact (congrFun (congrArg Registry.live ht) h).trans (live_approve_of_none hc)

theorem httpLoginRead_cases (env : Env) {h : Addr} (d : LoginData) (data : Bytes)
    (hc : s.client h = none) :
    (s.httpLoginRead R env h d data).registry = s.registry ∨
      (d.bev ∈ (s.workThread d.workThread).bevId ∧
        (analyseLoginData R (s.workThread d.workThread).analyseReq data).1 = true) ∧
          Approved env s d (s.httpLoginRead R env h d data).registry := by
  have ht := httpLoginRead_verdict R env s h d data
  generalize s.httpLoginRead R env h d data = t at ht ⊢
  cases ht with
  | gone => exact Or.inl ((registry_deleteLogin _ d).trans (registry_free_of_eq rfl hc))
  | accepted hb ha a _ => exact Or.inr ⟨⟨hb, ha⟩, Approved.httpLoginRead R hc hb a⟩
  | refused =>
    left
    rw [registry_deleteLogin]
    exact registry_free_of_eq (by simp) hc

end Logins

section Step

variable {σ : Type} (R : Runtime σ)

/-- The moves that one callback can make: an approval is the login that the event approves, taken
from the state before the event; only the message callback delivers deletions, and only the
connection callback accepts. -/
def Allowed (s : Server) (x : Env × Event) (r : Registry UInt64 Addr) : Label UInt64 Addr → Prop
  | .approve w b id told => r = s.registry ∧
      (∃ d, s.approval R x.2 = some d ∧ w = d.workThread ∧ b = d.bev ∧ id = d.id) ∧
      ((∀ n, x.1.write n = .full) → r.TellsAll (.approve w b id told))
  | .deliver w _ _ => x.2 = .newMsg w
  | .accept w _ _ => x.2 = .newConn w
  | .leave _ _ => ∀ w, x.2 ≠ .newMsg w

theorem Approved.moves {x : Env × Event} {d : LoginData} {t : Server}
    (h : Approved x.1 s d t.registry) (ha : s.approval R x.2 = some d) :
    Registry.Moves (s.Allowed R x) s.registry t.registry := by
  obtain ⟨told, ht, he, hw⟩ := h
  exact moves_apply ht he ⟨rfl, ⟨d, ha, rfl, rfl, rfl⟩, hw⟩

theorem registry_takeCommand (s : Server) (w i : ℕ) (cmd : RedisCommand)
    (reply : Option RedisReply) : (s.takeCommand w i cmd reply).registry = s.registry := by
  simp only [takeCommand]
  rw [registry_emit_of_none rfl]
  exact registry_modify_of_eq rfl rfl rfl

/-- The login that `redis_login_callback` accepts is the one that the event approves. -/
theorem RedisAccepts.approval {w i : ℕ} {reply : Option RedisReply} {cmd : RedisCommand}
    {d : LoginData} (h : RedisAccepts (s.takeCommand w i cmd reply) d reply)
    (hc : (s.workThread w).redis[i]? = some cmd) (hcb : cmd.callback = .login d) :
    s.approval R (.redisReply w i reply) = some d := by
  have hk := registry_takeCommand s w i cmd reply
  obtain ⟨hb, ⟨str, hstr, ht⟩, hsame⟩ := h
  rw [bevId_of_registry_eq hk] at hb
  rw [bev_of_registry_eq hk] at hsame
  simp only [Server.approval, hc, Option.map_some, hcb, hstr]
  exact if_pos ⟨hb, ht, hsame⟩

theorem redisCallback_moves {env : Env} {w i : ℕ} {reply : Option RedisReply} {cmd : RedisCommand}
    {t : Server} (hc : (s.workThread w).redis[i]? = some cmd)
    (h : redisCallback R env (s.takeCommand w i cmd reply) reply cmd.callback = some t) :
    Registry.Moves (s.Allowed R (env, .redisReply w i reply)) s.registry t.registry := by
  have hk := registry_takeCommand s w i cmd reply
  cases hcb : cmd.callback with
  | login d =>
    rw [hcb] at h
    obtain rfl := Option.some.inj h
    rcases redisLoginCallback_cases R env (s.takeCommand w i cmd reply) d reply with hr | ⟨ha, hr⟩
    · exact moves_of_eq (hr.trans hk)
    · refine Approved.moves R (d := d) ?_ (ha.approval R hc hcb)
      simp only [Approved, hk] at hr
      exact hr
  | trans d =>
    rw [hcb] at h
    obtain ⟨r, -, rfl⟩ := Option.map_eq_some_iff.mp h
    apply moves_of_eq
    rw [← hk]
    split_ifs
    · exact registry_httpTransCheck R env _ d
    · exact registry_transmit d.isTrans
  | online info =>
    rw [hcb] at h
    apply moves_of_eq
    rw [← hk]
    simp only [redisCallback, redisOnlineNotify] at h
    split_ifs at h
    · obtain ⟨strs, -, rfl⟩ := Option.map_eq_some_iff.mp h
      rw [registry_addOutput, registry_emit_of_none rfl, registry_foldl_onlineFriend]
    · obtain rfl := Option.some.inj h
      rfl
  | offline info =>
    rw [hcb] at h
    apply moves_of_eq
    rw [← hk]
    obtain ⟨strs, -, rfl⟩ := Option.map_eq_some_iff.mp h
    exact registry_foldl_offlineFriend env _ _ strs _

theorem registry_httpTransRead {env : Env} {h : Addr} {d : Relay} {data : Bytes}
    (hc : s.client h = none) : (s.httpTransRead R env h d data).registry = s.registry := by
  refine registry_free_of_eq ?_ hc
  split_ifs
  · rw [registry_transmit d.isTrans, registry_emit_of_none rfl, registry_setAnalyseReq]
  · rw [registry_deleteTrans, registry_emit_of_none rfl, registry_setAnalyseReq]

theorem Quiet.moves {env : Env} {ev : Event} {t : Server} (h : s.Quiet env ev t) :
    Registry.Moves (s.Allowed R (env, ev)) s.registry t.registry := by
  cases h with
  | acceptConn fd => exact moves_of_eq (registry_acceptCallback env s fd)
  | timer => exact moves_of_eq (registry_checkExpireClient env s)
  | stop w => exact moves_of_eq (registry_notifyNewConn env (-1) s w)
  | newConn w => exact newConnLoop_moves (fun _ _ _ => rfl) (fun _ _ => by simp [Allowed]) env _ 0 s
  | newMsg w => exact newMsgLoop_moves (fun _ _ _ => rfl) _ s rfl
  | @clientEvent w conn b _ _ flags hb =>
    by_cases hf : (flags.eof || flags.error) = true
    · apply moves_apply (registry_bufferEventEventCallback hf)
      · left
        exact ⟨conn, by simp [registry, clientIn, hb, Owner.connection]⟩
      · simp [Allowed]
    · rw [bufferEventEventCallback, if_neg hf]
      exact moves_of_eq rfl

/-- One callback of the server is a sequence of moves of its registry. -/
theorem step_moves {x : Env × Event} {t : Server} (h : step R s x = some t) :
    Registry.Moves (s.Allowed R x) s.registry t.registry := by
  obtain ⟨env, ev⟩ := x
  rcases step_cases R h with hq | ha
  · exact hq.moves R
  cases ha with
  | clientRead hb ht =>
    apply moves_of_eq
    apply registry_bufferEventReadCallback R _ ht
    exact (client_of_lookup hb).symm
  | redisReply hc ht => exact redisCallback_moves R hc ht
  | loginRead d hb =>
    rcases httpLoginRead_cases R env d _ (client_of_lookup hb) with hr | ⟨ha, hr⟩
    · exact moves_of_eq hr
    · apply Approved.moves R hr
      simp only [approval, hb]
      exact if_pos ha
  | transRead d hb => exact moves_of_eq (registry_httpTransRead R (client_of_lookup hb))
  | loginEvent d sent hb => exact moves_of_eq (registry_httpLoginEvent R (client_of_lookup hb))
  | transEvent d sent hb => exact moves_of_eq (registry_httpTransEvent R (client_of_lookup hb))

end Step

end Server

end EglComet
