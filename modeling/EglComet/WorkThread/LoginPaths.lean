import EglComet.WorkThread.Isolation
import EglComet.WorkThread.LiveKeys
import EglComet.WorkThread.Presence

/-!
The two ways to a successful login: the token that redis returned matches, or the
HTTP service accepts. The success logic is written out twice. The HTTP path also
tells the worker itself, after its own session is gone; it uses the parser of the
worker for the reply of the service; and it frees the bufferevent of its request.
-/
namespace EglComet

open Protobuf

namespace Server

section Parser

variable {s : Server} {w : ℕ} {a : AnalyseReq} {env : Env} {id : UInt64}

theorem setAnalyseReq_setAnalyseReq (a a' : AnalyseReq) :
    (s.setAnalyseReq w a).setAnalyseReq w a' = s.setAnalyseReq w a' := by
  simp [setAnalyseReq, modify]

theorem modify_setAnalyseReq {f : WorkThread → WorkThread}
    (hf : ∀ t a, f { t with analyseReq := a } = { f t with analyseReq := a }) (j : ℕ) :
    (s.setAnalyseReq w a).modify j f = (s.modify j f).setAnalyseReq w a := by
  simp only [setAnalyseReq, modify, Server.mk.injEq, true_and, and_true]
  by_cases hj : j = w
  · subst hj
    rw [Function.update_self, Function.update_self, Function.update_idem, Function.update_idem, hf]
  · rw [Function.update_of_ne hj, Function.update_of_ne (Ne.symm hj), Function.update_comm hj]

theorem workThread_setAnalyseReq (s : Server) (w : ℕ) (a : AnalyseReq) (j : ℕ) :
    ∃ a', (s.setAnalyseReq w a).workThread j = { s.workThread j with analyseReq := a' } := by
  by_cases hj : j = w
  · subst hj
    exact ⟨a, Function.update_self _ _ _⟩
  · exact ⟨(s.workThread j).analyseReq, Function.update_of_ne hj _ _⟩

theorem subMap_setAnalyseReq (j : ℕ) :
    ((s.setAnalyseReq w a).workThread j).subMap = (s.workThread j).subMap := by
  obtain ⟨a', hj⟩ := workThread_setAnalyseReq s w a j
  rw [hj]

theorem bevId_setAnalyseReq (j : ℕ) :
    ((s.setAnalyseReq w a).workThread j).bevId = (s.workThread j).bevId := by
  obtain ⟨a', hj⟩ := workThread_setAnalyseReq s w a j
  rw [hj]

theorem newMsgFd_setAnalyseReq (j : ℕ) :
    ((s.setAnalyseReq w a).workThread j).newMsgFd = (s.workThread j).newMsgFd := by
  obtain ⟨a', hj⟩ := workThread_setAnalyseReq s w a j
  rw [hj]

theorem redis_setAnalyseReq (j : ℕ) :
    ((s.setAnalyseReq w a).workThread j).redis = (s.workThread j).redis := by
  obtain ⟨a', hj⟩ := workThread_setAnalyseReq s w a j
  rw [hj]

theorem kick_setAnalyseReq (j : ℕ) :
    (s.setAnalyseReq w a).kick j id = (s.kick j id).setAnalyseReq w a := by
  simp only [kick, subMap_setAnalyseReq, bevId_setAnalyseReq]
  cases (s.workThread j).subMap.lookup id with
  | none => rfl
  | some sub =>
    by_cases hb : sub.bev ∈ (s.workThread j).bevId
    · simp only [if_pos hb]
      rw [← modify_setAnalyseReq, ← modify_setAnalyseReq]
      all_goals intros; rfl
    · simp only [if_neg hb]
      rw [← modify_setAnalyseReq]
      intros
      rfl

theorem notifyNewMsg_setAnalyseReq (j : ℕ) (d : TransData) :
    notifyNewMsg env (s.setAnalyseReq w a) j d =
      ((notifyNewMsg env s j d).1, (notifyNewMsg env s j d).2.setAnalyseReq w a) := by
  have hqueue : ((s.setAnalyseReq w a).setWrites (s.writes + 1)).enqueue j d =
      ((s.setWrites (s.writes + 1)).enqueue j d).setAnalyseReq w a := by
    simp only [enqueue]
    rw [show (s.setAnalyseReq w a).setWrites (s.writes + 1) =
      (s.setWrites (s.writes + 1)).setAnalyseReq w a from rfl, modify_setAnalyseReq]
    · rfl
    · intros
      rfl
  have hwrites : (s.setAnalyseReq w a).writes = s.writes := rfl
  rw [notifyNewMsg_eq, notifyNewMsg_eq, subMap_setAnalyseReq, hwrites, hqueue]
  split_ifs
  · rfl
  · rfl
  · rfl

theorem notifyDelId_setAnalyseReq (j : ℕ) :
    notifyDelId env id (s.setAnalyseReq w a) j = (notifyDelId env id s j).setAnalyseReq w a := by
  have hseq : { s.setAnalyseReq w a with nextSeq := s.nextSeq + 1 } =
      { s with nextSeq := s.nextSeq + 1 }.setAnalyseReq w a := rfl
  have hnext : (s.setAnalyseReq w a).nextSeq = s.nextSeq := rfl
  simp only [notifyDelId, subMap_setAnalyseReq, hnext, hseq, notifyNewMsg_setAnalyseReq]
  split_ifs
  · rfl
  · rfl
  · rfl

theorem foldl_notifyDelId_setAnalyseReq (js : List ℕ) :
    js.foldl (notifyDelId env id) (s.setAnalyseReq w a) =
      (js.foldl (notifyDelId env id) s).setAnalyseReq w a := by
  induction js generalizing s with
  | nil => rfl
  | cons j js ih => rw [List.foldl_cons, List.foldl_cons, notifyDelId_setAnalyseReq, ih]

theorem bindLogin_setAnalyseReq (d : LoginData) :
    (s.setAnalyseReq w a).bindLogin env d = (s.bindLogin env d).setAnalyseReq w a := by
  simp only [bindLogin, redisAsyncCommand]
  rw [← modify_setAnalyseReq, ← modify_setAnalyseReq]
  · rfl
  · intros
    rfl
  · intros
    rfl

theorem addOutput_setAnalyseReq (b : Addr) (source : Source) (bs : Bytes) :
    (s.setAnalyseReq w a).addOutput b source bs = (s.addOutput b source bs).setAnalyseReq w a := by
  have hheap : (s.setAnalyseReq w a).heap = s.heap := rfl
  simp only [addOutput, hheap]
  cases s.heap.lookup b with
  | none => rfl
  | some be =>
    simp only [recordSent]
    cases be.owner.connection with
    | none => rfl
    | some c => rfl

end Parser

section Told

variable {s t u : Server} {env : Env} {id : UInt64}

/-- The queues after the listed workers were told to delete their session of `id`: nothing but
commands for that is added, and only to their pipes. -/
structure ToldDelete (id : UInt64) (js : List ℕ) (s t : Server) : Prop where
  queue : ∀ j, ∃ added, (t.workThread j).newMsgFd = (s.workThread j).newMsgFd ++ added ∧
    (∀ m ∈ added, m.toId = id ∧ m.msgType = .delId) ∧ (j ∉ js → added = [])
  redis : ∀ j, (t.workThread j).redis = (s.workThread j).redis
  subMap : ∀ j, (t.workThread j).subMap = (s.workThread j).subMap

theorem ToldDelete.of_eq {js : List ℕ} (h : t.workThread = s.workThread) :
    ToldDelete id js s t := by
  constructor
  · intro j
    exact ⟨[], by simp [h]⟩
  · intro j
    rw [h]
  · intro j
    rw [h]

theorem ToldDelete.trans {js js' : List ℕ} (h : ToldDelete id js s t)
    (h' : ToldDelete id js' t u) : ToldDelete id (js ++ js') s u := by
  constructor
  · intro j
    obtain ⟨xs, hx, hxs, hxj⟩ := h.queue j
    obtain ⟨ys, hy, hys, hyj⟩ := h'.queue j
    refine ⟨xs ++ ys, by rw [hy, hx, List.append_assoc], ?_, ?_⟩
    · intro m hm
      rcases List.mem_append.mp hm with hm | hm
      · exact hxs m hm
      · exact hys m hm
    · intro hj
      rw [List.mem_append, not_or] at hj
      rw [hxj hj.1, hyj hj.2, List.append_nil]
  · intro j
    rw [h'.redis, h.redis]
  · intro j
    rw [h'.subMap, h.subMap]

theorem toldDelete_enqueue {j : ℕ} {m : TransData} (hid : m.toId = id) (hm : m.msgType = .delId)
    (hw : t.workThread = s.workThread) : ToldDelete id [j] s (t.enqueue j m) := by
  constructor
  · intro i
    refine ⟨if i = j then [m] else [], ?_, ?_, ?_⟩
    · rw [workThread_enqueue, hw]
    · split_ifs
      · simpa using ⟨hid, hm⟩
      · simp
    · intro hi
      exact if_neg fun hj => hi (List.mem_singleton.mpr hj)
  · intro i
    rw [workThread_enqueue, hw]
  · intro i
    rw [workThread_enqueue, hw]

theorem toldDelete_notifyDelId (env : Env) (id : UInt64) (s : Server) (j : ℕ) :
    ToldDelete id [j] s (notifyDelId env id s j) := by
  simp only [notifyDelId, notifyNewMsg_eq]
  by_cases hid : id ∈ (s.workThread j).subMap
  · by_cases hv : (env.write s.writes).value = 8
    · simp only [if_pos hid, if_pos hv, ↓reduceIte]
      exact toldDelete_enqueue (by rfl) (by rfl) (by rfl)
    · simp only [if_pos hid, if_neg hv, Bool.false_eq_true, ↓reduceIte]
      exact .of_eq (by rfl)
  · simp only [if_neg hid]
    exact .of_eq (by rfl)

theorem toldDelete_foldl (env : Env) (id : UInt64) (js : List ℕ) (s : Server) :
    ToldDelete id js s (js.foldl (notifyDelId env id) s) := by
  induction js generalizing s with
  | nil => exact .of_eq rfl
  | cons j js ih => exact (toldDelete_notifyDelId env id s j).trans (ih (notifyDelId env id s j))

/-- A worker that does not have the id is not told, so it may as well be left out. -/
theorem foldl_notifyDelId_filter {w : ℕ} (js : List ℕ) (hw : id ∉ (s.workThread w).subMap) :
    js.foldl (notifyDelId env id) s = (js.filter (· ≠ w)).foldl (notifyDelId env id) s := by
  induction js generalizing s with
  | nil => rfl
  | cons j js ih =>
    have hnext : id ∉ ((notifyDelId env id s j).workThread w).subMap := by
      rw [(toldDelete_notifyDelId env id s j).subMap]
      exact hw
    by_cases hj : j = w
    · subst hj
      have hskip : notifyDelId env id s j = s := by
        rw [notifyDelId, if_neg hw]
      rw [List.filter_cons_of_neg (by simp), List.foldl_cons, hskip]
      exact ih hw
    · rw [List.filter_cons_of_pos (by simpa using hj), List.foldl_cons, List.foldl_cons]
      exact ih hnext

end Told

section Paths

variable {σ : Type} (R : Runtime σ) {s : Server} {env : Env} {d : LoginData}

theorem replyLogin_setAnalyseReq (a : AnalyseReq) (isSuccess : Bool) (msg : String) :
    ∃ a', (s.setAnalyseReq d.workThread a).replyLogin R env d isSuccess msg =
      (s.replyLogin R env d isSuccess msg).setAnalyseReq d.workThread a' := by
  have hping : ((s.setAnalyseReq d.workThread a).workThread d.workThread).pingTime =
      (s.workThread d.workThread).pingTime := by
    simp [setAnalyseReq, modify]
  have hreq : ((s.setAnalyseReq d.workThread a).workThread d.workThread).analyseReq = a := by
    simp [setAnalyseReq, modify]
  have hbytes := (stateless (R := R) a (s.workThread d.workThread).analyseReq).loginRsp isSuccess
    (ascii msg) (s.workThread d.workThread).pingTime env.mem env.mem
  simp only [replyLogin, hping, hreq, hbytes, addOutput_setAnalyseReq, setAnalyseReq_setAnalyseReq]
  exact ⟨_, rfl⟩

/-- The parser plays no part in a successful login but to build the reply. -/
theorem registerLogin_setAnalyseReq (env : Env) (s : Server) (d : LoginData) (a : AnalyseReq)
    (js : List ℕ) :
    ∃ a', (s.setAnalyseReq d.workThread a).registerLogin R env d js =
      (s.registerLogin R env d js).setAnalyseReq d.workThread a' := by
  simp only [registerLogin, kick_setAnalyseReq, foldl_notifyDelId_setAnalyseReq,
    bindLogin_setAnalyseReq]
  exact replyLogin_setAnalyseReq R a true "200 ok"

/-- The worker of the login has no session of the id left when the others are told. -/
theorem registerLogin_filter (js : List ℕ) :
    s.registerLogin R env d js =
      s.registerLogin R env d (js.filter (· ≠ d.workThread)) := by
  have hgone : d.id ∉ ((s.kick d.workThread d.id).workThread d.workThread).subMap := by
    intro hin
    exact (mem_subMap_kick hin).1 rfl
  simp only [registerLogin]
  rw [foldl_notifyDelId_filter js hgone]

/-- What a successful login is, over the state in which it is approved: the outcome of the redis
path up to the end of the request. -/
def loggedIn (env : Env) (s : Server) (d : LoginData) : Server :=
  s.registerLogin R env d ((List.range s.workThreadNum).filter (· ≠ d.workThread))

theorem redisLoginCallback_matching {str : Bytes} {element : List (Option Bytes)}
    (hb : d.bev ∈ (s.workThread d.workThread).bevId)
    (hnew : ((s.workThread d.workThread).subMap.lookup d.id).map Subscriber.bev ≠ some d.bev)
    (htoken : cstr d.token = cstr str) :
    s.redisLoginCallback R env d (some { type := .string, str := some str, element }) =
      (s.loggedIn R env d).deleteLogin d := by
  simp only [redisLoginCallback, if_pos hb, Option.bind_some, if_pos htoken, if_neg hnew, loggedIn]

theorem httpLoginRead_accepting (env : Env) (h : Addr) {data : Bytes}
    (hb : d.bev ∈ (s.workThread d.workThread).bevId)
    (haccept : (analyseLoginData R (s.workThread d.workThread).analyseReq data).1 = true) :
    ∃ a, s.httpLoginRead R env h d data =
      (((s.loggedIn R env d).setAnalyseReq d.workThread a).bufferEventFree h).deleteLogin d := by
  obtain ⟨a, ha⟩ := registerLogin_setAnalyseReq R env s d
    (analyseLoginData R (s.workThread d.workThread).analyseReq data).2 (List.range s.workThreadNum)
  refine ⟨a, ?_⟩
  simp only [httpLoginRead, if_pos hb, if_pos haccept]
  rw [loggedIn, ← registerLogin_filter, ← ha]
  rfl

theorem queues_bindLogin (env : Env) (s : Server) (d : LoginData) :
    (∀ j, ((s.bindLogin env d).workThread j).newMsgFd = (s.workThread j).newMsgFd) ∧
    ((s.bindLogin env d).workThread d.workThread).redis = (s.workThread d.workThread).redis ++
      [friendsCommand d.id (.online ⟨d.id, d.bev, d.workThread, d.conn⟩)] := by
  constructor
  · intro j
    rw [bindLogin, workThread_redisAsyncCommand]
    by_cases hj : j = d.workThread
    · simp [modify, emit, hj]
    · simp [modify, emit, hj]
  · rw [bindLogin, workThread_redisAsyncCommand]
    simp [modify, emit]

theorem queues_replyLogin (env : Env) (s : Server) (d : LoginData) (isSuccess : Bool)
    (msg : String) :
    (∀ j, ((s.replyLogin R env d isSuccess msg).workThread j).redis = (s.workThread j).redis) ∧
    ∀ j, ((s.replyLogin R env d isSuccess msg).workThread j).newMsgFd =
      (s.workThread j).newMsgFd := by
  have hwrites : Writes (fun x => x = .bytes (.loginRsp d isSuccess)) s
      (s.replyLogin R env d isSuccess msg) := writes_replyLogin R rfl
  obtain ⟨hredis, hqueue, -⟩ := hwrites.queues (by simp) (by simp)
  exact ⟨hredis, hqueue⟩

/-- A successful login tells no worker but others, and nothing but to delete the id; it asks redis
for the friends. -/
theorem queues_loggedIn (env : Env) (s : Server) (d : LoginData) :
    (∀ j, ∃ added, ((s.loggedIn R env d).workThread j).newMsgFd =
      (s.workThread j).newMsgFd ++ added ∧ (∀ m ∈ added, m.toId = d.id ∧ m.msgType = .delId) ∧
        (j = d.workThread → added = [])) ∧
    ((s.loggedIn R env d).workThread d.workThread).redis =
      (s.workThread d.workThread).redis ++
        [friendsCommand d.id (.online ⟨d.id, d.bev, d.workThread, d.conn⟩)] := by
  let others := (List.range s.workThreadNum).filter (· ≠ d.workThread)
  let kicked := s.kick d.workThread d.id
  let told := others.foldl (notifyDelId env d.id) kicked
  obtain ⟨hkredis, hkqueue, -⟩ : _ ∧ _ ∧ s.nextSeq ≤ kicked.nextSeq :=
    (writes_kick (P := fun _ => False) s d.workThread d.id).queues (by simp) (by simp)
  have htold : ToldDelete d.id others kicked told := toldDelete_foldl env d.id others kicked
  obtain ⟨hbqueue, hbredis⟩ := queues_bindLogin env told d
  obtain ⟨hrredis, hrqueue⟩ := queues_replyLogin R env (told.bindLogin env d) d true "200 ok"
  constructor
  · intro j
    obtain ⟨added, hadded, hdel, hown⟩ := htold.queue j
    refine ⟨added, ?_, hdel, ?_⟩
    · rw [← hkqueue j, ← hadded, ← hbqueue j, ← hrqueue j]
      rfl
    · rintro rfl
      apply hown
      simp [others]
  · rw [← hkredis d.workThread, ← htold.redis, ← hbredis, ← hrredis]
    rfl

/-- Two outcomes `t` and `u` of a login, the second through the HTTP request at `h`: the tables, the
queues, the bytes sent and the lookups are the same; so are the bufferevents and what was freed,
but for the request's own. Nothing was added to a queue but commands to delete the id, and none to
the worker itself; the friends of the id are looked up. -/
structure SameLogin (s : Server) (d : LoginData) (h : Addr) (t u : Server) : Prop where
  subMap : ∀ j, (u.workThread j).subMap = (t.workThread j).subMap
  bevId : ∀ j, (u.workThread j).bevId = (t.workThread j).bevId
  queue : ∀ j, (u.workThread j).newMsgFd = (t.workThread j).newMsgFd
  told : ∀ j, ∃ added, (t.workThread j).newMsgFd = (s.workThread j).newMsgFd ++ added ∧
    (∀ m ∈ added, m.toId = d.id ∧ m.msgType = .delId) ∧ (j = d.workThread → added = [])
  freed : u.freedAddrs = t.freedAddrs ++ [h]
  output : ∀ b, b ≠ h → u.heap.lookup b = t.heap.lookup b
  sent : u.sent = t.sent
  redis : ∀ j, (u.workThread j).redis = (t.workThread j).redis
  lookup : (t.workThread d.workThread).redis = (s.workThread d.workThread).redis ++
    [friendsCommand d.id (.online ⟨d.id, d.bev, d.workThread, d.conn⟩)]

/-- The two login paths agree: from any state, with any environment, a request whose connection is
still known and is not the one its id is already logged in on has the same outcome, whether redis
returns its token or the HTTP service accepts it. -/
theorem login_paths_agree (env : Env) (s : Server) (d : LoginData) (h : Addr) (str data : Bytes)
    (element : List (Option Bytes)) (hb : d.bev ∈ (s.workThread d.workThread).bevId)
    (hnew : ((s.workThread d.workThread).subMap.lookup d.id).map Subscriber.bev ≠ some d.bev)
    (htoken : cstr d.token = cstr str)
    (haccept : (analyseLoginData R (s.workThread d.workThread).analyseReq data).1 = true) :
    SameLogin s d h
      (s.redisLoginCallback R env d (some { type := .string, str := some str, element }))
      (s.httpLoginRead R env h d data) := by
  obtain ⟨a, ha⟩ := httpLoginRead_accepting R env h hb haccept
  obtain ⟨htold, hlookup⟩ := queues_loggedIn R env s d
  rw [redisLoginCallback_matching R hb hnew htoken, ha]
  constructor
  · intro j
    exact subMap_setAnalyseReq j
  · intro j
    exact bevId_setAnalyseReq j
  · intro j
    exact newMsgFd_setAnalyseReq j
  · exact htold
  · simp only [deleteLogin, freedAddrs_emit, freedAddrs_bufferEventFree, Obs.freedAddr,
      Option.toList_none, List.append_nil]
    rfl
  · intro b hb
    exact Finmap.lookup_erase_ne hb
  · rfl
  · intro j
    exact redis_setAnalyseReq j
  · exact hlookup

end Paths

end Server

/-- Id 7 is logged in on a connection of each worker, the first of which has not read its pipe yet,
and a third connection has arrived at worker 0. -/
def twoSessions : List (Env × Event) :=
  connect 0 1 ++ connect 1 2 ++ login 0 1 7 ++ login 1 2 7 ++ connect 0 3

/-- A request of the third connection for id 7. -/
def thirdRequest : LoginData := { id := 7, token := [0x74], bev := 3, conn := 2 }

theorem twoSessions_paths_agree :
    ∃ s, s.Reached Wire.runtime (fun _ _ => True) ∧ 7 ∈ (s.workThread 0).subMap ∧
      7 ∈ (s.workThread 1).subMap ∧
      Server.SameLogin s thirdRequest 4
        (s.redisLoginCallback Wire.runtime (plainEnv 3) thirdRequest tokenReply)
        (s.httpLoginRead Wire.runtime (plainEnv 3) 4 thirdRequest Server.grantReply) := by
  obtain ⟨s, hs, h0, h1, hb, hnew, haccept⟩ := Server.exists_reached Wire.runtime 2 twoSessions
    (fun _ _ => True) (fun s => 7 ∈ (s.workThread 0).subMap ∧ 7 ∈ (s.workThread 1).subMap ∧
      3 ∈ (s.workThread 0).bevId ∧
      ((s.workThread 0).subMap.lookup 7).map Subscriber.bev ≠ some 3 ∧
      (analyseLoginData Wire.runtime (s.workThread 0).analyseReq Server.grantReply).1 = true)
    (.of_forall (by simp) _) (by decide +kernel)
  exact ⟨s, hs, h0, h1, Server.login_paths_agree Wire.runtime (plainEnv 3) s thirdRequest 4 [0x74]
    Server.grantReply [] hb hnew rfl haccept⟩

end EglComet
