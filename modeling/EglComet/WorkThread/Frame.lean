import EglComet.WorkThread.Dispatch

/-!
What the callbacks leave alone. No callback changes the cap on the connections of
a worker or its heartbeat interval, and `notify_new_conn_callback` alone accepts
connections and lets them expire.
-/
namespace EglComet

open Protobuf

/-- The entries of the history that are made by `notify_new_conn_callback`. -/
def Obs.isConn : Obs → Bool
  | .accepted _ _ _ => true
  | .expired _ _ _ _ => true
  | _ => false

namespace Server

/-- What `start_work_thread` takes from the configuration. -/
structure Config where
  maxNumPerThread : ℤ
  pingTime : ℕ → ℤ

def config (s : Server) : Config where
  maxNumPerThread := s.maxNumPerThread
  pingTime w := (s.workThread w).pingTime

/-- The configuration and the entries that `notify_new_conn_callback` made. -/
def frame (s : Server) : Config × List Obs := (s.config, s.log.filter Obs.isConn)

section Primitives

variable {s : Server}

theorem config_modify {w : ℕ} {f : WorkThread → WorkThread}
    (h : (f (s.workThread w)).pingTime = (s.workThread w).pingTime) :
    (s.modify w f).config = s.config := by
  have hp : (fun v => ((s.modify w f).workThread v).pingTime) =
      fun v => (s.workThread v).pingTime := by
    funext v
    by_cases hv : v = w
    · subst hv
      simpa [modify] using h
    · simp [modify, hv]
  simp only [config, hp]
  rfl

theorem frame_modify {w : ℕ} {f : WorkThread → WorkThread}
    (h : (f (s.workThread w)).pingTime = (s.workThread w).pingTime) :
    (s.modify w f).frame = s.frame := by
  rw [frame, config_modify h]
  rfl

theorem config_emit (s : Server) (o : Obs) : (s.emit o).config = s.config := rfl

theorem frame_emit {o : Obs} (h : o.isConn = false) : (s.emit o).frame = s.frame := by
  have hl : (s.emit o).log.filter Obs.isConn = s.log.filter Obs.isConn := by
    rw [emit, List.filter_append, List.filter_cons_of_neg (by rw [h]; exact Bool.false_ne_true)]
    exact List.append_nil _
  simp only [frame, hl]
  rfl

@[simp] theorem frame_setHeap (s : Server) (heap : Table Addr BufferEvent) :
    (s.setHeap heap).frame = s.frame := rfl

@[simp] theorem frame_bufferEventFree (s : Server) (b : Addr) :
    (s.bufferEventFree b).frame = s.frame := by
  rw [bufferEventFree, frame_setHeap, frame_emit rfl]

@[simp] theorem frame_deleteLogin (s : Server) (d : LoginData) :
    (s.deleteLogin d).frame = s.frame := frame_emit rfl

@[simp] theorem frame_deleteTrans (s : Server) (d : TransData) :
    (s.deleteTrans d).frame = s.frame := frame_emit rfl

@[simp] theorem frame_recordSent (s : Server) (o : Owner) (source : Source) (bs : Bytes) :
    (s.recordSent o source bs).frame = s.frame := by
  unfold recordSent
  split <;> rfl

@[simp] theorem frame_addOutput (s : Server) (b : Addr) (source : Source) (bs : Bytes) :
    (s.addOutput b source bs).frame = s.frame := by
  unfold addOutput
  split
  · simp
  · exact frame_emit rfl

@[simp] theorem frame_redisAsyncCommand (s : Server) (w : ℕ) (cmd : RedisCommand) :
    (s.redisAsyncCommand w cmd).frame = s.frame := frame_modify rfl

@[simp] theorem frame_setAnalyseReq (s : Server) (w : ℕ) (a : AnalyseReq) :
    (s.setAnalyseReq w a).frame = s.frame := frame_modify rfl

@[simp] theorem frame_setWrites (s : Server) (n : ℕ) : (s.setWrites n).frame = s.frame := rfl

@[simp] theorem frame_enqueue (s : Server) (j : ℕ) (d : TransData) :
    (s.enqueue j d).frame = s.frame := by
  rw [enqueue, frame_emit rfl, frame_modify rfl]

@[simp] theorem frame_notifyNewMsg (env : Env) (s : Server) (j : ℕ) (d : TransData) :
    (notifyNewMsg env s j d).2.frame = s.frame := by
  rw [notifyNewMsg_eq]
  split_ifs <;> simp

@[simp] theorem frame_notifyDelId (env : Env) (id : UInt64) (s : Server) (j : ℕ) :
    (notifyDelId env id s j).frame = s.frame := by
  simp only [notifyDelId]
  split_ifs
  · rw [frame_notifyNewMsg]
    rfl
  · rw [frame_deleteTrans, frame_notifyNewMsg]
    rfl
  · rfl

@[simp] theorem frame_transmit (env : Env) (s : Server) (d : TransData) :
    (s.transmit env d).frame = s.frame := by
  rw [transmit_eq]
  split <;> simp

@[simp] theorem frame_requestOffline (s : Server) (w : ℕ) (id : UInt64) :
    (s.requestOffline w id).frame = s.frame := by
  unfold requestOffline
  split_ifs <;> simp

/-- A loop of callbacks that keep the configuration keeps it. -/
theorem frame_foldl {α : Type} {f : Server → α → Server}
    (h : ∀ s a, (f s a).frame = s.frame) (xs : List α) (s : Server) :
    (xs.foldl f s).frame = s.frame := by
  induction xs generalizing s with
  | nil => rfl
  | cons a xs ih => rw [List.foldl_cons, ih, h]

end Primitives

section Connections

theorem frame_bufferEventEventCallback (s : Server) (w : ℕ) (b : Addr) (flags : Flags) :
    (s.bufferEventEventCallback w b flags).frame = s.frame := by
  unfold bufferEventEventCallback
  split_ifs
  · simp only [frame_requestOffline, frame_bufferEventFree]
    rw [frame_modify rfl]
    split_ifs
    · rw [frame_modify rfl, frame_emit rfl]
    · rw [frame_emit rfl]
  · rfl

theorem frame_notifyNewConn (env : Env) (fd : ℤ) (s : Server) (j : ℕ) :
    (notifyNewConn env fd s j).frame = s.frame := by
  simp only [notifyNewConn]
  split_ifs
  · rw [frame_modify rfl]
    rfl
  · rfl

theorem frame_acceptCallback (env : Env) (s : Server) (fd : ℤ) :
    (s.acceptCallback env fd).frame = s.frame := by
  unfold acceptCallback
  split_ifs
  · exact frame_notifyNewConn env fd s _
  · rfl
  · rfl

theorem frame_handleMsg (w : ℕ) (s : Server) (d : TransData) :
    (handleMsg w s d).frame = s.frame := by
  unfold handleMsg
  rw [frame_deleteTrans]
  split
  · split
    · simp
    · rfl
  · split
    · rw [frame_modify rfl]
      split_ifs
      · simp
      · exact frame_emit rfl
    · rfl

theorem frame_newMsgLoop (w : ℕ) (ds : List TransData) (s : Server) :
    (newMsgLoop w ds s).frame = s.frame := by
  induction ds generalizing s with
  | nil => rfl
  | cons d ds ih =>
    rw [newMsgLoop, ih, frame_handleMsg]
    exact frame_modify rfl

end Connections

section NewConnections

theorem config_newConnection (env : Env) (s : Server) (w : ℕ) :
    (s.newConnection env w).config = s.config := by
  simp only [newConnection, config_emit]
  rw [config_modify rfl]
  rfl

theorem config_expireEntry (w : ℕ) (t : ℤ) (s : Server) (b : Addr) :
    (expireEntry w t s b).config = s.config := by
  unfold expireEntry
  split
  · rfl
  · split
    · rfl
    · split_ifs
      · refine (congrArg Prod.fst (frame_requestOffline _ w _)).trans ?_
        show (Server.modify _ w _).config = _
        rw [config_modify rfl]
        rfl
      · rfl

theorem config_delExpireClient (env : Env) (s : Server) (w : ℕ) :
    (s.delExpireClient env w).config = s.config := by
  unfold delExpireClient
  split
  · rfl
  · exact List.foldlRecOn (motive := fun u : Server => u.config = s.config) _ _ rfl
      fun u hu b _ => (config_expireEntry w _ u b).trans hu

theorem config_newConnLoop (env : Env) (w : ℕ) (items : List ℤ) (i : ℕ) (s : Server) :
    (newConnLoop env w i items s).config = s.config := by
  induction items generalizing i s with
  | nil => rfl
  | cons data rest ih =>
    have hpop : (s.modify w fun t => { t with newConnFd := rest }).config = s.config :=
      config_modify rfl
    simp only [newConnLoop]
    split_ifs
    · rw [ih, config_newConnection, hpop]
    · rw [config_modify rfl, hpop]
    · rw [ih, config_delExpireClient, hpop]
    · rw [ih, hpop]
    · exact hpop

end NewConnections

section Requests

variable {σ : Type} {R : Runtime σ}

theorem frame_startLogin (w : ℕ) (b : Addr) (conn : ℕ) (s : Server) (d : Option LoginData) :
    (startLogin w b conn s d).frame = s.frame := by
  cases d with
  | none => rfl
  | some d =>
    rw [startLogin, frame_emit rfl, frame_redisAsyncCommand]
    rfl

theorem frame_refreshHeartbeat (env : Env) (w : ℕ) (b : Addr) (id : UInt64) (s : Server)
    (isHeart : Bool) : (refreshHeartbeat env w b id s isHeart).frame = s.frame := by
  unfold refreshHeartbeat
  split_ifs
  · split
    · rw [frame_emit rfl, frame_modify rfl]
    · rfl
  · rfl

theorem frame_startTrans (env : Env) (w : ℕ) (b : Addr) (id : UInt64) (s : Server)
    (d : Option TransData) : (startTrans env w b id s d).frame = s.frame := by
  cases d with
  | none => rfl
  | some d =>
    simp only [startTrans]
    split_ifs <;>
      simp only [frame_transmit, frame_redisAsyncCommand, frame_deleteTrans] <;>
      exact frame_emit rfl

theorem frame_bufferEventReadCallback {env : Env} {s t : Server} {w conn : ℕ} {b : Addr}
    {be : BufferEvent} (h : s.bufferEventReadCallback R env w conn b be = some t) :
    t.frame = s.frame := by
  obtain ⟨x, hx, rfl⟩ := Option.map_eq_some_iff.mp h
  have hloop : x.1.frame = s.frame :=
    readLoop_invariant R (P := fun u => u.frame = s.frame)
      (fun u _ _ r hu => by
        rw [handleRequest, frame_startTrans, frame_refreshHeartbeat, frame_startLogin, hu]) rfl hx
  simp only [frame_recordSent, frame_setHeap, frame_setAnalyseReq]
  exact hloop

end Requests

section Answers

variable {σ : Type} {R : Runtime σ}

@[simp] theorem frame_replyLogin (env : Env) (s : Server) (d : LoginData) (isSuccess : Bool)
    (msg : String) : (s.replyLogin R env d isSuccess msg).frame = s.frame := by
  simp [replyLogin]

theorem frame_kick (s : Server) (w : ℕ) (id : UInt64) : (s.kick w id).frame = s.frame := by
  unfold kick
  split
  · rfl
  · rw [frame_modify rfl]
    split_ifs
    · rw [frame_modify rfl, frame_bufferEventFree]
    · rfl

theorem frame_bindLogin (env : Env) (s : Server) (d : LoginData) :
    (s.bindLogin env d).frame = s.frame := by
  simp only [bindLogin, frame_redisAsyncCommand]
  rw [frame_modify rfl, frame_emit rfl]

theorem frame_registerLogin (env : Env) (s : Server) (d : LoginData) (told : List ℕ) :
    (s.registerLogin R env d told).frame = s.frame := by
  simp only [registerLogin, frame_replyLogin]
  rw [frame_bindLogin, frame_foldl (frame_notifyDelId env d.id), frame_kick]

@[simp] theorem frame_httpLoginEvent (env : Env) (s : Server) (h : Addr) (d : LoginData)
    (flags : Flags) : (s.httpLoginEvent R env h d flags).frame = s.frame := by
  simp only [httpLoginEvent]
  split_ifs
  · simp
  · simp
  · split
    · simp
    · rw [frame_emit rfl, frame_setAnalyseReq]
  · simp
  · rfl

theorem frame_httpLoginCheck (env : Env) (s : Server) (d : LoginData) :
    (s.httpLoginCheck R env d).frame = s.frame := by
  simp only [httpLoginCheck]
  split <;> simp

theorem frame_redisLoginCallback (env : Env) (s : Server) (d : LoginData)
    (reply : Option RedisReply) : (s.redisLoginCallback R env d reply).frame = s.frame := by
  simp only [redisLoginCallback]
  split
  · split
    · exact frame_httpLoginCheck env s d
    · split_ifs
      · simp
      · rw [frame_deleteLogin, frame_registerLogin]
      · simp
  · simp

theorem frame_httpLoginRead (env : Env) (s : Server) (h : Addr) (d : LoginData) (data : Bytes) :
    (s.httpLoginRead R env h d data).frame = s.frame := by
  simp only [httpLoginRead, frame_deleteLogin, frame_bufferEventFree]
  split_ifs
  · rw [frame_registerLogin, frame_setAnalyseReq]
  · simp
  · rfl

@[simp] theorem frame_httpTransEvent (env : Env) (s : Server) (h : Addr) (d : Relay)
    (flags : Flags) : (s.httpTransEvent R env h d flags).frame = s.frame := by
  simp only [httpTransEvent]
  split_ifs
  · simp
  · split
    · rw [frame_setHeap, frame_emit rfl, frame_setAnalyseReq]
    · rw [frame_emit rfl, frame_setAnalyseReq]
  · simp
  · rfl

theorem frame_httpTransCheck (env : Env) (s : Server) (d : Relay) :
    (s.httpTransCheck R env d).frame = s.frame := by
  simp only [httpTransCheck]
  split <;> simp

theorem frame_httpTransRead (env : Env) (s : Server) (h : Addr) (d : Relay) (data : Bytes) :
    (s.httpTransRead R env h d data).frame = s.frame := by
  simp only [httpTransRead, frame_bufferEventFree]
  split_ifs
  · rw [frame_transmit, frame_emit rfl, frame_setAnalyseReq]
  · rw [frame_deleteTrans, frame_emit rfl, frame_setAnalyseReq]

theorem frame_notifyFriend {env : Env} {id toId : UInt64} {bytes : Bytes} {s : Server}
    {r : TransData × Bool × Server} (h : notifyFriend env id bytes s toId = some r) :
    r.2.2.frame = s.frame := by
  obtain ⟨j, -, rfl⟩ := Option.map_eq_some_iff.mp h
  rw [frame_notifyNewMsg]
  rfl

theorem frame_foldl_onlineFriend (env : Env) (id : UInt64) (bytes : Bytes) (strs : List Bytes)
    (acc : Server × Bytes) :
    (strs.foldl (onlineFriend env id bytes) acc).1.frame = acc.1.frame := by
  induction strs generalizing acc with
  | nil => rfl
  | cons str strs ih =>
    rw [List.foldl_cons, ih]
    unfold onlineFriend
    split
    · rename_i hn
      have hf := frame_notifyFriend hn
      split_ifs
      · exact hf
      · rw [frame_deleteTrans]
        exact hf
    · rfl

theorem frame_offlineFriend (env : Env) (id : UInt64) (bytes : Bytes) (s : Server) (str : Bytes) :
    (offlineFriend env id bytes s str).frame = s.frame := by
  unfold offlineFriend
  split
  · rename_i hn
    exact frame_notifyFriend hn
  · rfl

theorem frame_redisCallback {env : Env} {s t : Server} {reply : Option RedisReply}
    {callback : RedisCallback} (h : redisCallback R env s reply callback = some t) :
    t.frame = s.frame := by
  cases callback with
  | login d =>
    obtain rfl := Option.some.inj h
    exact frame_redisLoginCallback env s d reply
  | trans d =>
    obtain ⟨r, -, rfl⟩ := Option.map_eq_some_iff.mp h
    split_ifs
    · exact frame_httpTransCheck env s d
    · exact frame_transmit env s _
  | online info =>
    simp only [redisCallback, redisOnlineNotify] at h
    split_ifs at h
    · obtain ⟨strs, -, rfl⟩ := Option.map_eq_some_iff.mp h
      rw [frame_addOutput, frame_emit rfl, frame_foldl_onlineFriend]
    · obtain rfl := Option.some.inj h
      rfl
  | offline info =>
    obtain ⟨strs, -, rfl⟩ := Option.map_eq_some_iff.mp h
    exact frame_foldl (frame_offlineFriend env _ _) strs s

end Answers

section Step

variable {σ : Type} {R : Runtime σ}

/-- Every callback but `notify_new_conn_callback` keeps the frame. -/
theorem frame_step {s t : Server} {x : Env × Event} (ht : step R s x = some t)
    (hne : ∀ w, x.2 ≠ .newConn w) : t.frame = s.frame := by
  obtain ⟨env, ev⟩ := x
  rcases step_cases R ht with hq | ha
  · cases hq with
    | acceptConn fd => exact frame_acceptCallback env s fd
    | timer => exact frame_foldl (frame_notifyNewConn env (-2)) _ s
    | stop w => exact frame_notifyNewConn env (-1) s w
    | newConn w => exact absurd rfl (hne w)
    | newMsg w => exact frame_newMsgLoop w _ s
    | clientEvent flags hb => exact frame_bufferEventEventCallback s _ _ flags
  · cases ha with
    | clientRead hb ht => exact frame_bufferEventReadCallback ht
    | redisReply hc ht =>
      rw [frame_redisCallback ht, takeCommand, frame_emit rfl, frame_modify rfl]
    | loginRead d hb => exact frame_httpLoginRead env s _ d _
    | transRead d hb => exact frame_httpTransRead env s _ d _
    | loginEvent d sent hb => exact frame_httpLoginEvent env s _ d _
    | transEvent d sent hb => exact frame_httpTransEvent env s _ d _

/-- No callback changes the configuration. -/
theorem config_step {s t : Server} {x : Env × Event} (ht : step R s x = some t) :
    t.config = s.config := by
  by_cases hx : ∃ w, x.2 = .newConn w
  · obtain ⟨env, ev⟩ := x
    obtain ⟨w, rfl⟩ := hx
    simp only [step, Option.ite_none_right_eq_some, Option.some.injEq] at ht
    obtain ⟨-, rfl⟩ := ht
    exact config_newConnLoop env w _ 0 s
  · exact congrArg Prod.fst (frame_step ht fun w hw => hx ⟨w, hw⟩)

end Step

end Server

end EglComet
