import EglComet.WorkThread.Callbacks
import EglComet.Library.Transition

/-!
The transition system of the whole server: the callbacks of the main thread and
of every worker, in any order the event loops and the backends allow. One event
is one callback; its environment is chosen anew.
-/
namespace EglComet

open Protobuf

inductive Event where
  | acceptConn (fd : ℤ)
  | timer
  | stop (w : ℕ)
  | newConn (w : ℕ)
  | newMsg (w : ℕ)
  | clientRead (b : Addr) (chunk : Bytes)
  | clientEvent (b : Addr) (flags : Flags)
  | redisReply (w i : ℕ) (reply : Option RedisReply)
  | httpRead (h : Addr) (chunk : Bytes)
  | httpEvent (h : Addr) (flags : Flags)
  deriving DecidableEq, Repr

namespace Server

/-- `notify_new_conn` of worker `j`. -/
def notifyNewConn (env : Env) (fd : ℤ) (s : Server) (j : ℕ) : Server :=
  let n := s.writes
  let s := { s with writes := n + 1 }
  if env.write n = .full then s.modify j fun t => { t with newConnFd := t.newConnFd ++ [fd] }
  else s

/-- The least loaded worker and its count, as `accept_callback` computes them. -/
def minWorker (s : Server) : ℕ × ℤ :=
  (List.range' 1 (s.workThreadNum - 1)).foldl
    (fun m i => if (s.workThread i).connNum < m.2 then (i, (s.workThread i).connNum) else m)
    (0, (s.workThread 0).connNum)

/-- `accept_callback`, with the result of `accept4`. -/
def acceptCallback (env : Env) (s : Server) (connFd : ℤ) : Server :=
  if s.minWorker.2 < s.maxNumPerThread then
    if connFd ≠ -1 then s.notifyNewConn env connFd s.minWorker.1 else s
  else s

def checkExpireClient (env : Env) (s : Server) : Server :=
  (List.range s.workThreadNum).foldl (notifyNewConn env (-2)) s

/-- The event loop of worker `w` is running. -/
def runs (s : Server) (w : ℕ) : Bool := decide (w < s.workThreadNum) && !(s.workThread w).stopped

/-- The server after `start_work_thread`. -/
def start (workThreadNum : ℕ) (maxNumPerThread pingTime : ℤ) (httpUrl : Bytes)
    (isHeart : ℕ → Bool) : Server where
  workThreadNum := workThreadNum
  maxNumPerThread := maxNumPerThread
  workThread := fun w => { pingTime, httpUrl, analyseReq := AnalyseReq.new (isHeart w) }

def Started (s : Server) : Prop :=
  ∃ workThreadNum maxNumPerThread pingTime httpUrl isHeart,
    s = start workThreadNum maxNumPerThread pingTime httpUrl isHeart

section Step

variable {σ : Type} (R : Runtime σ)

/-- The callback that `redisAsyncCommand` was given, on its reply. -/
def redisCallback (env : Env) (s : Server) (reply : Option RedisReply) :
    RedisCallback → Option Server
  | .login d => some (s.redisLoginCallback R env d reply)
  | .trans d => s.redisTransCallback R env d reply
  | .online info => s.redisOnlineNotify R env info reply
  | .offline info => s.redisOfflineNotify R env info reply

/-- The answered command leaves the queue before its callback runs. -/
def takeCommand (s : Server) (w i : ℕ) (cmd : RedisCommand) (reply : Option RedisReply) : Server :=
  (s.modify w fun t => { t with redis := t.redis.eraseIdx i }).emit (.redisAnswer w cmd reply)

/-- One callback. An event is possible while the bufferevent or the command it concerns exists and
the loop that would run it has not stopped; an HTTP check connects once and reads only after its
request was sent. -/
def step (s : Server) (x : Env × Event) : Option Server :=
  match x.2 with
  | .acceptConn fd => if -1 ≤ fd then some (s.acceptCallback x.1 fd) else none
  | .timer => some (s.checkExpireClient x.1)
  | .stop w => if w < s.workThreadNum then some (s.notifyNewConn x.1 (-1) w) else none
  | .newConn w => if s.runs w then some (s.notifyNewConnCallback x.1 w) else none
  | .newMsg w => if s.runs w then some (s.notifyNewMsgCallback w) else none
  | .clientRead b chunk =>
    match s.heap.lookup b with
    | some ⟨.client w conn, input, output⟩ =>
      if s.runs w then
        s.bufferEventReadCallback R x.1 w conn b ⟨.client w conn, input ++ chunk, output⟩
      else none
    | _ => none
  | .clientEvent b flags =>
    match s.heap.lookup b with
    | some ⟨.client w _, _, _⟩ =>
      if s.runs w then some (s.bufferEventEventCallback w b flags) else none
    | _ => none
  | .redisReply w i reply =>
    match (s.workThread w).redis[i]? with
    | some cmd =>
      if s.runs w then redisCallback R x.1 (s.takeCommand w i cmd reply) reply cmd.callback
      else none
    | none => none
  | .httpRead h chunk =>
    match s.heap.lookup h with
    | some ⟨.httpLogin d true, input, _⟩ =>
      if s.runs d.workThread then some (s.httpLoginRead R x.1 h d (input ++ chunk)) else none
    | some ⟨.httpTrans d true, input, _⟩ =>
      if s.runs d.workThread then some (s.httpTransRead R x.1 h d (input ++ chunk)) else none
    | _ => none
  | .httpEvent h flags =>
    match s.heap.lookup h with
    | some ⟨.httpLogin d sent, _, _⟩ =>
      if s.runs d.workThread ∧ ¬ (sent ∧ flags.connected) then
        some (s.httpLoginEvent R x.1 h d flags)
      else none
    | some ⟨.httpTrans d sent, _, _⟩ =>
      if s.runs d.workThread ∧ ¬ (sent ∧ flags.connected) then
        some (s.httpTransEvent R x.1 h d flags)
      else none
    | _ => none

/-- The callbacks that only move connections, clocks and messages already in a pipe. -/
inductive Quiet (env : Env) (s : Server) : Event → Server → Prop where
  | acceptConn (fd : ℤ) : Quiet env s (.acceptConn fd) (s.acceptCallback env fd)
  | timer : Quiet env s .timer (s.checkExpireClient env)
  | stop (w : ℕ) : Quiet env s (.stop w) (s.notifyNewConn env (-1) w)
  | newConn (w : ℕ) : Quiet env s (.newConn w) (s.notifyNewConnCallback env w)
  | newMsg (w : ℕ) : Quiet env s (.newMsg w) (s.notifyNewMsgCallback w)
  | clientEvent {w conn : ℕ} {b : Addr} {input output : Bytes} (flags : Flags)
      (hb : s.heap.lookup b = some ⟨.client w conn, input, output⟩) :
      Quiet env s (.clientEvent b flags) (s.bufferEventEventCallback w b flags)

/-- The callbacks that read a request or an answer and go on with it. -/
inductive Active (env : Env) (s : Server) : Event → Server → Prop where
  | clientRead {w conn : ℕ} {b : Addr} {chunk input output : Bytes} {t : Server}
      (hb : s.heap.lookup b = some ⟨.client w conn, input, output⟩)
      (ht : s.bufferEventReadCallback R env w conn b ⟨.client w conn, input ++ chunk, output⟩ =
        some t) : Active env s (.clientRead b chunk) t
  | redisReply {w i : ℕ} {reply : Option RedisReply} {cmd : RedisCommand} {t : Server}
      (hc : (s.workThread w).redis[i]? = some cmd)
      (ht : redisCallback R env (s.takeCommand w i cmd reply) reply cmd.callback = some t) :
      Active env s (.redisReply w i reply) t
  | loginRead {h : Addr} {chunk input output : Bytes} (d : LoginData)
      (hb : s.heap.lookup h = some ⟨.httpLogin d true, input, output⟩) :
      Active env s (.httpRead h chunk) (s.httpLoginRead R env h d (input ++ chunk))
  | transRead {h : Addr} {chunk input output : Bytes} (d : Relay)
      (hb : s.heap.lookup h = some ⟨.httpTrans d true, input, output⟩) :
      Active env s (.httpRead h chunk) (s.httpTransRead R env h d (input ++ chunk))
  | loginEvent {h : Addr} {flags : Flags} {input output : Bytes} (d : LoginData) (sent : Bool)
      (hb : s.heap.lookup h = some ⟨.httpLogin d sent, input, output⟩) :
      Active env s (.httpEvent h flags) (s.httpLoginEvent R env h d flags)
  | transEvent {h : Addr} {flags : Flags} {input output : Bytes} (d : Relay) (sent : Bool)
      (hb : s.heap.lookup h = some ⟨.httpTrans d sent, input, output⟩) :
      Active env s (.httpEvent h flags) (s.httpTransEvent R env h d flags)

/-- What a step can be; every result about steps splits on this and not on `step`. -/
theorem step_cases {s t : Server} {x : Env × Event} (ht : step R s x = some t) :
    s.Quiet x.1 x.2 t ∨ s.Active R x.1 x.2 t := by
  obtain ⟨env, ev⟩ := x
  cases ev with
  | acceptConn fd =>
    simp only [step, Option.ite_none_right_eq_some, Option.some.injEq] at ht
    exact Or.inl (ht.2 ▸ .acceptConn fd)
  | timer => exact Or.inl (Option.some.inj ht ▸ .timer)
  | stop w =>
    simp only [step, Option.ite_none_right_eq_some, Option.some.injEq] at ht
    exact Or.inl (ht.2 ▸ .stop w)
  | newConn w =>
    simp only [step, Option.ite_none_right_eq_some, Option.some.injEq] at ht
    exact Or.inl (ht.2 ▸ .newConn w)
  | newMsg w =>
    simp only [step, Option.ite_none_right_eq_some, Option.some.injEq] at ht
    exact Or.inl (ht.2 ▸ .newMsg w)
  | clientRead b chunk =>
    simp only [step] at ht
    split at ht
    · rename_i hb
      simp only [Option.ite_none_right_eq_some] at ht
      exact Or.inr (.clientRead hb ht.2)
    · simp at ht
  | clientEvent b flags =>
    simp only [step] at ht
    split at ht
    · rename_i hb
      simp only [Option.ite_none_right_eq_some, Option.some.injEq] at ht
      exact Or.inl (ht.2 ▸ .clientEvent flags hb)
    · simp at ht
  | redisReply w i reply =>
    simp only [step] at ht
    split at ht
    · rename_i hc
      simp only [Option.ite_none_right_eq_some] at ht
      exact Or.inr (.redisReply hc ht.2)
    · simp at ht
  | httpRead a chunk =>
    simp only [step] at ht
    split at ht
    · rename_i hb
      simp only [Option.ite_none_right_eq_some, Option.some.injEq] at ht
      exact Or.inr (ht.2 ▸ .loginRead _ hb)
    · rename_i hb
      simp only [Option.ite_none_right_eq_some, Option.some.injEq] at ht
      exact Or.inr (ht.2 ▸ .transRead _ hb)
    · simp at ht
  | httpEvent a flags =>
    simp only [step] at ht
    split at ht
    · rename_i hb
      simp only [Option.ite_none_right_eq_some, Option.some.injEq] at ht
      exact Or.inr (ht.2 ▸ .loginEvent _ _ hb)
    · rename_i hb
      simp only [Option.ite_none_right_eq_some, Option.some.injEq] at ht
      exact Or.inr (ht.2 ▸ .transEvent _ _ hb)
    · simp at ht

/-- The login request that an event approves: its connection is still in the table, the backend
accepts, and it is not a repeated login that the redis path ignores. -/
def approval (s : Server) : Event → Option LoginData
  | .redisReply w i reply =>
    match (s.workThread w).redis[i]?.map RedisCommand.callback, reply.bind RedisReply.str with
    | some (.login d), some str =>
      let t := s.workThread d.workThread
      if d.bev ∈ t.bevId ∧ cstr d.token = cstr str ∧
        (t.subMap.lookup d.id).map Subscriber.bev ≠ some d.bev then some d else none
    | _, _ => none
  | .httpRead h chunk =>
    match s.heap.lookup h with
    | some ⟨.httpLogin d true, input, _⟩ =>
      let t := s.workThread d.workThread
      if d.bev ∈ t.bevId ∧ (analyseLoginData R t.analyseReq (input ++ chunk)).1 = true then some d
      else none
    | _ => none
  | _ => none

/-- States reached by callbacks that all meet a condition. -/
def Reached (ok : Server → Env × Event → Prop) : Server → Prop :=
  Transition.Reach (step R) Started ok

end Step

end Server

section Deployment

/-- The environment of the concrete runs: reliable pipes, a running clock, and an allocator that
gives out the address `a` whenever it is free. -/
def plainEnv (a : Addr) : Env where
  alloc := .prefer _ a
  order := .sorted _
  now := some 100
  write := fun _ => .full
  connect := .started
  addOk := true
  mem := fun _ => 0

/-- A login frame with a one-byte id and the token `t`. -/
def loginFrame (id : UInt8) : Bytes :=
  [0x11, 0x00, 0x00, 0x00, 0x00, 0x0a, 0x01, 0x00, 0x05, 0x08, id, 0x12, 0x01, 0x74]

/-- The reply of redis to a lookup of the token `t`. -/
def tokenReply : Option RedisReply := some { type := .string, str := some [0x74] }

/-- The reply of redis to a lookup of an empty friend list. -/
def noFriends : Option RedisReply := some { type := .array }

def deployment (workThreadNum : ℕ) : Server :=
  Server.start workThreadNum 10 60 [] fun _ => false

theorem deployment_started (n : ℕ) : (deployment n).Started := ⟨n, 10, 60, [], _, rfl⟩

/-- A connection is accepted by the main thread and set up by worker `w` at address `a`. -/
def connect (w : ℕ) (a : Addr) : List (Env × Event) :=
  [(plainEnv a, .acceptConn 5), (plainEnv a, .newConn w)]

/-- The connection at `a` of worker `w` logs in, is approved by redis and has no friends. -/
def login (w : ℕ) (a : Addr) (id : UInt8) : List (Env × Event) :=
  [(plainEnv a, .clientRead a (loginFrame id)), (plainEnv a, .redisReply w 0 tokenReply),
    (plainEnv a, .redisReply w 0 noFriends)]

/-- What a run of callbacks from a deployment ends in is reached. -/
theorem Server.exists_reached {σ : Type} (R : Runtime σ) (n : ℕ) (events : List (Env × Event))
    (ok : Server → Env × Event → Prop) (P : Server → Prop) [DecidablePred P]
    (hok : Transition.RunOk (step R) ok (deployment n) events)
    (hr : (Transition.run (step R) (deployment n) events).any (fun s => decide (P s)) = true) :
    ∃ s, Reached R ok s ∧ P s :=
  Transition.Reach.exists_of_run (deployment_started n) hok hr

end Deployment

end EglComet
