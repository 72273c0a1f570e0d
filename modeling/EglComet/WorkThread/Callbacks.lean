import EglComet.WorkThread.State

/-!
The callbacks of a worker, each one atomic step of its event loop. A callback
that would dereference a null pointer ends the process and has no result.
-/
namespace EglComet

open Protobuf

theorem WriteResult.value_ne_eagain (r : WriteResult) : r.value ≠ 11 := by
  cases r <;> decide

/-- The loop `do res = write(..) while (res == EAGAIN)` from the `n`-th write on. It compares the
returned value, not `errno`, with `EAGAIN`, and so never repeats. -/
def writeRetry (write : ℕ → WriteResult) (n : ℕ) : ℤ × ℕ :=
  if h : (write n).value = 11 then writeRetry write (n + 1) else ((write n).value, n + 1)
termination_by 0
decreasing_by exact absurd h (write n).value_ne_eagain

theorem writeRetry_eq (write : ℕ → WriteResult) (n : ℕ) :
    writeRetry write n = ((write n).value, n + 1) := by
  rw [writeRetry, dif_neg (write n).value_ne_eagain]

def isSpace (c : UInt8) : Bool := c == 32 || (9 ≤ c && c ≤ 13)

def isDigit (c : UInt8) : Bool := 48 ≤ c && c ≤ 57

/-- `atoll`, with the result converted to `uint64_t`; out of range values saturate. -/
def atoll (str : Bytes) : UInt64 :=
  let str := (cstr str).dropWhile isSpace
  let neg := str.head? == some 45
  let str := if neg || str.head? == some 43 then str.tail else str
  let n : ℤ := (str.takeWhile isDigit).foldl (fun n c => n * 10 + (c.toNat - 48)) 0
  let n := if neg then max (-2 ^ 63) (-n) else min (2 ^ 63 - 1) n
  UInt64.ofNat (n % 2 ^ 64).toNat

/-- The mask of the ids whose messages are forwarded without a relation check. -/
def wideId (id : UInt64) : Bool := id &&& 0xFFFF000000000000 ≠ 0

/-- `BEV_EVENT_*` bits. -/
structure Flags where
  eof : Bool := false
  error : Bool := false
  connected : Bool := false
  deriving DecidableEq, Repr

namespace Server

/-- `check_id_is_online` of worker `j`. -/
def checkIdIsOnline (s : Server) (j : ℕ) (id : UInt64) : Bool :=
  decide (id ∈ (s.workThread j).subMap)

/-- `notify_new_msg` of worker `j`. -/
def notifyNewMsg (env : Env) (s : Server) (j : ℕ) (d : TransData) : Bool × Server :=
  if d.toId ∈ (s.workThread j).subMap then
    let r := writeRetry env.write s.writes
    let s := { s with writes := r.2 }
    if r.1 = 8 then
      (true, (s.modify j fun t => { t with newMsgFd := t.newMsgFd ++ [d] }).emit (.enqueued j d))
    else (false, s)
  else (false, s)

/-- `notify_del_id` of worker `j`. -/
def notifyDelId (env : Env) (id : UInt64) (s : Server) (j : ℕ) : Server :=
  if id ∈ (s.workThread j).subMap then
    let d : TransData := { toId := id, msgType := .delId, seq := s.nextSeq, origin := .server }
    let r := notifyNewMsg env { s with nextSeq := s.nextSeq + 1 } j d
    if r.1 then r.2 else r.2.deleteTrans d
  else s

/-- Offer a record to the listed workers until one takes it. -/
def offer (env : Env) (d : TransData) : List ℕ → Server → Bool × Server
  | [], s => (false, s)
  | j :: js, s =>
    let r := notifyNewMsg env s j d
    if r.1 then (true, r.2) else offer env d js r.2

def sendMessage (env : Env) (s : Server) (d : TransData) : Bool × Server :=
  offer env d (List.range s.workThreadNum) s

/-- `send_message` or the same loop written out, with the record deleted when nobody took it. -/
def transmit (env : Env) (s : Server) (d : TransData) : Server :=
  let r := sendMessage env s d
  if r.1 then r.2 else r.2.deleteTrans d

/-- A login frame was read from connection `conn` at `b`: ask redis for the token. -/
def startLogin (w : ℕ) (b : Addr) (conn : ℕ) (s : Server) : Option LoginData → Server
  | some d =>
    let d := { d with workThread := w, bev := b, conn, seq := s.nextSeq }
    ({ s with nextSeq := s.nextSeq + 1 }.redisAsyncCommand w (tokenCommand d)).emit
      (.loginRead w b d)
  | none => s

def refreshHeartbeat (env : Env) (w : ℕ) (b : Addr) (id : UInt64) (s : Server) (isHeart : Bool) :
    Server :=
  if isHeart && id ≠ 0 then
    match (s.workThread w).subMap.lookup id with
    | some sub =>
      (s.modify w fun t =>
        { t with subMap := t.subMap.insert id (sub.updateHeartbeat env.now) }).emit
          (.heartbeat w b id)
    | none => s
  else s

/-- A relay frame was read. The test uses the `id` that `_bev_id` had for the connection when the
callback started; the history records what the table says now. -/
def startTrans (env : Env) (w : ℕ) (b : Addr) (id : UInt64) (s : Server) :
    Option TransData → Server
  | some d =>
    let d : Relay :=
      { d with
        msgType := .trans, workThread := w, seq := s.nextSeq, origin := .client, isTrans := rfl }
    let loggedAs := ((s.workThread w).bevId.lookup b).getD 0
    let s := { s with nextSeq := s.nextSeq + 1 }.emit (.relayRead w b loggedAs d)
    if id ≠ 0 ∧ id = d.fromId then
      if wideId id || wideId d.toId then s.transmit env d.toTransData
      else s.redisAsyncCommand w (relationCommand d)
    else s.deleteTrans d.toTransData
  | none => s

/-- One turn of the loop in `bufferevent_read_callback`: what follows a successful call of
`analyse_data` on a connection that was logged in as `id` when the callback started. -/
def handleRequest (env : Env) (w : ℕ) (b : Addr) (conn : ℕ) (id : UInt64) (s : Server)
    (r : Analysed) : Server :=
  startTrans env w b id
    (refreshHeartbeat env w b id (startLogin w b conn s r.req.loginData) r.req.isHeart)
    r.req.transData

section Parsing

variable {σ : Type} (R : Runtime σ)

def bufferEventReadCallback (env : Env) (s : Server) (w conn : ℕ) (b : Addr) (be : BufferEvent) :
    Option Server :=
  let id := ((s.workThread w).bevId.lookup b).getD 0
  (readLoop R env.mem (fun s _ _ r => handleRequest env w b conn id s r) s
    (s.workThread w).analyseReq be.input be.output).map fun r =>
      ((r.1.setAnalyseReq w r.2.1).setHeap
        (r.1.heap.insert b { be with input := r.2.2.1, output := r.2.2.2 })).recordSent be.owner
          .echo (r.2.2.2.drop be.output.length)

end Parsing

/-- The lookup that starts a round of offline notices. -/
def requestOffline (s : Server) (w : ℕ) (id : UInt64) : Server :=
  if id ≠ 0 then s.redisAsyncCommand w (friendsCommand id (.offline ⟨id, w⟩)) else s

def bufferEventEventCallback (s : Server) (w : ℕ) (b : Addr) (flags : Flags) : Server :=
  if flags.eof || flags.error then
    let id := ((s.workThread w).bevId.lookup b).getD 0
    let s := s.emit (.closed w b (s.occupant b))
    let s :=
      if b ∈ (s.workThread w).bevId then
        s.modify w fun t => { t with subMap := t.subMap.erase id, bevId := t.bevId.erase b }
      else s
    let s := s.modify w fun t => { t with connNum := t.connNum - 1 }
    (s.bufferEventFree b).requestOffline w id
  else s

/-- One turn of the loop of `del_expire_client`, at the entry of `_bev_id` with key `b`. -/
def expireEntry (w : ℕ) (t : ℤ) (s : Server) (b : Addr) : Server :=
  match (s.workThread w).bevId.lookup b with
  | none => s
  | some id =>
    match (s.workThread w).subMap.lookup id with
    | none => s
    | some sub =>
      if t - sub.lastHeartbeatTime > (s.workThread w).timeout then
        let s := (s.emit (.expired w b (s.occupant b) id)).bufferEventFree b
        let s := s.modify w fun t =>
          { t with
            bevId := t.bevId.erase b, connNum := t.connNum - 1, subMap := t.subMap.erase id }
        s.requestOffline w id
      else s

/-- `del_expire_client`: the table is walked once, in the order of the environment. -/
def delExpireClient (env : Env) (s : Server) (w : ℕ) : Server :=
  match env.now with
  | none => s
  | some t => (env.order.toList (s.workThread w).bevId).foldl (expireEntry w t) s

/-- A descriptor read from the pipe: a new bufferevent enters the table under id 0. -/
def newConnection (env : Env) (s : Server) (w : ℕ) : Server :=
  let b := env.alloc.next s.heap
  let conn := s.nextConn
  let s := { s with nextConn := conn + 1 }.setHeap (s.heap.insert b { owner := .client w conn })
  (s.modify w fun t =>
    { t with bevId := Table.insertNew b 0 t.bevId, connNum := t.connNum + 1 }).emit
      (.accepted w b conn)

/-- The loop of `notify_new_conn_callback` over what the pipe holds, with `i` items handled. The
eleventh item has been read when the count is tested. -/
def newConnLoop (env : Env) (w : ℕ) : ℕ → List ℤ → Server → Server
  | _, [], s => s
  | i, data :: rest, s =>
    let s := s.modify w fun t => { t with newConnFd := rest }
    if i < 10 then
      if data > 0 then newConnLoop env w (i + 1) rest (s.newConnection env w)
      else if data = -1 then s.modify w fun t => { t with stopped := true }
      else if data = -2 then newConnLoop env w (i + 1) rest (s.delExpireClient env w)
      else newConnLoop env w (i + 1) rest s
    else s

def notifyNewConnCallback (env : Env) (s : Server) (w : ℕ) : Server :=
  newConnLoop env w 0 (s.workThread w).newConnFd s

/-- The body of `notify_new_msg_callback` for one record. In the deleting branch the entry of
`_bev_id` is erased through the iterator even when the lookup returned `end()`. The `data_size` of
the source is the length of `data`: `analyse_pack` builds no record of negative size. -/
def handleMsg (w : ℕ) (s : Server) (d : TransData) : Server :=
  let s := match d.msgType with
    | .trans =>
      match (s.workThread w).subMap.lookup d.toId with
      | some sub => s.addOutput sub.bev (.relay d) (d.data.take d.dataSize.toNat)
      | none => s
    | .delId =>
      match (s.workThread w).subMap.lookup d.toId with
      | some sub =>
        let s :=
          if sub.bev ∈ (s.workThread w).bevId then s.bufferEventFree sub.bev
          else s.emit (.eraseEnd w d.toId)
        s.modify w fun t =>
          { t with bevId := t.bevId.erase sub.bev, subMap := t.subMap.erase d.toId }
      | none => s
  s.deleteTrans d

/-- The loop of `notify_new_msg_callback` over what the pipe holds. -/
def newMsgLoop (w : ℕ) : List TransData → Server → Server
  | [], s => s
  | d :: ds, s => newMsgLoop w ds (handleMsg w (s.modify w fun t => { t with newMsgFd := ds }) d)

def notifyNewMsgCallback (s : Server) (w : ℕ) : Server :=
  newMsgLoop w (s.workThread w).newMsgFd s

/-- Remove the session of `id` on worker `w`, freeing its connection if it is still known. -/
def kick (s : Server) (w : ℕ) (id : UInt64) : Server :=
  match (s.workThread w).subMap.lookup id with
  | none => s
  | some sub =>
    let s :=
      if sub.bev ∈ (s.workThread w).bevId then
        (s.bufferEventFree sub.bev).modify w fun t => { t with bevId := t.bevId.erase sub.bev }
      else s
    s.modify w fun t => { t with subMap := t.subMap.erase id }

section Parsing

variable {σ : Type} (R : Runtime σ)

/-- Send a login reply to the connection of a request. -/
def replyLogin (env : Env) (s : Server) (d : LoginData) (isSuccess : Bool) (msg : String) :
    Server :=
  let t := s.workThread d.workThread
  let r := getLoginRsp R t.analyseReq isSuccess (ascii msg) t.pingTime env.mem
  (s.setAnalyseReq d.workThread r.2).addOutput d.bev (.loginRsp d isSuccess) r.1

/-- The assignment to `_bev_id` and the insertion into `_sub_map` of a successful login, with the
lookup of the friends. -/
def bindLogin (env : Env) (s : Server) (d : LoginData) : Server :=
  let w := d.workThread
  let s := s.emit (.registered w d.bev d.id d.conn (s.occupant d.bev))
  let s := s.modify w fun t =>
    { t with
      bevId := t.bevId.insert d.bev d.id
      subMap := Table.insertNew d.id (({} : Subscriber).setIdBev env.now d.id d.bev) t.subMap }
  s.redisAsyncCommand w (friendsCommand d.id (.online ⟨d.id, d.bev, w, d.conn⟩))

/-- A successful login: the session already on this worker is removed, the listed workers are told
to delete theirs, and the connection is registered and answered. -/
def registerLogin (env : Env) (s : Server) (d : LoginData) (told : List ℕ) : Server :=
  let s := told.foldl (notifyDelId env d.id) (s.kick d.workThread d.id)
  (s.bindLogin env d).replyLogin R env d true "200 ok"

/-- `http_login_event`. The first lookup is by the id, not by the connection. -/
def httpLoginEvent (env : Env) (s : Server) (h : Addr) (d : LoginData) (flags : Flags) : Server :=
  let w := d.workThread
  if flags.eof || flags.error then
    let s :=
      if d.id.toNat ∈ (s.workThread w).bevId then s.replyLogin R env d false "http server error"
      else s
    (s.deleteLogin d).bufferEventFree h
  else if flags.connected then
    let t := s.workThread w
    let r := getLoginPostData R t.analyseReq (signed d.id) d.token t.httpUrl
    let s := s.setAnalyseReq w r.2
    if env.addOk then
      match s.heap.lookup h with
      | some be =>
        s.setHeap (s.heap.insert h
          { be with owner := .httpLogin d true, output := be.output ++ r.1 })
      | none => s.emit (.useAfterFree h)
    else (s.bufferEventFree h).deleteLogin d
  else s

/-- `http_login_check` and the `delete` its caller makes when it fails. -/
def httpLoginCheck (env : Env) (s : Server) (d : LoginData) : Server :=
  let h := env.alloc.next s.heap
  let s := s.setHeap (s.heap.insert h { owner := .httpLogin d false })
  match env.connect with
  | .started => s
  | .failed => ((s.httpLoginEvent R env h d { error := true }).bufferEventFree h).deleteLogin d
  | .noSocket => (s.bufferEventFree h).deleteLogin d

/-- `redis_login_callback`. -/
def redisLoginCallback (env : Env) (s : Server) (d : LoginData) (reply : Option RedisReply) :
    Server :=
  let w := d.workThread
  if d.bev ∈ (s.workThread w).bevId then
    match reply.bind RedisReply.str with
    | none => s.httpLoginCheck R env d
    | some str =>
      if cstr d.token = cstr str then
        if ((s.workThread w).subMap.lookup d.id).map Subscriber.bev = some d.bev then
          s.deleteLogin d
        else
          (s.registerLogin R env d ((List.range s.workThreadNum).filter (· ≠ w))).deleteLogin d
      else (s.replyLogin R env d false "wrong id or token").deleteLogin d
  else s.deleteLogin d

/-- `http_login_read` on the bytes received so far. -/
def httpLoginRead (env : Env) (s : Server) (h : Addr) (d : LoginData) (data : Bytes) : Server :=
  let w := d.workThread
  let s :=
    if d.bev ∈ (s.workThread w).bevId then
      let r := analyseLoginData R (s.workThread w).analyseReq data
      let s := s.setAnalyseReq w r.2
      if r.1 then s.registerLogin R env d (List.range s.workThreadNum)
      else s.replyLogin R env d false "wrong id or token"
    else s
  (s.bufferEventFree h).deleteLogin d

def httpTransEvent (env : Env) (s : Server) (h : Addr) (d : Relay) (flags : Flags) : Server :=
  let w := d.workThread
  if flags.eof || flags.error then (s.deleteTrans d.toTransData).bufferEventFree h
  else if flags.connected then
    let t := s.workThread w
    let r := getRelationPostData R t.analyseReq (signed d.fromId) (signed d.toId) t.httpUrl
    let s := s.setAnalyseReq w r.2
    if env.addOk then
      match s.heap.lookup h with
      | some be =>
        (s.emit (.relationRequest d r.1)).setHeap (s.heap.insert h
          { be with owner := .httpTrans d true, output := be.output ++ r.1 })
      | none => s.emit (.useAfterFree h)
    else (s.bufferEventFree h).deleteTrans d.toTransData
  else s

/-- `http_trans_check` and the `delete` its caller makes when it fails. -/
def httpTransCheck (env : Env) (s : Server) (d : Relay) : Server :=
  let h := env.alloc.next s.heap
  let s := s.setHeap (s.heap.insert h { owner := .httpTrans d false })
  match env.connect with
  | .started => s
  | .failed =>
    ((s.httpTransEvent R env h d { error := true }).bufferEventFree h).deleteTrans d.toTransData
  | .noSocket => (s.bufferEventFree h).deleteTrans d.toTransData

/-- `redis_trans_callback`; the reply is dereferenced without a test. -/
def redisTransCallback (env : Env) (s : Server) (d : Relay) (reply : Option RedisReply) :
    Option Server :=
  reply.map fun r =>
    if r.type ≠ .string then s.httpTransCheck R env d else s.transmit env d.toTransData

def httpTransRead (env : Env) (s : Server) (h : Addr) (d : Relay) (data : Bytes) : Server :=
  let w := d.workThread
  let r := analyseRelationData R (s.workThread w).analyseReq data
  let s := (s.setAnalyseReq w r.2).emit (.relationAnswer d data r.1)
  let s := if r.1 then s.transmit env d.toTransData else s.deleteTrans d.toTransData
  s.bufferEventFree h

/-- The frame of a presence notice about one id. -/
def presenceFrame (env : Env) (id : UInt64) (status : UInt8) : Bytes :=
  let m : OnlineStatus := { id := [ascii (toString (signed id))], status := some [status] }
  packData (m.serialize R) 12 env.mem

/-- Send a presence notice to one friend: the lowest-numbered worker that has the friend gets it.
The result says whether there was one and whether the record was handed over. -/
def notifyFriend (env : Env) (id : UInt64) (frame : Bytes) (s : Server) (toId : UInt64) :
    Option (TransData × Bool × Server) :=
  ((List.range s.workThreadNum).find? fun j => s.checkIdIsOnline j toId).map fun j =>
    let d : TransData :=
      { fromId := id, toId, dataSize := frame.length, data := frame, seq := s.nextSeq,
        origin := .server }
    (d, notifyNewMsg env { s with nextSeq := s.nextSeq + 1 } j d)

/-- One turn of the loop of `redis_online_notify`, with the status bytes collected so far. -/
def onlineFriend (env : Env) (id : UInt64) (frame : Bytes) (acc : Server × Bytes) (str : Bytes) :
    Server × Bytes :=
  match notifyFriend env id frame acc.1 (atoll str) with
  | some (d, sent, s) => (if sent then s else s.deleteTrans d, acc.2 ++ [1])
  | none => (acc.1, acc.2 ++ [0])

/-- One turn of the loop of `redis_offline_notify`. -/
def offlineFriend (env : Env) (id : UInt64) (frame : Bytes) (s : Server) (str : Bytes) : Server :=
  match notifyFriend env id frame s (atoll str) with
  | some (_, _, s) => s
  | none => s

/-- The elements of a reply, empty unless it is an array. -/
def elements (reply : Option RedisReply) : List (Option Bytes) :=
  match reply with
  | some r => if r.type = .array then r.element else []
  | none => []

/-- `redis_online_notify`; the strings of the elements are dereferenced without a test. -/
def redisOnlineNotify (env : Env) (s : Server) (info : OnlineInfo) (reply : Option RedisReply) :
    Option Server :=
  if elements reply ≠ [] ∧ info.bev ∈ (s.workThread info.workThread).bevId then
    ((elements reply).mapM id).map fun strs =>
      let r := strs.foldl (onlineFriend env info.id (presenceFrame R env info.id 1)) (s, [])
      let m : OnlineStatus := { id := strs.map cstr, status := some r.2 }
      (r.1.emit (.friendList info.workThread info.bev info.id info.conn
        (r.1.occupant info.bev))).addOutput info.bev (.friends info)
          (packData (m.serialize R) 12 env.mem)
  else some s

def redisOfflineNotify (env : Env) (s : Server) (info : OfflineInfo) (reply : Option RedisReply) :
    Option Server :=
  ((elements reply).mapM id).map fun strs =>
    strs.foldl (offlineFriend env info.id (presenceFrame R env info.id 0)) s

end Parsing

end Server

end EglComet
