import EglComet.AnalyseReq.Encode
import EglComet.AnalyseReq.PostData
import EglComet.Library.Table
import Mathlib.Data.UInt
import Mathlib.Logic.Function.Basic

/-!
The state of the server: every worker with its two tables, its pipes and its
pending redis commands, the bufferevents alive in the process, and a history of
what the callbacks did. A bufferevent is known by its address, and an address
may be given out again once it has been freed; the number in a client's owner
tells two connections at one address apart and is read by no callback.
-/
namespace EglComet

open Protobuf MachineInt

/-- The address of a bufferevent. -/
abbrev Addr := ℕ

structure Subscriber where
  lastHeartbeatTime : ℤ := 0
  id : UInt64 := 0
  bev : Addr := 0
  deriving DecidableEq, Repr

/-- `update_heartbeat`; the clock is absent when `gettimeofday` fails. -/
def Subscriber.updateHeartbeat (now : Option ℤ) (sub : Subscriber) : Subscriber :=
  match now with
  | some t => { sub with lastHeartbeatTime := t }
  | none => sub

def Subscriber.setIdBev (now : Option ℤ) (id : UInt64) (bev : Addr) (sub : Subscriber) :
    Subscriber :=
  { sub with id, bev }.updateHeartbeat now

@[simp] theorem Subscriber.updateHeartbeat_bev (now : Option ℤ) (sub : Subscriber) :
    (sub.updateHeartbeat now).bev = sub.bev := by
  cases now <;> rfl

@[simp] theorem Subscriber.setIdBev_bev (now : Option ℤ) (id : UInt64) (bev : Addr)
    (sub : Subscriber) : (sub.setIdBev now id bev).bev = bev := by
  simp [Subscriber.setIdBev]

inductive ReplyType where
  | string | array | integer | nil | status | error
  deriving DecidableEq, Repr

/-- `redisReply`; a null string pointer is `none`. -/
structure RedisReply where
  type : ReplyType
  str : Option Bytes := none
  element : List (Option Bytes) := []
  deriving DecidableEq, Repr

/-- `OnlineInfo`, with the number of the connection that logged in as history. -/
structure OnlineInfo where
  id : UInt64
  bev : Addr
  workThread : ℕ
  conn : ℕ
  deriving DecidableEq, Repr

structure OfflineInfo where
  id : UInt64
  workThread : ℕ
  deriving DecidableEq, Repr

/-- A record with `msg_type` 0, as built from every relay frame. -/
structure Relay extends TransData where
  isTrans : msgType = .trans
  deriving DecidableEq, Repr

/-- A callback given to `redisAsyncCommand` together with its `privdata`. -/
inductive RedisCallback where
  | login (d : LoginData)
  | trans (d : Relay)
  | online (info : OnlineInfo)
  | offline (info : OfflineInfo)
  deriving DecidableEq, Repr

structure RedisCommand where
  text : String
  callback : RedisCallback
  deriving DecidableEq, Repr

/-- One worker. The two pipes hold what has been written and not yet read. -/
structure WorkThread where
  connNum : ℤ := 0
  pingTime : ℤ
  newConnFd : List ℤ := []
  newMsgFd : List TransData := []
  httpUrl : Bytes
  subMap : Table UInt64 Subscriber := ∅
  bevId : Table Addr UInt64 := ∅
  analyseReq : AnalyseReq
  redis : List RedisCommand := []
  stopped : Bool := false

/-- `2*_ping_time`, a product of two `int`s. -/
def WorkThread.timeout (t : WorkThread) : ℤ := wrap32 (2 * t.pingTime)

/-- Twice the ping time fits an `int`. -/
def WorkThread.TimeoutFits (t : WorkThread) : Prop :=
  -2 ^ 31 ≤ 2 * t.pingTime ∧ 2 * t.pingTime < 2 ^ 31

instance (t : WorkThread) : Decidable t.TimeoutFits := inferInstanceAs (Decidable (_ ∧ _))

theorem WorkThread.TimeoutFits.timeout_eq {t : WorkThread} (h : t.TimeoutFits) :
    t.timeout = 2 * t.pingTime := wrap32_of_range h.1 h.2

/-- What a bufferevent was created for; an HTTP check also records whether it has connected and
sent its request. -/
inductive Owner where
  | client (workThread conn : ℕ)
  | httpLogin (d : LoginData) (sent : Bool)
  | httpTrans (d : Relay) (sent : Bool)
  deriving DecidableEq, Repr

/-- The worker and the number of a client connection. -/
def Owner.connection : Owner → Option (ℕ × ℕ)
  | .client w conn => some (w, conn)
  | _ => none

/-- A bufferevent: bytes received and not yet consumed, and all bytes appended to its output. -/
structure BufferEvent where
  owner : Owner
  input : Bytes := []
  output : Bytes := []
  deriving DecidableEq, Repr

/-- The history: what the callbacks did, oldest first. -/
inductive Obs where
  | accepted (w : ℕ) (b : Addr) (conn : ℕ)
  | loginRead (w : ℕ) (b : Addr) (d : LoginData)
  | heartbeat (w : ℕ) (b : Addr) (id : UInt64)
  | relayRead (w : ℕ) (b : Addr) (loggedAs : UInt64) (d : Relay)
  | redisAnswer (w : ℕ) (cmd : RedisCommand) (reply : Option RedisReply)
  | relationRequest (d : Relay) (request : Bytes)
  | relationAnswer (d : Relay) (reply : Bytes) (accepted : Bool)
  | registered (w : ℕ) (b : Addr) (id : UInt64) (asker : ℕ) (occupant : Option ℕ)
  | friendList (w : ℕ) (b : Addr) (id : UInt64) (asker : ℕ) (occupant : Option ℕ)
  | enqueued (w : ℕ) (d : TransData)
  | closed (w : ℕ) (b : Addr) (conn : Option ℕ)
  | expired (w : ℕ) (b : Addr) (conn : Option ℕ) (id : UInt64)
  | freed (b : Addr) (live : Bool)
  | useAfterFree (b : Addr)
  | eraseEnd (w : ℕ) (id : UInt64)
  | deletedLogin (seq : ℕ)
  | deletedTrans (d : TransData)
  deriving DecidableEq, Repr

/-- Why bytes were appended to the output of a client: a heartbeat came back, a login was answered,
a record was forwarded, or the list of friends was shown. -/
inductive Source where
  | echo
  | loginRsp (d : LoginData) (isSuccess : Bool)
  | relay (d : TransData)
  | friends (info : OnlineInfo)
  deriving DecidableEq, Repr

/-- History: bytes that were appended to the output of a client connection. -/
structure Sent where
  conn : ℕ
  source : Source
  bytes : Bytes
  deriving DecidableEq, Repr

/-- The client connection at an address of a heap. -/
def clientIn (heap : Table Addr BufferEvent) (b : Addr) : Option (ℕ × ℕ) :=
  (heap.lookup b).bind fun be => be.owner.connection

structure Server where
  workThreadNum : ℕ
  maxNumPerThread : ℤ
  workThread : ℕ → WorkThread
  heap : Table Addr BufferEvent := ∅
  writes : ℕ := 0
  nextConn : ℕ := 0
  nextSeq : ℕ := 0
  log : List Obs := []
  sent : List Sent := []

/-- The outcome of one `write` of a pointer to a non-blocking message pipe. -/
inductive WriteResult where
  | full | again | error
  deriving DecidableEq, Repr

/-- The value `write` returns; `errno` is separate from it. -/
def WriteResult.value : WriteResult → ℤ
  | .full => 8
  | .again => -1
  | .error => -1

/-- The outcome of `bufferevent_socket_connect`: under way; failed at once, with the event callback
run before it returns -1; or without a socket or without its write event, in which case it returns
-1 and runs no callback. -/
inductive ConnectResult where
  | started | failed | noSocket
  deriving DecidableEq, Repr

/-- What the environment decides during one callback: where new bufferevents are placed, the
order in which a hash map is walked, the clock, the outcome of each pipe write, of a connect and of
an `evbuffer_add` to a new connection, and the contents of memory that is not initialised. -/
structure Env where
  alloc : Allocator BufferEvent
  order : Listing Addr UInt64
  now : Option ℤ
  write : ℕ → WriteResult
  connect : ConnectResult
  addOk : Bool
  mem : ℕ → UInt8

namespace Server

def emit (s : Server) (o : Obs) : Server := { s with log := s.log ++ [o] }

def modify (s : Server) (w : ℕ) (f : WorkThread → WorkThread) : Server :=
  { s with workThread := Function.update s.workThread w (f (s.workThread w)) }

def setHeap (s : Server) (heap : Table Addr BufferEvent) : Server := { s with heap }

/-- The worker and the number of the client connection at an address. -/
def client (s : Server) (b : Addr) : Option (ℕ × ℕ) := clientIn s.heap b

/-- The number of the client connection at an address. -/
def occupant (s : Server) (b : Addr) : Option ℕ := (s.client b).map Prod.snd

def bufferEventFree (s : Server) (b : Addr) : Server :=
  (s.emit (.freed b (decide (b ∈ s.heap)))).setHeap (s.heap.erase b)

/-- The history of the bytes appended to the output of a bufferevent, if a client owns it. -/
def recordSent (s : Server) (o : Owner) (source : Source) (bytes : Bytes) : Server :=
  match o.connection with
  | some c => { s with sent := s.sent ++ [⟨c.2, source, bytes⟩] }
  | none => s

/-- `evbuffer_add` to the output of the bufferevent at an address. -/
def addOutput (s : Server) (b : Addr) (source : Source) (bs : Bytes) : Server :=
  match s.heap.lookup b with
  | some be =>
    (s.setHeap (s.heap.insert b { be with output := be.output ++ bs })).recordSent
      be.owner source bs
  | none => s.emit (.useAfterFree b)

def redisAsyncCommand (s : Server) (w : ℕ) (cmd : RedisCommand) : Server :=
  s.modify w fun t => { t with redis := t.redis ++ [cmd] }

def setAnalyseReq (s : Server) (w : ℕ) (a : AnalyseReq) : Server :=
  s.modify w fun t => { t with analyseReq := a }

def deleteLogin (s : Server) (d : LoginData) : Server := s.emit (.deletedLogin d.seq)

def deleteTrans (s : Server) (d : TransData) : Server := s.emit (.deletedTrans d)

end Server

/-- An id as `%ld` prints it. -/
def signed (id : UInt64) : ℤ := if id.toNat < 2 ^ 63 then id.toNat else id.toNat - 2 ^ 64

def tokenCommand (d : LoginData) : RedisCommand where
  text := "GET sToken:" ++ toString (signed (d.id &&& 0x0000FFFFFFFFFFFF))
  callback := .login d

def relationCommand (d : Relay) : RedisCommand where
  text := "ZSCORE ssUD:" ++ toString (signed d.fromId) ++ " " ++ toString (signed d.toId)
  callback := .trans d

def friendsCommand (id : UInt64) (callback : RedisCallback) : RedisCommand where
  text := "ZRANGE ssUD:" ++ toString (signed id) ++ " 0 -1"
  callback := callback

@[simp] theorem callback_tokenCommand (d : LoginData) : (tokenCommand d).callback = .login d := rfl

@[simp] theorem callback_relationCommand (d : Relay) : (relationCommand d).callback = .trans d :=
  rfl

@[simp] theorem callback_friendsCommand (id : UInt64) (callback : RedisCallback) :
    (friendsCommand id callback).callback = callback := rfl

end EglComet
