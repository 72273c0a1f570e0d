import EglComet.Protobuf.Messages

/-!
The records `AnalyseReq` hands out and the parser object itself. Every worker
owns one `AnalyseReq`; its message objects are reused from call to call.
-/
namespace EglComet

open Protobuf

/-- `LoginData`. The last two fields are history: the number of the connection whose frame it
was read from, and a serial number of the request. -/
structure LoginData where
  id : UInt64
  token : Bytes
  workThread : ℕ := 0
  bev : ℕ := 0
  conn : ℕ := 0
  seq : ℕ := 0
  deriving DecidableEq, Repr

/-- `msg_type`: 0 forwards the data, 1 deletes the logged-in `to_id`. -/
inductive MsgType where
  | trans | delId
  deriving DecidableEq, Repr

/-- History: whether a record was read from a client or built by the server. -/
inductive Origin where
  | client | server
  deriving DecidableEq, Repr

/-- `TransData` with the bytes that follow its header; `seq` and `origin` are history. -/
structure TransData where
  fromId : UInt64 := 0
  toId : UInt64
  workThread : ℕ := 0
  msgType : MsgType := .trans
  dataSize : ℤ := 0
  data : Bytes := []
  seq : ℕ := 0
  origin : Origin := .client
  deriving DecidableEq, Repr

structure AnalyseReq where
  isHeart : Bool
  loginData : Option LoginData := none
  transData : Option TransData := none
  reqLogin : C2SLogin := {}
  rspLogin : S2CLogin := {}
  req : ReqPacket := {}
  rsp : RspPacket := {}
  checkIdReq : ReqCheckTokenByID := {}
  checkIdRsp : RspCheck := {}
  checkRelationReq : ReqCheckRelationByID := {}
  checkRelationRsp : RspCheck := {}
  serializeStr : Bytes := []
  deriving DecidableEq, Repr

/-- The constructor: both pending pointers are null, `_is_heart` is not initialised. -/
def AnalyseReq.new (isHeart : Bool) : AnalyseReq := { isHeart }

/-- What a call of `analyse_data` leaves for its caller: `_is_heart` and the two pointers. -/
def AnalyseReq.pending (a : AnalyseReq) : Bool × Option LoginData × Option TransData :=
  (a.isHeart, a.loginData, a.transData)

end EglComet
