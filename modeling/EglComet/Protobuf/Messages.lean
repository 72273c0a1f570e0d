import EglComet.Protobuf.Runtime

/-!
The messages of `comet.proto` the server reads or writes, as the generated code
keeps them: a has-bit is an `Option`, a repeated field a list. Parsers are field
tables; serializers write the present fields in field order.
-/
namespace EglComet

open Protobuf

/-- `optional` or `required` string: `mutable_x` sets the has-bit before the bytes are read. -/
def singularString {M : Type} (number : ℕ) (get : M → Option Bytes)
    (set : M → Option Bytes → M) : Protobuf.Field M :=
  .string number (fun m => set m (some ((get m).getD []))) (fun m => (get m).getD [])
    (fun m b => set m (some b))

/-- `repeated` string or bytes: `add_x` appends an empty entry before its bytes are read. -/
def repeatedString {M : Type} (number : ℕ) (get : M → List Bytes)
    (set : M → List Bytes → M) : Protobuf.Field M :=
  .string number (fun m => set m (get m ++ [[]])) (fun m => (get m).getLastD [])
    (fun m b => set m ((get m).dropLast ++ [b]))

structure RspPacket where
  mask : Option ℤ := none
  rescode : Option ℤ := none
  resmsg : Option Bytes := none
  action : List Bytes := []
  params : List Bytes := []
  deriving DecidableEq, Repr

def rspPacket : MessageType RspPacket where
  empty := {}
  fields := [.int32 1 fun m v => { m with mask := some v },
    .int32 2 fun m v => { m with rescode := some v },
    singularString 3 RspPacket.resmsg fun m b => { m with resmsg := b },
    repeatedString 4 RspPacket.action fun m b => { m with action := b },
    repeatedString 5 RspPacket.params fun m b => { m with params := b }]
  isInitialized m := m.mask.isSome && m.rescode.isSome && m.resmsg.isSome

/-- The common shape of `RspCheckTokenByID` and `RspCheckRelationByID`. -/
structure RspCheck where
  rescode : Option ℤ := none
  resmsg : Option Bytes := none
  deriving DecidableEq, Repr

def rspCheck : MessageType RspCheck where
  empty := {}
  fields := [.int32 1 fun m v => { m with rescode := some v },
    singularString 2 RspCheck.resmsg fun m b => { m with resmsg := b }]
  isInitialized m := m.rescode.isSome && m.resmsg.isSome

def rspCheckTokenByID : MessageType RspCheck := rspCheck

def rspCheckRelationByID : MessageType RspCheck := rspCheck

structure C2SLogin where
  id : Option ℤ := none
  token : Option Bytes := none
  userAgent : Option Bytes := none
  deriving DecidableEq, Repr

def c2sLogin : MessageType C2SLogin where
  empty := {}
  fields := [.int64 1 fun m v => { m with id := some v },
    singularString 2 C2SLogin.token fun m b => { m with token := b },
    singularString 3 C2SLogin.userAgent fun m b => { m with userAgent := b }]
  isInitialized m := m.id.isSome && m.token.isSome

structure S2CLogin where
  code : Option ℤ := none
  msg : Option Bytes := none
  pingTime : Option ℤ := none
  deriving DecidableEq, Repr

structure OnlineStatus where
  id : List Bytes := []
  status : Option Bytes := none
  deriving DecidableEq, Repr

structure ReqCheckTokenByID where
  id : Option ℤ := none
  token : Option Bytes := none
  deriving DecidableEq, Repr

def reqCheckTokenByID : MessageType ReqCheckTokenByID where
  empty := {}
  fields := [.int64 1 fun m v => { m with id := some v },
    singularString 2 ReqCheckTokenByID.token fun m b => { m with token := b }]
  isInitialized m := m.id.isSome && m.token.isSome

structure ReqCheckRelationByID where
  fromID : Option ℤ := none
  toID : Option ℤ := none
  deriving DecidableEq, Repr

def reqCheckRelationByID : MessageType ReqCheckRelationByID where
  empty := {}
  fields := [.int64 1 fun m v => { m with fromID := some v },
    .int64 2 fun m v => { m with toID := some v }]
  isInitialized m := m.fromID.isSome && m.toID.isSome

structure ReqPacket where
  mask : Option ℤ := none
  udi : Option Bytes := none
  action : List Bytes := []
  params : List Bytes := []
  reqNo : Option ℤ := none
  chnNo : Option ℤ := none
  chnPos : Option ℤ := none
  clientId : Option ℤ := none
  clientPos : Option ℤ := none
  clientVer : Option Bytes := none
  rsaKeyVer : Option Bytes := none
  deriving DecidableEq, Repr

def reqPacket : MessageType ReqPacket where
  empty := {}
  fields := [.int32 1 fun m v => { m with mask := some v },
    singularString 2 ReqPacket.udi fun m b => { m with udi := b },
    repeatedString 3 ReqPacket.action fun m b => { m with action := b },
    repeatedString 4 ReqPacket.params fun m b => { m with params := b },
    .int32 5 fun m v => { m with reqNo := some v },
    .int32 6 fun m v => { m with chnNo := some v },
    .int32 7 fun m v => { m with chnPos := some v },
    .int32 8 fun m v => { m with clientId := some v },
    .int32 9 fun m v => { m with clientPos := some v },
    singularString 10 ReqPacket.clientVer fun m b => { m with clientVer := b },
    singularString 11 ReqPacket.rsaKeyVer fun m b => { m with rsaKeyVer := b }]
  isInitialized m := m.mask.isSome && m.udi.isSome && m.reqNo.isSome && m.clientId.isSome

section Serialize

variable {σ : Type} (R : Runtime σ)

def optInt32 (number : ℕ) (v : Option ℤ) : Bytes := (v.map (R.writeInt32 number)).getD []

def optInt64 (number : ℕ) (v : Option ℤ) : Bytes := (v.map (R.writeInt64 number)).getD []

def optString (number : ℕ) (b : Option Bytes) : Bytes := (b.map (R.writeString number)).getD []

def repString (number : ℕ) (bs : List Bytes) : Bytes := (bs.map (R.writeString number)).flatten

theorem repString_cons (number : ℕ) (b : Bytes) (bs : List Bytes) :
    repString R number (b :: bs) = R.writeString number b ++ repString R number bs := rfl

def S2CLogin.serialize (m : S2CLogin) : Bytes :=
  optInt32 R 1 m.code ++ optString R 2 m.msg ++ optInt32 R 3 m.pingTime

def OnlineStatus.serialize (m : OnlineStatus) : Bytes :=
  repString R 1 m.id ++ optString R 2 m.status

def ReqCheckTokenByID.serialize (m : ReqCheckTokenByID) : Bytes :=
  optInt64 R 1 m.id ++ optString R 2 m.token

def ReqCheckRelationByID.serialize (m : ReqCheckRelationByID) : Bytes :=
  optInt64 R 1 m.fromID ++ optInt64 R 2 m.toID

def ReqPacket.serialize (m : ReqPacket) : Bytes :=
  optInt32 R 1 m.mask ++ optString R 2 m.udi ++ repString R 3 m.action ++ repString R 4 m.params ++
    optInt32 R 5 m.reqNo ++ optInt32 R 6 m.chnNo ++ optInt32 R 7 m.chnPos ++
    optInt32 R 8 m.clientId ++ optInt32 R 9 m.clientPos ++ optString R 10 m.clientVer ++
    optString R 11 m.rsaKeyVer

def RspPacket.serialize (m : RspPacket) : Bytes :=
  optInt32 R 1 m.mask ++ optInt32 R 2 m.rescode ++ optString R 3 m.resmsg ++
    repString R 4 m.action ++ repString R 5 m.params

/-- `SerializeWithCachedSizes` of `RspCheckTokenByID` and of `RspCheckRelationByID`. -/
def RspCheck.serialize (m : RspCheck) : Bytes :=
  optInt32 R 1 m.rescode ++ optString R 2 m.resmsg

/-- The clients of the server write `C2SLogin`. -/
def C2SLogin.serialize (m : C2SLogin) : Bytes :=
  optInt64 R 1 m.id ++ optString R 2 m.token ++ optString R 3 m.userAgent

end Serialize

end EglComet
