import EglComet.Protobuf.Messages
import EglComet.Protobuf.Shortcuts

/-!
The generated parsers of `comet.pb.cc` as they jump: for every message that the
server or one of its peers parses, what each `case` expects behind its field.
-/
namespace EglComet

open Protobuf

def s2cLogin : MessageType S2CLogin where
  empty := {}
  fields := [.int32 1 fun m v => { m with code := some v },
    singularString 2 S2CLogin.msg fun m b => { m with msg := b },
    .int32 3 fun m v => { m with pingTime := some v }]
  isInitialized m := m.code.isSome && m.pingTime.isSome

def onlineStatus : MessageType OnlineStatus where
  empty := {}
  fields := [repeatedString 1 OnlineStatus.id fun m b => { m with id := b },
    singularString 2 OnlineStatus.status fun m b => { m with status := b }]
  isInitialized _ := true

def c2sLoginEndings : List Ending := [⟨[(18, 2)], false⟩, ⟨[(26, 3)], false⟩, ⟨[], true⟩]

def s2cLoginEndings : List Ending := [⟨[(18, 2)], false⟩, ⟨[(24, 3)], false⟩, ⟨[], true⟩]

/-- Behind a repeated field its own tag is expected first. -/
def onlineStatusEndings : List Ending := [⟨[(10, 1), (18, 2)], false⟩, ⟨[], true⟩]

def reqCheckTokenByIDEndings : List Ending := [⟨[(18, 2)], false⟩, ⟨[], true⟩]

def rspCheckTokenByIDEndings : List Ending := [⟨[(18, 2)], false⟩, ⟨[], true⟩]

def reqCheckRelationByIDEndings : List Ending := [⟨[(16, 2)], false⟩, ⟨[], true⟩]

def rspCheckRelationByIDEndings : List Ending := [⟨[(18, 2)], false⟩, ⟨[], true⟩]

def reqPacketEndings : List Ending :=
  [⟨[(18, 2)], false⟩, ⟨[(26, 3)], false⟩, ⟨[(26, 3), (34, 4)], false⟩,
    ⟨[(34, 4), (40, 5)], false⟩, ⟨[(48, 6)], false⟩, ⟨[(56, 7)], false⟩, ⟨[(64, 8)], false⟩,
    ⟨[(72, 9)], false⟩, ⟨[(82, 10)], false⟩, ⟨[(90, 11)], false⟩, ⟨[], true⟩]

def rspPacketEndings : List Ending :=
  [⟨[(16, 2)], false⟩, ⟨[(26, 3)], false⟩, ⟨[(34, 4)], false⟩, ⟨[(34, 4), (42, 5)], false⟩,
    ⟨[(42, 5)], true⟩]

section Parse

variable {σ : Type} {R : Runtime σ} (S : Shortcuts R)

/-- On every input the generated parsers, with all their jumps, return the message and the verdict
of the loop that reads every tag. -/
theorem generated_parsers_agree (data : Bytes) :
    S.parseFromArray c2sLogin c2sLoginEndings data = c2sLogin.parseFromArray R data ∧
    S.parseFromArray s2cLogin s2cLoginEndings data = s2cLogin.parseFromArray R data ∧
    S.parseFromArray onlineStatus onlineStatusEndings data = onlineStatus.parseFromArray R data ∧
    S.parseFromArray reqCheckTokenByID reqCheckTokenByIDEndings data =
      reqCheckTokenByID.parseFromArray R data ∧
    S.parseFromArray rspCheckTokenByID rspCheckTokenByIDEndings data =
      rspCheckTokenByID.parseFromArray R data ∧
    S.parseFromArray reqCheckRelationByID reqCheckRelationByIDEndings data =
      reqCheckRelationByID.parseFromArray R data ∧
    S.parseFromArray rspCheckRelationByID rspCheckRelationByIDEndings data =
      rspCheckRelationByID.parseFromArray R data ∧
    S.parseFromArray reqPacket reqPacketEndings data = reqPacket.parseFromArray R data ∧
    S.parseFromArray rspPacket rspPacketEndings data = rspPacket.parseFromArray R data := by
  refine ⟨?_, ?_, ?_, ?_, ?_, ?_, ?_, ?_, ?_⟩ <;>
    exact S.parseFromArray_eq rfl (by decide) data

end Parse

end EglComet
