import EglComet.AnalyseReq.RoundTrip
import EglComet.Protobuf.Serialized

/-!
The clients under `test_script`. A thread of `send.cc` or `receive.cc` holds many
connections: each logs in when it is connected, timers send heartbeats and songs
on all of them, and the read callback shows what the server sends. The clients
count on a 20-byte header and a 16-bit length field.
-/
namespace EglComet

open Protobuf MachineInt

structure Song where
  songId : Option Bytes := none
  songName : Option Bytes := none
  source : Option ℤ := none
  singers : Option Bytes := none
  picUrl : Option Bytes := none
  deriving DecidableEq, Repr

def song : MessageType Song where
  empty := {}
  fields := [singularString 1 Song.songId fun m b => { m with songId := b },
    singularString 2 Song.songName fun m b => { m with songName := b },
    .int32 3 fun m v => { m with source := some v },
    singularString 4 Song.singers fun m b => { m with singers := b },
    singularString 5 Song.picUrl fun m b => { m with picUrl := b }]
  isInitialized m := m.songId.isSome && m.songName.isSome && m.source.isSome

def Song.serialize {σ : Type} (R : Runtime σ) (m : Song) : Bytes :=
  optString R 1 m.songId ++ optString R 2 m.songName ++ optInt32 R 3 m.source ++
    optString R 4 m.singers ++ optString R 5 m.picUrl

/-- The payload of an encoded frame in the short form. -/
theorem drop_frameOf_short (ttl : UInt8) (propertyId : ℕ) {src : Bytes} (h : src.length ≤ 0xFF00) :
    (frameOf ttl propertyId src).drop 25 = src := by
  have hd := drop_frameOf ttl propertyId src [] 2
  simp only [List.append_nil] at hd
  rw [hd, lengthField, if_neg (by omega)]
  rfl

namespace Client

/-- An id as the `int64_t` it is passed and printed as. -/
def signedId (id : UInt64) : ℤ := Int.bmod id.toNat (2 ^ 64)

/-- The bytes of an id, the highest first. -/
def netId (id : UInt64) : Bytes :=
  (List.range 8).map fun i => UInt8.ofNat (id.toNat / 256 ^ (7 - i))

/-- `heart_bag`. -/
def heartBag : Bytes := [0x11, 0x20, 0x00, 0x00]

section Writing

variable {σ : Type} (R : Runtime σ)

/-- The serialized `C2SLogin` of a client. -/
def loginRequest (id : UInt64) (token : Bytes) : Bytes :=
  ({ id := some (signedId id), token := some token } : C2SLogin).serialize R

/-- `get_login_data` on the array of `event_callback`, of which byte 2 is never written. -/
def getLoginData (id : UInt64) (token : Bytes) (data : ℕ → UInt8) : Bytes :=
  let payload := loginRequest R id token
  let data := blit (blit data 23 (netShort payload.length)) 25 payload
  let data := blit (blit (blit data 0 [0x15]) 1 [0x0]) 3 [0x0]
  let data := blit data 20 (netShort 10)
  let data := blit (blit data 4 (List.replicate 8 0)) 12 (List.replicate 8 0)
  let data := blit data 22 [0x01]
  (List.range (25 + payload.length)).map data

/-- What `send_callback` sets in its song, with the text of the time. -/
def songOf (id toId : UInt64) (time : Bytes) : Song where
  songId := some (ascii (toString (signedId id)) ++ ascii "->" ++ ascii (toString (signedId toId)))
  songName := some (ascii "apologize")
  source := some 3
  singers := some [0xE5, 0x88, 0x98, 0xE5, 0xBE, 0xB7, 0xE5, 0x8D, 0x8E]
  picUrl := some time

/-- The id that a client sends its song to. -/
def songTo (id : UInt64) : UInt64 := id / 5 * 5

def songPayload (id : UInt64) (time : Bytes) : Bytes :=
  (songOf id (songTo id) time).serialize R

/-- The array of `send_callback` as the loop finds it. -/
def sendHead : ℕ → UInt8 :=
  blit (blit (blit (fun _ => 0) 0 [0x15, 0x40, 0x0, 0x0]) 20 (netShort 22)) 22 [0x01]

/-- One turn of the loop: the array is kept from turn to turn, and nothing is sent to oneself. -/
def sendTurn (data : ℕ → UInt8) (id : UInt64) (time : Bytes) : (ℕ → UInt8) × Option Bytes :=
  if songTo id ≠ id then
    let payload := songPayload R id time
    let data := blit (blit data 25 payload) 23 (netShort payload.length)
    let data := blit (blit data 4 (netId id)) 12 (netId (songTo id))
    (data, some ((List.range (25 + payload.length)).map data))
  else (data, none)

/-- The frames that a run of the loop from the array `data` appends, with the client of each. -/
def sendLoop (time : UInt64 → Bytes) : (ℕ → UInt8) → List UInt64 → List (UInt64 × Bytes)
  | _, [] => []
  | data, id :: ids =>
    let r := sendTurn R data id (time id)
    (r.2.map fun f => (id, f)).toList ++ sendLoop time r.1 ids

def sendCallback (time : UInt64 → Bytes) (ids : List UInt64) : List (UInt64 × Bytes) :=
  sendLoop R time sendHead ids

/-- A callback of the thread: a client is connected, or one of the timers runs out. -/
inductive ThreadEvent where
  | connected (id : UInt64) (mem : ℕ → UInt8)
  | heart
  | send (time : UInt64 → Bytes)

/-- What a callback appends to the outputs of the clients `ids`. -/
def appended (ids : List UInt64) (token : UInt64 → Bytes) : ThreadEvent → List (UInt64 × Bytes)
  | .connected id mem => [(id, getLoginData R id (token id) mem)]
  | .heart => ids.map fun id => (id, heartBag)
  | .send time => sendCallback R time ids

/-- The frames that a run of callbacks appends to the output of client `id`. -/
def outputOf (ids : List UInt64) (token : UInt64 → Bytes) (es : List ThreadEvent) (id : UInt64) :
    List Bytes :=
  (es.flatMap (appended R ids token)).filterMap fun p => if p.1 = id then some p.2 else none

end Writing

/-- A line that the read callback logs. An online list is shown as rows of an id and its status,
where `none` is a status read behind the terminator of the string. -/
inductive Report where
  | heartbeat
  | login (ok : Bool)
  | online (rows : List (Bytes × Option UInt8))
  | song (fromId : UInt64) (m : Song)
  | unhandled (propertyId : ℕ)
  deriving DecidableEq, Repr

/-- How a run of the read callback ends: with input left that is too short, in a loop that does
nothing, or with the bufferevent freed. -/
inductive ReadEnd where
  | waits (input : Bytes)
  | spins (input : Bytes)
  | closed
  deriving DecidableEq, Repr

/-- The rows of an online list; `c_str` ends in a zero byte. -/
def onlineRows (m : OnlineStatus) : List (Bytes × Option UInt8) :=
  m.id.mapIdx fun i id => (cstr id, (m.status.getD [] ++ [0])[i]?)

section Reading

variable {σ : Type} (R : Runtime σ)

/-- What is shown of a data frame with a header of 20 bytes; the results of the parsers are not
looked at. -/
def report (data : Bytes) : Report :=
  let propertyId := bigEndian ((data.drop 20).take 2)
  let payload := data.drop 25
  if propertyId = 11 then .login ((s2cLogin.parseFromArray R payload).1.code.getD 0 == 200)
  else if propertyId = 12 then .online (onlineRows (onlineStatus.parseFromArray R payload).1)
  else if propertyId = 22 then
    .song (UInt64.ofNat (bigEndian ((data.drop 4).take 8))) (song.parseFromArray R payload).1
  else .unhandled propertyId

/-- The read callback; `refused` is what follows a login that failed. A data frame that is not whole
is drained as if it were, and too few bytes for its head are looked at again and again. -/
def readLoop (refused : Bytes → ReadEnd) (input : Bytes) : List Report × ReadEnd :=
  if input.length > 3 then
    if byteAt input 1 &&& 0x20 ≠ 0 then
      let r := readLoop refused (input.drop 4)
      (.heartbeat :: r.1, r.2)
    else if input.length > 25 then
      let len := bigEndian ((input.drop 23).take 2)
      if input.length ≥ len + 25 then
        let shown := report R (input.take (25 + len))
        if shown = .login false then ([shown], refused input)
        else
          let r := readLoop refused (input.drop (25 + len))
          (shown :: r.1, r.2)
      else readLoop refused (input.drop (25 + len))
    else ([], .spins input)
  else ([], .waits input)
termination_by input.length

/-- `read_callback` of `receive.cc`, which frees a connection whose login failed. -/
def receiveCallback (input : Bytes) : List Report × ReadEnd := readLoop R (fun _ => .closed) input

/-- `read_callback` of `send.cc`, which returns and leaves the frame in the buffer. -/
def sendReadCallback (input : Bytes) : List Report × ReadEnd := readLoop R .waits input

/-- Chunks that arrive one after another, each followed by a run of the callback. -/
def receiveAll (shown : List Report) : ReadEnd → List Bytes → List Report × ReadEnd
  | .waits input, chunk :: chunks =>
    let r := receiveCallback R (input ++ chunk)
    receiveAll (shown ++ r.1) r.2 chunks
  | e, _ => (shown, e)

end Reading

end Client

end EglComet
