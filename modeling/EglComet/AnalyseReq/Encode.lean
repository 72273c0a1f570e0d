import EglComet.AnalyseReq.Framing

/-!
The encoders of `AnalyseReq`: login replies, presence frames and the HTTP
requests. Frames are assembled by writes into memory that is not initialised
first; the memory behind a destination is a function from offsets to bytes.
-/
namespace EglComet

open Protobuf MachineInt

/-- Write bytes at an offset, as `memcpy` and single assignments do. -/
def blit (mem : ℕ → UInt8) (off : ℕ) (bs : Bytes) : ℕ → UInt8 := fun i =>
  if off ≤ i ∧ i < off + bs.length then byteAt bs (i - off) else mem i

/-- `htons` of an `int`: the low 16 bits, high byte first. -/
def netShort (n : ℕ) : Bytes := [UInt8.ofNat (n / 256), UInt8.ofNat n]

/-- `htonl`: the low 32 bits, high byte first. -/
def netLong (n : ℕ) : Bytes :=
  [UInt8.ofNat (n / 256 ^ 3), UInt8.ofNat (n / 256 ^ 2), UInt8.ofNat (n / 256), UInt8.ofNat n]

/-- The bytes of an ASCII text. -/
def ascii (s : String) : Bytes := s.toList.map fun c => UInt8.ofNat c.toNat

/-- A byte string seen through a C-string interface. -/
def cstr (bs : Bytes) : Bytes := bs.takeWhile (· ≠ 0)

/-- The length field and the payload, in the form both encoders choose by `0xFF00`; the total
length comes with it. -/
def putPayload (mem : ℕ → UInt8) (src : Bytes) : (ℕ → UInt8) × ℕ :=
  if src.length > 0xFF00 then
    (blit (blit (blit mem 23 [0xFF, 0x00]) 25 (netLong src.length)) 29 src, 20 + 9 + src.length)
  else (blit (blit mem 23 (netShort src.length)) 25 src, 20 + 5 + src.length)

/-- `pack_data`. The property id argument is not used; byte 2 of the head is never written. -/
def packData (src : Bytes) (_propertyId : ℕ) (des : ℕ → UInt8) : Bytes :=
  let r := putPayload des src
  let des := blit (blit (blit r.1 0 [0x15]) 1 [0x0]) 3 [0x0]
  let des := blit (blit des 20 (netShort 12)) 22 [0x01]
  let des := blit (blit des 4 (List.replicate 8 0)) 12 (List.replicate 8 0)
  (List.range r.2).map des

section Requests

variable {σ : Type} (R : Runtime σ)

/-- `get_login_rsp`, with the memory `new` returned. -/
def getLoginRsp (a : AnalyseReq) (isSuccess : Bool) (msg : Bytes) (pingTime : ℤ)
    (mem : ℕ → UInt8) : Bytes × AnalyseReq :=
  let m : S2CLogin :=
    { code := some (if isSuccess then 200 else 401), msg := some msg, pingTime := some pingTime }
  let r := putPayload mem (m.serialize R)
  let des := blit (blit (blit (blit r.1 0 [0x15]) 1 [0x0]) 2 [0x0]) 3 [0x0]
  let des := blit des 20 (netShort 11)
  let des := blit (blit des 4 (List.replicate 8 0)) 12 (List.replicate 8 0)
  let des := blit des 22 [0x01]
  ((List.range r.2).map des, { a with rspLogin := m })

/-- `pack_post_data`: the inner message passes through `c_str` into the `params` entry, and the
size of the body is printed as an `int`. -/
def packPostData (a : AnalyseReq) (action : String) (url : Bytes) : Bytes × AnalyseReq :=
  let req : ReqPacket :=
    { mask := some 0, udi := some (ascii "ei=1&ai=1&bd=pada"), reqNo := some 0,
      rsaKeyVer := some (ascii "1"), clientId := some 111, action := [ascii action],
      params := [cstr a.serializeStr] }
  let body := req.serialize R
  let head := ascii "POST / HTTP/1.1\r\nHost:" ++ cstr url ++ ascii "\r\nContent-Length:" ++
    ascii (toString (wrap32 body.length)) ++ ascii "\r\n\r\n"
  (head ++ body, { a with req, serializeStr := body })

def getLoginPostData (a : AnalyseReq) (id : ℤ) (token : Bytes) (url : Bytes) :
    Bytes × AnalyseReq :=
  let m : ReqCheckTokenByID := { id := some id, token := some token }
  packPostData R { a with checkIdReq := m, serializeStr := m.serialize R } "ReqCheckTokenByID" url

def getRelationPostData (a : AnalyseReq) (fromId toId : ℤ) (url : Bytes) : Bytes × AnalyseReq :=
  let m : ReqCheckRelationByID := { fromID := some fromId, toID := some toId }
  packPostData R { a with checkRelationReq := m, serializeStr := m.serialize R }
    "ReqCheckRelationByID" url

end Requests

end EglComet
