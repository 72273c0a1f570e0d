import EglComet.AnalyseReq.Data
import EglComet.Protobuf.WireFormat

/-!
Replies of the HTTP account service. The reply is cut at the last CRLF, parsed
as a `RspPacket`, and the first `params` entry is parsed as the check result.
Neither parse result is looked at, and an unset `rescode` reads as success.
-/
namespace EglComet

open Protobuf

/-- The backward scan of `analyse_post_data` for `"\r\n"`; it stops at index 1 at the latest. -/
def scanStart (data : Bytes) : ℕ → ℕ
  | 0 => 0
  | 1 => 1
  | p + 2 =>
    if data.getD (p + 2) 0 ≠ 0x0a ∨ data.getD (p + 1) 0 ≠ 0x0d then scanStart data (p + 1)
    else p + 2

/-- The range handed to `ParseFromArray`. An empty reply starts the scan before its first byte. -/
def postBody (data : Bytes) : Bytes :=
  if data.length = 0 then data else data.drop (scanStart data (data.length - 1) + 1)

theorem postBody_suffix (data : Bytes) : postBody data <:+ data := by
  unfold postBody
  split_ifs
  · exact List.suffix_refl data
  · exact List.drop_suffix _ data

section Replies

variable {σ : Type} (R : Runtime σ)

def analysePostData (a : AnalyseReq) (data : Bytes) : Bool × AnalyseReq :=
  let rsp := (rspPacket.parseFromArray R (postBody data)).1
  (!rsp.params.isEmpty, { a with rsp })

def analyseLoginData (a : AnalyseReq) (data : Bytes) : Bool × AnalyseReq :=
  let r := analysePostData R a data
  if !r.1 then (false, r.2)
  else
    let m := (rspCheckTokenByID.parseFromArray R (r.2.rsp.params.headD [])).1
    (m.rescode.getD 0 == 0, { r.2 with checkIdRsp := m })

def analyseRelationData (a : AnalyseReq) (data : Bytes) : Bool × AnalyseReq :=
  let r := analysePostData R a data
  if !r.1 then (false, r.2)
  else
    let m := (rspCheckRelationByID.parseFromArray R (r.2.rsp.params.headD [])).1
    (m.rescode.getD 0 == 0, { r.2 with checkRelationRsp := m })

/-- The body is a complete `RspPacket` whose first parameter is a complete check result with every
required field and an explicit `rescode` of zero. -/
def GrantsCheck (T : MessageType RspCheck) (body : Bytes) : Prop :=
  (rspPacket.parseFromArray R body).2 = true ∧
    ∃ p ps, (rspPacket.parseFromArray R body).1.params = p :: ps ∧
      (T.parseFromArray R p).2 = true ∧ (T.parseFromArray R p).1.rescode = some 0 ∧
      (T.parseFromArray R p).1.resmsg.isSome

/-- The body is not a complete `RspPacket`, or its first parameter is not a complete check result;
still a parameter was begun, and no other `rescode` than zero was read from it. -/
def StopsShort (T : MessageType RspCheck) (body : Bytes) : Prop :=
  ∃ p ps, (rspPacket.parseFromArray R body).1.params = p :: ps ∧
    (T.parseFromArray R p).1.rescode.getD 0 = 0 ∧
    ((rspPacket.parseFromArray R body).2 = false ∨ (T.parseFromArray R p).2 = false)

/-- What both decisions test: a first parameter whose `rescode` reads as zero. -/
def AcceptsCheck (T : MessageType RspCheck) (data : Bytes) : Prop :=
  ∃ p ps, (rspPacket.parseFromArray R (postBody data)).1.params = p :: ps ∧
    (T.parseFromArray R p).1.rescode.getD 0 = 0

theorem acceptsCheck_iff_head (T : MessageType RspCheck) (data : Bytes) :
    AcceptsCheck R T data ↔ ∃ e ∈ (rspPacket.parseFromArray R (postBody data)).1.params.head?,
      (T.parseFromArray R e).1.rescode.getD 0 = 0 := by
  unfold AcceptsCheck
  cases (rspPacket.parseFromArray R (postBody data)).1.params <;> simp

theorem analyseLoginData_iff (a : AnalyseReq) (data : Bytes) :
    (analyseLoginData R a data).1 = true ↔ AcceptsCheck R rspCheckTokenByID data := by
  cases hp : (rspPacket.parseFromArray R (postBody data)).1.params <;>
    simp [analyseLoginData, analysePostData, AcceptsCheck, hp]

theorem analyseRelationData_iff (a : AnalyseReq) (data : Bytes) :
    (analyseRelationData R a data).1 = true ↔ AcceptsCheck R rspCheckRelationByID data := by
  cases hp : (rspPacket.parseFromArray R (postBody data)).1.params <;>
    simp [analyseRelationData, analysePostData, AcceptsCheck, hp]

theorem pending_analyseLoginData (a : AnalyseReq) (data : Bytes) :
    (analyseLoginData R a data).2.pending = a.pending := by
  cases hp : (rspPacket.parseFromArray R (postBody data)).1.params <;>
    simp [analyseLoginData, analysePostData, hp, AnalyseReq.pending]

theorem pending_analyseRelationData (a : AnalyseReq) (data : Bytes) :
    (analyseRelationData R a data).2.pending = a.pending := by
  cases hp : (rspPacket.parseFromArray R (postBody data)).1.params <;>
    simp [analyseRelationData, analysePostData, hp, AnalyseReq.pending]

theorem rspCheck_present {p : Bytes} (h : (rspCheck.parseFromArray R p).2 = true) :
    (rspCheck.parseFromArray R p).1.rescode.isSome ∧
      (rspCheck.parseFromArray R p).1.resmsg.isSome := by
  have hi := rspCheck.isInitialized_of_parse R h
  simpa [rspCheck] using hi

/-- If the body is found, an accepted reply is a complete grant exactly when no parse of the body
stopped short of one. -/
theorem acceptsCheck_grants_iff {data body : Bytes} (hbody : postBody data = body) :
    (AcceptsCheck R rspCheck data → GrantsCheck R rspCheck body) ↔
      ¬ StopsShort R rspCheck body := by
  subst hbody
  constructor
  · rintro h ⟨p, ps, hp, hc, hs⟩
    obtain ⟨hout, q, qs, hq, hin, -⟩ := h ⟨p, ps, hp, hc⟩
    obtain ⟨rfl, rfl⟩ : p = q ∧ ps = qs := by simpa [hp] using hq
    rcases hs with hs | hs
    · simp [hout] at hs
    · simp [hin] at hs
  · rintro h ⟨p, ps, hp, hc⟩
    have hout : (rspPacket.parseFromArray R (postBody data)).2 = true := by
      by_contra hf
      exact h ⟨p, ps, hp, hc, Or.inl (by simpa using hf)⟩
    have hin : (rspCheck.parseFromArray R p).2 = true := by
      by_contra hf
      exact h ⟨p, ps, hp, hc, Or.inr (by simpa using hf)⟩
    obtain ⟨hcode, hmsg⟩ := rspCheck_present R hin
    obtain ⟨c, hc'⟩ := Option.isSome_iff_exists.mp hcode
    have hc0 : c = 0 := by simpa [hc'] using hc
    exact ⟨hout, p, ps, hp, hin, by rw [hc', hc0], hmsg⟩

end Replies

end EglComet
