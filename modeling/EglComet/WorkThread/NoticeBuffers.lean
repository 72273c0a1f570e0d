import EglComet.AnalyseReq.RoundTrip
import EglComet.Protobuf.WriteRead
import EglComet.WorkThread.Step

/-!
The arrays on the stack that `pack_data` fills with presence frames. The array of
a notice is sized with the variable that the call is about to set, while it is
still zero; the array of a friend list is sized with the length of its source.
-/
namespace EglComet

open Protobuf

/-- The destination of one call of `pack_data`: the bytes of the array, and `des_len`. -/
structure PackBuffer where
  allocated : ℕ
  desLen : ℕ
  deriving DecidableEq, Repr

def PackBuffer.Fits (p : PackBuffer) : Prop := p.desLen ≤ p.allocated

namespace Server

section Sites

variable {σ : Type} (R : Runtime σ)

/-- The online notice and the offline notice: `29 + on_line_des_len` and `29 + off_line_des_len`,
where the length has been set to zero one line before. -/
def noticeBuffer (env : Env) (id : UInt64) (status : UInt8) : PackBuffer :=
  ⟨29 + 0, (presenceFrame R env id status).length⟩

/-- The friend list: `29 + src_len`. -/
def friendsBuffer (env : Env) (m : OnlineStatus) : PackBuffer :=
  ⟨29 + (m.serialize R).length, (packData (m.serialize R) 12 env.mem).length⟩

/-- The calls of `pack_data` in one run of `redis_online_notify`. The second is not reached when an
element has a null string. -/
def onlineBuffers (env : Env) (s : Server) (info : OnlineInfo) (reply : Option RedisReply) :
    List PackBuffer :=
  if elements reply ≠ [] ∧ info.bev ∈ (s.workThread info.workThread).bevId then
    noticeBuffer R env info.id 1 ::
      match (elements reply).mapM id with
      | some strs =>
        let r := strs.foldl (onlineFriend env info.id (presenceFrame R env info.id 1)) (s, [])
        [friendsBuffer R env { id := strs.map cstr, status := some r.2 }]
      | none => []
  else []

/-- The call of `pack_data` in one run of `redis_offline_notify`. -/
def offlineBuffers (env : Env) (info : OfflineInfo) (reply : Option RedisReply) :
    List PackBuffer :=
  if elements reply ≠ [] then [noticeBuffer R env info.id 0] else []

end Sites

theorem length_packData (src : Bytes) (propertyId : ℕ) (mem : ℕ → UInt8) :
    25 + src.length ≤ (packData src propertyId mem).length ∧
      (packData src propertyId mem).length ≤ 29 + src.length := by
  rw [packData_eq, length_frameOf, length_lengthField]
  split_ifs <;> constructor <;> omega

/-- The array of a friend list has the room of the longer of the two forms. -/
theorem friendsBuffer_fits {σ : Type} (R : Runtime σ) (env : Env) (m : OnlineStatus) :
    (friendsBuffer R env m).Fits :=
  (length_packData _ _ _).2

section Overflow

variable {σ : Type} {R : Runtime σ}

/-- The head, the printed id and the status of a notice. -/
theorem length_presenceFrame (W : R.Writers) (env : Env) (id : UInt64) (status : UInt8) :
    30 + (ascii (toString (signed id))).length ≤
      (presenceFrame R env id status).length := by
  have hid : repString R 1 [ascii (toString (signed id))] =
      R.writeString 1 (ascii (toString (signed id))) := List.append_nil _
  have hstatus : (optString R 2 (some [status])).length = 3 :=
    congrArg List.length (W.string 2 [status])
  have hvarint := Wire.one_le_varintSize (ascii (toString (signed id))).length
  refine le_trans ?_ (length_packData _ 12 env.mem).1
  rw [OnlineStatus.serialize, List.length_append, hstatus, hid, W.length_string (by decide)]
  omega

theorem noticeBuffer_overflows (W : R.Writers) (env : Env) (id : UInt64) (status : UInt8) :
    ¬ (noticeBuffer R env id status).Fits := by
  have hlen := length_presenceFrame W env id status
  simp only [PackBuffer.Fits, noticeBuffer]
  omega

/-- The calls of `redis_online_notify` fit their arrays exactly when it makes none, so do those of
`redis_offline_notify`, and a friend list always fits. -/
theorem presence_buffers_fit_iff (W : R.Writers) (env : Env) (s : Server) (online : OnlineInfo)
    (offline : OfflineInfo) (reply : Option RedisReply) :
    ((∀ p ∈ onlineBuffers R env s online reply, p.Fits) ↔
        elements reply = [] ∨ online.bev ∉ (s.workThread online.workThread).bevId) ∧
      ((∀ p ∈ offlineBuffers R env offline reply, p.Fits) ↔ elements reply = []) ∧
      ∀ m : OnlineStatus, (friendsBuffer R env m).Fits := by
  refine ⟨?_, ?_, friendsBuffer_fits R env⟩
  · unfold onlineBuffers
    split_ifs with h
    · refine iff_of_false (fun hall => ?_) (by tauto)
      exact noticeBuffer_overflows W env online.id 1 (hall _ List.mem_cons_self)
    · exact iff_of_true (by simp) (by tauto)
  · unfold offlineBuffers
    split_ifs with h
    · refine iff_of_false (fun hall => ?_) h
      exact noticeBuffer_overflows W env offline.id 0 (hall _ List.mem_cons_self)
    · exact iff_of_true (by simp) (not_not.mp h)

/-- A lookup that finds no friends makes no call, and the list with 9 online fits its array. -/
theorem noFriends_buffers_fit :
    (∀ p ∈ onlineBuffers Wire.runtime (plainEnv 1) ((deployment 1).newConnection (plainEnv 1) 0)
      ⟨7, 1, 0, 0⟩ noFriends, p.Fits) ∧
      (friendsBuffer Wire.runtime (plainEnv 1) ⟨[[0x39]], some [1]⟩).Fits := by
  have h := presence_buffers_fit_iff Wire.conforms.toWriters (plainEnv 1)
    ((deployment 1).newConnection (plainEnv 1) 0) ⟨7, 1, 0, 0⟩ ⟨7, 0⟩ noFriends
  exact ⟨h.1.mpr (Or.inl rfl), h.2.2 _⟩

end Overflow

/-- The login of id 7 on the connection at address 1, whose only friend is 9. -/
theorem online_notice_overflows :
    ¬ ∀ p ∈ onlineBuffers Wire.runtime (plainEnv 1) ((deployment 1).newConnection (plainEnv 1) 0)
      ⟨7, 1, 0, 0⟩ (some { type := .array, element := [some [0x39]] }), p.Fits := by
  intro hall
  refine noticeBuffer_overflows Wire.conforms.toWriters (plainEnv 1) 7 1 (hall _ ?_)
  unfold onlineBuffers
  rw [if_pos (by decide +kernel)]
  exact List.mem_cons_self

end Server

end EglComet
