import EglComet.WorkThread.Delivery

/-!
What the four redis callbacks do with every reply hiredis can hand them, the
null reply of a dropped connection included. Each of them tests the reply in its
own way, and the relation check does not test it at all.
-/
namespace EglComet

open Protobuf

namespace Server

section Replies

variable {σ : Type} (R : Runtime σ) (env : Env) (s : Server)

/-- What is to become of a pending request when redis gives no answer: a login and a relay are
checked over HTTP, and a round of presence notices is dropped. -/
def fallback : RedisCallback → Server
  | .login d => s.httpLoginCheck R env d
  | .trans d => s.httpTransCheck R env d
  | .online _ => s
  | .offline _ => s

/-- The callback returns, and without an answer it falls back. -/
def Tolerates (reply : Option RedisReply) (callback : RedisCallback) : Prop :=
  ∃ t, s.redisCallback R env reply callback = some t ∧
    (reply = none → t = s.fallback R env callback)

/-- What the tests of a callback leave to the reply and to the tables. -/
def Covered (reply : Option RedisReply) : RedisCallback → Prop
  | .login d => reply = none → d.bev ∈ (s.workThread d.workThread).bevId
  | .trans _ => reply ≠ none
  | .online info => info.bev ∈ (s.workThread info.workThread).bevId → none ∉ elements reply
  | .offline _ => none ∉ elements reply

theorem mapM_id_isSome_iff (strs : List (Option Bytes)) :
    (strs.mapM id).isSome ↔ none ∉ strs := by
  induction strs with
  | nil => simp
  | cons str strs ih =>
    cases str with
    | none => simp
    | some str =>
      rw [List.mapM_cons]
      cases h : strs.mapM id with
      | none => simpa [h] using ih
      | some rest => simpa [h] using ih

/-- A check over HTTP that is started leaves the request pending, and one that fails at once is
recorded with more than the end of the request. -/
theorem httpLoginCheck_ne_deleteLogin (d : LoginData) :
    s.httpLoginCheck R env d ≠ s.deleteLogin d := by
  intro heq
  have hlog : (s.httpLoginCheck R env d).log = s.log ++ [.deletedLogin d.seq] := by
    rw [heq]
    rfl
  have hE : Tolerant fun _ => True := by constructor <;> simp
  simp only [httpLoginCheck] at hlog
  split at hlog
  · simp [setHeap] at hlog
  · let started := s.setHeap (s.heap.insert (env.alloc.next s.heap) { owner := .httpLogin d false })
    have hgrows : Grows (fun _ => True) started
        (started.httpLoginEvent R env (env.alloc.next s.heap) d { error := true }) :=
      grows_httpLoginEvent R hE (by simp) (by simp)
    obtain ⟨added, hadded, -⟩ := hgrows.log
    have hlen := congrArg List.length hlog
    simp only [deleteLogin, log_emit, log_bufferEventFree] at hlen
    rw [hadded] at hlen
    simp [started, setHeap] at hlen
  · have hlen := congrArg List.length hlog
    simp [deleteLogin, log_emit, log_bufferEventFree, setHeap] at hlen

theorem tolerates_login_iff (d : LoginData) (reply : Option RedisReply) :
    s.Tolerates R env reply (.login d) ↔ s.Covered reply (.login d) := by
  simp only [Tolerates, redisCallback, Option.some.injEq, exists_eq_left', fallback, Covered]
  apply imp_congr_right
  rintro rfl
  by_cases hb : d.bev ∈ (s.workThread d.workThread).bevId
  · simp [redisLoginCallback, hb]
  · simp only [redisLoginCallback, hb, iff_false]
    exact (httpLoginCheck_ne_deleteLogin R env s d).symm

theorem tolerates_trans_iff (d : Relay) (reply : Option RedisReply) :
    s.Tolerates R env reply (.trans d) ↔ s.Covered reply (.trans d) := by
  cases reply with
  | none => simp [Tolerates, Covered, redisCallback, redisTransCallback]
  | some r => simp [Tolerates, Covered, redisCallback, redisTransCallback]

theorem tolerates_online_iff (info : OnlineInfo) (reply : Option RedisReply) :
    s.Tolerates R env reply (.online info) ↔ s.Covered reply (.online info) := by
  cases reply with
  | none => simp [Tolerates, Covered, redisCallback, redisOnlineNotify, elements, fallback]
  | some r =>
    simp only [Tolerates, Covered, redisCallback, redisOnlineNotify, reduceCtorEq, false_implies,
      and_true]
    by_cases hwalk : elements (some r) ≠ [] ∧ info.bev ∈ (s.workThread info.workThread).bevId
    · rw [if_pos hwalk, ← Option.isSome_iff_exists, Option.isSome_map, mapM_id_isSome_iff]
      exact (imp_iff_right hwalk.2).symm
    · rw [if_neg hwalk]
      apply iff_of_true ⟨s, rfl⟩
      intro hb hmem
      exact hwalk ⟨List.ne_nil_of_mem hmem, hb⟩

theorem tolerates_offline_iff (info : OfflineInfo) (reply : Option RedisReply) :
    s.Tolerates R env reply (.offline info) ↔ s.Covered reply (.offline info) := by
  cases reply with
  | none => simp [Tolerates, Covered, redisCallback, redisOfflineNotify, elements, fallback]
  | some r =>
    simp only [Tolerates, Covered, redisCallback, redisOfflineNotify, reduceCtorEq, false_implies,
      and_true]
    rw [← Option.isSome_iff_exists, Option.isSome_map, mapM_id_isSome_iff]

/-- Which replies the redis callbacks tolerate. A null reply to a relation check is dereferenced, as
is a null string in a list of friends that is walked; a pending login falls back to HTTP if its
connection is still there. Every other reply is handled. -/
theorem redis_reply_tolerated_iff (reply : Option RedisReply) (callback : RedisCallback) :
    s.Tolerates R env reply callback ↔ s.Covered reply callback := by
  cases callback with
  | login d => exact tolerates_login_iff R env s d reply
  | trans d => exact tolerates_trans_iff R env s d reply
  | online info => exact tolerates_online_iff R env s info reply
  | offline info => exact tolerates_offline_iff R env s info reply

end Replies

end Server

/-- The connection to redis drops while a relay of 7 to 9 waits for its relation check: the null
reply ends the process. -/
theorem pending_relay_null_reply :
    ∃ s : Server, s.Reached Wire.runtime (fun _ _ => True) ∧
      (s.workThread 0).redis = [relationCommand (Server.offeredRecord 2 7 9)] ∧
      ¬ s.Tolerates Wire.runtime (plainEnv 1) none (.trans (Server.offeredRecord 2 7 9)) ∧
      s.step Wire.runtime (plainEnv 1, .redisReply 0 0 none) = none := by
  obtain ⟨s, hs, hpending, hstep⟩ := Server.exists_reached Wire.runtime 1 Server.offered
    (fun _ _ => True)
    (fun s => (s.workThread 0).redis = [relationCommand (Server.offeredRecord 2 7 9)] ∧
      (s.step Wire.runtime (plainEnv 1, .redisReply 0 0 none)).isNone)
    (.of_forall (by simp) _) (by decide +kernel)
  refine ⟨s, hs, hpending, ?_, Option.isNone_iff_eq_none.mp hstep⟩
  rintro ⟨t, ht, -⟩
  simp [Server.redisCallback, Server.redisTransCallback] at ht

end EglComet
