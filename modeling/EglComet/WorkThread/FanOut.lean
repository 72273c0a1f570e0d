import EglComet.WorkThread.Presence

/-!
The answer to a lookup of friends. Each element of the list is looked up in the
tables of the workers in order; the first worker that has it gets one notice for
it, and a login also learns which elements are online. The tables stay as they
are, so every element is judged by the same ones.
-/
namespace EglComet

open Protobuf

namespace Server

section FanOut

variable {σ : Type} (R : Runtime σ) {s t : Server} {env : Env}

/-- The notice about `id` for one friend, but for the serial number it gets. -/
def noticeFor (id : UInt64) (frame : Bytes) (toId : UInt64) : TransData :=
  { fromId := id, toId, dataSize := frame.length, data := frame, origin := .server }

/-- The listed friends that are online were sent a notice about `id`, one for each, in order and
through the first worker that has the friend; no table was changed. -/
structure FansOut (id : UInt64) (frame : Bytes) (strs : List Bytes) (s t : Server) : Prop where
  queue : ∀ j, ∃ added, (t.workThread j).newMsgFd = (s.workThread j).newMsgFd ++ added ∧
    added.map (fun d => { d with seq := 0 }) =
      (strs.filter fun str => s.firstWorker (atoll str) = some j).map fun str =>
        noticeFor id frame (atoll str)
  subMap : ∀ j, (t.workThread j).subMap = (s.workThread j).subMap
  bevId : ∀ j, (t.workThread j).bevId = (s.workThread j).bevId

/-- What the friend list tells its reader. -/
def friendStatus (s : Server) (strs : List Bytes) : OnlineStatus where
  id := strs
  status := some (strs.map fun str => statusByte (s.online (atoll str)))

theorem workThread_offlineFriend (hw : ∀ n, env.write n = .full) (id : UInt64) (frame : Bytes)
    (s : Server) (str : Bytes) (j : ℕ) :
    (offlineFriend env id frame s str).workThread j = { s.workThread j with
      newMsgFd := (s.workThread j).newMsgFd ++
        if s.firstWorker (atoll str) = some j then [s.notice id frame (atoll str)] else [] } := by
  rw [offlineFriend_eq hw]
  cases hf : s.firstWorker (atoll str) with
  | none => simp
  | some i =>
    simp only [workThread_enqueue, Option.some.injEq, eq_comm]
    rfl

theorem fansOut_foldl (hw : ∀ n, env.write n = .full) (id : UInt64) (frame : Bytes)
    (strs : List Bytes) (s : Server) :
    FansOut id frame strs s (strs.foldl (offlineFriend env id frame) s) := by
  induction strs generalizing s with
  | nil => exact ⟨fun j => ⟨[], by simp⟩, fun _ => rfl, fun _ => rfl⟩
  | cons str strs ih =>
    have hrest := ih (offlineFriend env id frame s str)
    have hfirst := workThread_offlineFriend hw id frame s str
    rw [List.foldl_cons]
    constructor
    · intro j
      obtain ⟨added, hadded, hmap⟩ := hrest.queue j
      simp only [firstWorker_of_registry_eq (registry_offlineFriend env id frame s str)] at hmap
      rw [hadded, hfirst j]
      by_cases hj : s.firstWorker (atoll str) = some j
      · refine ⟨s.notice id frame (atoll str) :: added, by simp [hj], ?_⟩
        rw [List.map_cons, hmap, List.filter_cons_of_pos (by simpa using hj), List.map_cons]
        rfl
      · refine ⟨added, by simp [hj], ?_⟩
        rw [hmap, List.filter_cons_of_neg (by simpa using hj)]
    · intro j
      rw [hrest.subMap, hfirst]
    · intro j
      rw [hrest.bevId, hfirst]

theorem heap_foldl_offlineFriend (hw : ∀ n, env.write n = .full) (id : UInt64) (frame : Bytes)
    (strs : List Bytes) (s : Server) :
    (strs.foldl (offlineFriend env id frame) s).heap = s.heap := by
  induction strs generalizing s with
  | nil => rfl
  | cons str strs ih =>
    rw [List.foldl_cons, ih, offlineFriend_eq hw]
    cases s.firstWorker (atoll str) with
    | none => rfl
    | some j => rfl

theorem heap_addOutput {s : Server} {b : Addr} {be : BufferEvent} (h : s.heap.lookup b = some be)
    (source : Source) (bs : Bytes) :
    (s.addOutput b source bs).heap = s.heap.insert b { be with output := be.output ++ bs } := by
  rw [addOutput, h]
  exact heap_recordSent _ _ _ _

theorem fansOut_offline (hw : ∀ n, env.write n = .full) {reply : Option RedisReply}
    {strs : List Bytes} (he : elements reply = strs.map some) (s : Server) (info : OfflineInfo) :
    ∃ t, s.redisOfflineNotify R env info reply = some t ∧
      FansOut info.id (presenceFrame R env info.id 0) strs s t ∧ t.heap = s.heap := by
  rw [redisOfflineNotify, he, mapM_map_some]
  exact ⟨_, rfl, fansOut_foldl hw info.id _ strs s, heap_foldl_offlineFriend hw info.id _ strs s⟩

theorem fansOut_online (hw : ∀ n, env.write n = .full) {reply : Option RedisReply}
    {strs : List Bytes} (he : elements reply = strs.map some) (hne : strs ≠ [])
    (hdec : ∀ str ∈ strs, Decimal str) (s : Server) (info : OnlineInfo)
    (hb : info.bev ∈ (s.workThread info.workThread).bevId) :
    ∃ t, s.redisOnlineNotify R env info reply = some t ∧
      FansOut info.id (presenceFrame R env info.id 1) strs s t ∧
      ∀ be, s.heap.lookup info.bev = some be → t.heap = s.heap.insert info.bev
        { be with output :=
            be.output ++ packData ((s.friendStatus strs).serialize R) 12 env.mem } := by
  have hgo : elements reply ≠ [] ∧ info.bev ∈ (s.workThread info.workThread).bevId := by
    rw [he]
    exact ⟨by simpa using hne, hb⟩
  have hstrs : strs.map cstr = strs := by
    rw [List.map_congr_left fun str hstr => (hdec str hstr).cstr, List.map_id']
  rw [redisOnlineNotify, if_pos hgo, he, mapM_map_some]
  simp only [Option.map_some, foldl_onlineFriend_eq hw, List.nil_append, hstrs]
  have hfan := fansOut_foldl hw info.id (presenceFrame R env info.id 1) strs s
  have hheap := heap_foldl_offlineFriend hw info.id (presenceFrame R env info.id 1) strs s
  refine ⟨_, rfl, ⟨?_, ?_, ?_⟩, ?_⟩
  · intro j
    rw [workThread_addOutput]
    exact hfan.queue j
  · intro j
    rw [workThread_addOutput]
    exact hfan.subMap j
  · intro j
    rw [workThread_addOutput]
    exact hfan.bevId j
  · intro be hbe
    have hbe' : (strs.foldl (offlineFriend env info.id (presenceFrame R env info.id 1))
        s).heap.lookup info.bev = some be := by
      rw [hheap]
      exact hbe
    rw [← hheap]
    apply heap_addOutput
    exact hbe'

end FanOut

end Server

/-- Id 7 is logged in on worker 0 and id 9 on worker 1. -/
def apart : List (Env × Event) := connect 0 1 ++ connect 1 2 ++ login 0 1 7 ++ login 1 2 9

/-- The friends `9` and `5`. -/
def twoFriends : List Bytes := [[0x39], [0x35]]

end EglComet
