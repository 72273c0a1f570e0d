import EglComet.WorkThread.Moves

/-!
Where a record goes that is offered to the workers: the first worker that has
the recipient and whose pipe takes the pointer. The choice depends on the
tables and on the outcomes of the writes alone.
-/
namespace EglComet

open Protobuf

/-- The address that an entry of the history frees. -/
def Obs.freedAddr : Obs → Option Addr
  | .freed b _ => some b
  | _ => none

namespace Server

/-- The worker among those listed that takes a record for `id`, and the number of the next write. -/
def taker (env : Env) (worker : ℕ → WorkThread) (id : UInt64) : List ℕ → ℕ → Option ℕ × ℕ
  | [], n => (none, n)
  | j :: js, n =>
    if id ∈ (worker j).subMap then
      if (env.write n).value = 8 then (some j, n + 1) else taker env worker id js (n + 1)
    else taker env worker id js n

def setWrites (s : Server) (n : ℕ) : Server := { s with writes := n }

/-- A record put into the pipe of worker `j`. -/
def enqueue (s : Server) (j : ℕ) (d : TransData) : Server :=
  (s.modify j fun t => { t with newMsgFd := t.newMsgFd ++ [d] }).emit (.enqueued j d)

theorem workThread_enqueue (s : Server) (j : ℕ) (d : TransData) (i : ℕ) :
    (s.enqueue j d).workThread i = { s.workThread i with
      newMsgFd := (s.workThread i).newMsgFd ++ if i = j then [d] else [] } := by
  by_cases hi : i = j
  · subst hi
    simp [enqueue, modify, emit]
  · simp [enqueue, modify, emit, hi]

theorem workThread_redisAsyncCommand (s : Server) (w : ℕ) (c : RedisCommand) (v : ℕ) :
    (s.redisAsyncCommand w c).workThread v = { s.workThread v with
      redis := (s.workThread v).redis ++ if v = w then [c] else [] } := by
  by_cases hv : v = w
  · subst hv
    simp [redisAsyncCommand, modify]
  · simp [redisAsyncCommand, modify, hv]

theorem taker_congr {env : Env} {worker worker' : ℕ → WorkThread} {id : UInt64}
    (h : ∀ j, (worker' j).subMap = (worker j).subMap) (js : List ℕ) (n : ℕ) :
    taker env worker' id js n = taker env worker id js n := by
  induction js generalizing n with
  | nil => rfl
  | cons j js ih => simp only [taker, h, ih]

/-- With reliable pipes the first worker that has the id takes the record. -/
theorem taker_reliable {env : Env} (hw : ∀ n, env.write n = .full) (worker : ℕ → WorkThread)
    (id : UInt64) (js : List ℕ) (n : ℕ) :
    (taker env worker id js n).1 = js.find? fun j => decide (id ∈ (worker j).subMap) := by
  induction js generalizing n with
  | nil => rfl
  | cons j js ih =>
    simp only [taker, hw, WriteResult.value, ↓reduceIte, List.find?_cons]
    split_ifs with hj
    · simp [hj]
    · simp [hj, ih]

/-- Someone takes the record exactly if one of the writes to those that have the id is complete. -/
theorem taker_isSome_iff {env : Env} (worker : ℕ → WorkThread) (id : UInt64) (js : List ℕ) (n : ℕ) :
    (taker env worker id js n).1.isSome ↔
      ∃ k < js.countP fun j => decide (id ∈ (worker j).subMap), env.write (n + k) = .full := by
  induction js generalizing n with
  | nil => simp [taker]
  | cons j js ih =>
    by_cases hj : id ∈ (worker j).subMap
    · rw [taker, if_pos hj, List.countP_cons_of_pos (by simpa using hj)]
      split_ifs with hv
      · have hfull : env.write n = .full := by
          cases hw : env.write n <;> simp [hw, WriteResult.value] at hv ⊢
        exact iff_of_true rfl ⟨0, Nat.succ_pos _, hfull⟩
      · rw [ih]
        constructor
        · rintro ⟨k, hk, hfull⟩
          exact ⟨k + 1, Nat.succ_lt_succ hk, by rwa [Nat.add_right_comm, Nat.add_assoc] at hfull⟩
        · rintro ⟨_ | k, hk, hfull⟩
          · exact absurd (congrArg WriteResult.value hfull) hv
          · exact ⟨k, Nat.lt_of_succ_lt_succ hk, by rwa [Nat.add_right_comm, Nat.add_assoc]⟩
    · rw [taker, if_neg hj, List.countP_cons_of_neg (by simpa using hj), ih]

theorem notifyNewMsg_eq (env : Env) (s : Server) (j : ℕ) (d : TransData) :
    notifyNewMsg env s j d =
      if d.toId ∈ (s.workThread j).subMap then
        if (env.write s.writes).value = 8 then (true, (s.setWrites (s.writes + 1)).enqueue j d)
        else (false, s.setWrites (s.writes + 1))
      else (false, s) := by
  simp only [notifyNewMsg, writeRetry_eq, enqueue, setWrites]

theorem offer_eq (env : Env) (d : TransData) (js : List ℕ) (s : Server) :
    offer env d js s =
      match taker env s.workThread d.toId js s.writes with
      | (some j, n) => (true, (s.setWrites n).enqueue j d)
      | (none, n) => (false, s.setWrites n) := by
  induction js generalizing s with
  | nil => rfl
  | cons j js ih =>
    simp only [offer, notifyNewMsg_eq, taker]
    by_cases hj : d.toId ∈ (s.workThread j).subMap
    · by_cases hv : (env.write s.writes).value = 8
      · simp only [if_pos hj, if_pos hv, ↓reduceIte]
      · simp only [if_pos hj, if_neg hv, Bool.false_eq_true, ↓reduceIte, ih]
        rfl
    · simp only [if_neg hj, Bool.false_eq_true, ↓reduceIte, ih]

/-- `send_message` puts the record into one pipe, or deletes it. -/
theorem transmit_eq (env : Env) (s : Server) (d : TransData) :
    s.transmit env d =
      match taker env s.workThread d.toId (List.range s.workThreadNum) s.writes with
      | (some j, n) => (s.setWrites n).enqueue j d
      | (none, n) => (s.setWrites n).deleteTrans d := by
  simp only [transmit, sendMessage, offer_eq]
  generalize taker env s.workThread d.toId (List.range s.workThreadNum) s.writes = r
  obtain ⟨_ | j, n⟩ := r <;> rfl

theorem log_emit (s : Server) (o : Obs) : (s.emit o).log = s.log ++ [o] := rfl

theorem log_bufferEventFree (s : Server) (b : Addr) :
    (s.bufferEventFree b).log = s.log ++ [.freed b (decide (b ∈ s.heap))] := rfl

theorem log_setAnalyseReq (s : Server) (w : ℕ) (a : AnalyseReq) :
    (s.setAnalyseReq w a).log = s.log := rfl

/-- The addresses freed so far, in order. -/
def freedAddrs (s : Server) : List Addr := s.log.filterMap Obs.freedAddr

theorem freedAddrs_emit (s : Server) (o : Obs) :
    (s.emit o).freedAddrs = s.freedAddrs ++ o.freedAddr.toList := by
  rw [freedAddrs, log_emit, List.filterMap_append]
  cases h : o.freedAddr with
  | none => simp [h, freedAddrs]
  | some b => simp [h, freedAddrs]

theorem freedAddrs_bufferEventFree (s : Server) (b : Addr) :
    (s.bufferEventFree b).freedAddrs = s.freedAddrs ++ [b] :=
  freedAddrs_emit s _

theorem log_transmit (env : Env) (s : Server) (d : TransData) :
    (s.transmit env d).log = s.log ++
      [match (taker env s.workThread d.toId (List.range s.workThreadNum) s.writes).1 with
        | some j => .enqueued j d
        | none => .deletedTrans d] := by
  rw [transmit_eq]
  generalize taker env s.workThread d.toId (List.range s.workThreadNum) s.writes = r
  obtain ⟨_ | j, n⟩ := r <;> rfl

theorem sendMessage_fst (env : Env) (s : Server) (d : TransData) :
    (s.sendMessage env d).1 =
      (taker env s.workThread d.toId (List.range s.workThreadNum) s.writes).1.isSome := by
  rw [sendMessage, offer_eq]
  generalize taker env s.workThread d.toId (List.range s.workThreadNum) s.writes = r
  obtain ⟨_ | j, n⟩ := r <;> rfl

end Server

end EglComet
