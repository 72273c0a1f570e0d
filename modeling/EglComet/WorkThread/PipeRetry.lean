import EglComet.WorkThread.Dispatch

/-!
Writes to a message pipe that fail with `EAGAIN` before one succeeds. The retry
loop of `notify_new_msg` compares the value returned by `write` with `EAGAIN`
and never repeats, so a first failure is final for the worker it is made at. A
record offered to all workers survives as long as fewer writes fail than there
are workers that have its recipient.
-/
namespace EglComet

open Protobuf

/-- The writes from number `n` on fail `k` times with `EAGAIN`, and then one is complete. -/
structure BusyPipe (env : Env) (n k : ℕ) : Prop where
  again : ∀ i < k, env.write (n + i) = .again
  full : env.write (n + k) = .full

theorem BusyPipe.value_eq_iff {env : Env} {n k : ℕ} (h : BusyPipe env n k) :
    (env.write n).value = 8 ↔ k = 0 := by
  constructor
  · intro hv
    by_contra hk
    have hagain : env.write n = .again := h.again 0 (Nat.pos_of_ne_zero hk)
    rw [hagain] at hv
    exact absurd hv (by decide)
  · rintro rfl
    rw [show env.write n = .full from h.full]
    rfl

theorem BusyPipe.next {env : Env} {n k : ℕ} (h : BusyPipe env n (k + 1)) :
    BusyPipe env (n + 1) k where
  again i hi := by
    rw [Nat.add_right_comm, Nat.add_assoc]
    exact h.again (i + 1) (by omega)
  full := by
    rw [Nat.add_right_comm, Nat.add_assoc]
    exact h.full

namespace Server

/-- The message pipes after a record was put into the one of worker `j`, and only there. -/
structure EnqueuedAt (s t : Server) (j : ℕ) (d : TransData) : Prop where
  own : (t.workThread j).newMsgFd = (s.workThread j).newMsgFd ++ [d]
  others : ∀ i ≠ j, (t.workThread i).newMsgFd = (s.workThread i).newMsgFd

/-- The number of workers that have an id. -/
def holders (s : Server) (id : UInt64) : ℕ :=
  (List.range s.workThreadNum).countP fun j => decide (id ∈ (s.workThread j).subMap)

theorem enqueuedAt_enqueue {s t : Server} (h : t.workThread = s.workThread) (j : ℕ)
    (d : TransData) : EnqueuedAt s (t.enqueue j d) j d := by
  constructor
  · rw [workThread_enqueue, if_pos rfl, h]
  · intro i hi
    rw [workThread_enqueue, if_neg hi, h, List.append_nil]

theorem not_enqueuedAt {s t : Server} (h : t.workThread = s.workThread) (j : ℕ) (d : TransData) :
    ¬ EnqueuedAt s t j d := by
  intro he
  have hown := he.own
  rw [h] at hown
  simp at hown

theorem taker_isSome_of_busy {env : Env} (worker : ℕ → WorkThread) (id : UInt64) (js : List ℕ)
    {n k : ℕ} (h : BusyPipe env n k) :
    (taker env worker id js n).1.isSome ↔
      k < js.countP fun j => decide (id ∈ (worker j).subMap) := by
  rw [taker_isSome_iff]
  constructor
  · rintro ⟨i, hi, hfull⟩
    by_contra hk
    have hagain := h.again i (by omega)
    simp [hfull] at hagain
  · intro hk
    exact ⟨k, hk, h.full⟩

/-- A record for an id the worker has is handed over and accepted if the first write is complete. -/
theorem notifyNewMsg_busy {env : Env} {s : Server} {k j : ℕ} {d : TransData}
    (h : BusyPipe env s.writes k) (hj : d.toId ∈ (s.workThread j).subMap) :
    (notifyNewMsg env s j d).1 = true ∧ EnqueuedAt s (notifyNewMsg env s j d).2 j d ↔ k = 0 := by
  rw [notifyNewMsg_eq, if_pos hj]
  constructor
  · intro hsent
    by_contra hk
    rw [if_neg (mt h.value_eq_iff.mp hk)] at hsent
    simp at hsent
  · intro hk
    rw [if_pos (h.value_eq_iff.mpr hk)]
    constructor
    · rfl
    · apply enqueuedAt_enqueue
      rfl

theorem sendMessage_busy {env : Env} {s : Server} {k : ℕ} (h : BusyPipe env s.writes k)
    (d : TransData) :
    (s.sendMessage env d).1 = true ∧ (∃ j, EnqueuedAt s (s.sendMessage env d).2 j d) ↔
      k < s.holders d.toId := by
  rw [holders, ← taker_isSome_of_busy s.workThread d.toId (List.range s.workThreadNum) h,
    sendMessage, offer_eq]
  generalize taker env s.workThread d.toId (List.range s.workThreadNum) s.writes = r
  obtain ⟨_ | j, n⟩ := r
  · simp
  · simp only [Option.isSome_some, true_and, iff_true]
    use j
    apply enqueuedAt_enqueue
    rfl

theorem transmit_busy {env : Env} {s : Server} {k : ℕ} (h : BusyPipe env s.writes k)
    (d : TransData) : (∃ j, EnqueuedAt s (s.transmit env d) j d) ↔ k < s.holders d.toId := by
  rw [holders, ← taker_isSome_of_busy s.workThread d.toId (List.range s.workThreadNum) h,
    transmit_eq]
  generalize taker env s.workThread d.toId (List.range s.workThreadNum) s.writes = r
  obtain ⟨_ | j, n⟩ := r
  · simp only [Option.isSome_none, Bool.false_eq_true, iff_false, not_exists]
    intro j
    apply not_enqueuedAt
    rfl
  · simp only [Option.isSome_some, iff_true]
    use j
    apply enqueuedAt_enqueue
    rfl

theorem notifyDelId_busy {env : Env} {s : Server} {k j : ℕ} {id : UInt64}
    (h : BusyPipe env s.writes k) (hj : id ∈ (s.workThread j).subMap) :
    (∃ d : TransData, d.toId = id ∧ d.msgType = .delId ∧
      EnqueuedAt s (notifyDelId env id s j) j d) ↔ k = 0 := by
  by_cases hk : k = 0
  · simp only [notifyDelId, if_pos hj, notifyNewMsg_eq, if_pos (h.value_eq_iff.mpr hk), ↓reduceIte,
      hk, iff_true]
    refine ⟨_, ?_, ?_, enqueuedAt_enqueue ?_ j _⟩
    all_goals rfl
  · simp only [notifyDelId, if_pos hj, notifyNewMsg_eq, if_neg (mt h.value_eq_iff.mp hk), hk,
      Bool.false_eq_true, ↓reduceIte, iff_false]
    rintro ⟨d, -, -, hd⟩
    revert hd
    apply not_enqueuedAt
    rfl

section Callbacks

variable {σ : Type} (R : Runtime σ)

/-- Which failures with `EAGAIN` lose nothing. A worker that has the id is told, once and with
success, exactly if no write fails; so is a delete-id command. A relayed record that is offered to
all workers is put into a pipe exactly if fewer writes fail than workers have the recipient. -/
theorem busy_pipe_loses_nothing_iff (env : Env) (s : Server) (k : ℕ)
    (h : BusyPipe env s.writes k) :
    (∀ (j : ℕ) (d : TransData), d.toId ∈ (s.workThread j).subMap →
      ((notifyNewMsg env s j d).1 = true ∧ EnqueuedAt s (notifyNewMsg env s j d).2 j d ↔ k = 0)) ∧
    (∀ d : TransData,
      (s.sendMessage env d).1 = true ∧ (∃ j, EnqueuedAt s (s.sendMessage env d).2 j d) ↔
        k < s.holders d.toId) ∧
    (∀ (d : Relay) (reply : RedisReply), reply.type = .string →
      ((∃ t j, s.redisTransCallback R env d (some reply) = some t ∧
        EnqueuedAt s t j d.toTransData) ↔ k < s.holders d.toId)) ∧
    ∀ (j : ℕ) (id : UInt64), id ∈ (s.workThread j).subMap →
      ((∃ d : TransData, d.toId = id ∧ d.msgType = .delId ∧
        EnqueuedAt s (notifyDelId env id s j) j d) ↔ k = 0) := by
  refine ⟨?_, sendMessage_busy h, ?_, ?_⟩
  · intro j d hj
    exact notifyNewMsg_busy h hj
  · intro d reply hreply
    rw [← transmit_busy h]
    simp [redisTransCallback, hreply]
  · intro j id hj
    exact notifyDelId_busy h hj

end Callbacks

end Server

/-- A client that is logged in with id 7 on the only worker. -/
def oneClient : List (Env × Event) := connect 0 1 ++ login 0 1 7

/-- An environment in which the first write after the accepted connection finds the pipe full. -/
def fullPipeEnv : Env := { plainEnv 1 with write := fun n => if n = 1 then .again else .full }

theorem busy_pipe_first_write :
    ∃ s, s.Reached Wire.runtime (fun _ _ => True) ∧ BusyPipe (plainEnv 1) s.writes 0 ∧
      (s.sendMessage (plainEnv 1) { toId := 7 }).1 = true ∧
      ∃ j, Server.EnqueuedAt s (s.sendMessage (plainEnv 1) { toId := 7 }).2 j { toId := 7 } := by
  obtain ⟨s, hs, hone⟩ := Server.exists_reached Wire.runtime 1 oneClient (fun _ _ => True)
    (fun s => s.holders 7 = 1) (.of_forall (by simp) _) (by decide +kernel)
  have hbusy : BusyPipe (plainEnv 1) s.writes 0 := ⟨by simp, rfl⟩
  refine ⟨s, hs, hbusy, ?_⟩
  apply ((Server.busy_pipe_loses_nothing_iff Wire.runtime (plainEnv 1) s 0 hbusy).2.1 _).mpr
  rw [hone]
  decide

/-- One failure with `EAGAIN` before a full write: the client is online, and neither the message
nor the delete-id command reaches the pipe. -/
theorem busy_pipe_drops :
    ∃ s, s.Reached Wire.runtime (fun _ _ => True) ∧ BusyPipe fullPipeEnv s.writes 1 ∧
      7 ∈ (s.workThread 0).subMap ∧
      (Server.notifyNewMsg fullPipeEnv s 0 { toId := 7 }).1 = false ∧
      (s.sendMessage fullPipeEnv { toId := 7 }).1 = false ∧
      (¬ ∃ j, Server.EnqueuedAt s (s.transmit fullPipeEnv { toId := 7 }) j { toId := 7 }) ∧
      ¬ ∃ d : TransData, d.toId = 7 ∧ d.msgType = .delId ∧
        Server.EnqueuedAt s (Server.notifyDelId fullPipeEnv 7 s 0) 0 d := by
  obtain ⟨s, hs, hwrites, honline, hone⟩ := Server.exists_reached Wire.runtime 1 oneClient
    (fun _ _ => True) (fun s => s.writes = 1 ∧ 7 ∈ (s.workThread 0).subMap ∧ s.holders 7 = 1)
    (.of_forall (by simp) _) (by decide +kernel)
  have hbusy : BusyPipe fullPipeEnv s.writes 1 := by
    rw [hwrites]
    exact ⟨by decide, by decide⟩
  have hfail : ¬ (fullPipeEnv.write s.writes).value = 8 := by
    rw [hbusy.value_eq_iff]
    decide
  refine ⟨s, hs, hbusy, honline, ?_, ?_, ?_, ?_⟩
  · rw [Server.notifyNewMsg_eq, if_pos honline, if_neg hfail]
  · rw [Server.sendMessage_fst, ← Bool.not_eq_true, Server.taker_isSome_of_busy _ _ _ hbusy]
    exact not_lt_of_ge hone.le
  · rw [Server.transmit_busy hbusy]
    exact not_lt_of_ge hone.le
  · rw [Server.notifyDelId_busy hbusy honline]
    decide

end EglComet
