import EglComet.Library.Transition
import Mathlib.Data.List.Range
import Mathlib.Logic.Function.Basic
import Mathlib.Tactic.SplitIfs

/-!
Failover between redis servers. hiredis frees a context after its disconnect
callback, which raises SIGUSR1; the handler `reconnect_redis` of the main thread
opens a new context for every worker, at most once in ten seconds. A context that
is replaced while it is connected stays attached to the loop of its worker and
raises the signal once more when it disconnects. A run of the handler that comes
too early uses up the signal and leaves the freed context in place.
-/
namespace EglComet

/-- What `_redis` of a worker points to: a context opened to one of the configured servers, one that
`redisAsyncConnect` returned with an error, or memory that was freed. -/
inductive RedisContext where
  | attached (server : ℕ)
  | failed
  | freed
  deriving DecidableEq, Repr

def RedisContext.isAttached : RedisContext → Bool
  | .attached _ => true
  | _ => false

/-- The part of the server that failover is about. `replaced` counts the contexts of a worker that
are still attached to its loop but no longer in `_redis`, and `freedUses` the commands that were
given to a freed context. -/
structure Failover where
  workThreadNum : ℕ
  redisInfoCount : ℕ
  curConnIndex : ℕ := 0
  lastConnectTime : ℤ
  redis : ℕ → RedisContext := fun _ => .attached 0
  replaced : ℕ → ℕ := fun _ => 0
  usr1 : Bool := false
  term : Bool := false
  freedUses : ℕ := 0

/-- A context disconnects, the handler runs, or a worker issues a command. The handler comes with
the time it reads and with what `redisAsyncConnect` comes to for each worker. -/
inductive FailoverEvent where
  | disconnect (w : ℕ)
  | disconnectReplaced (w : ℕ)
  | reconnect (now : ℤ) (opens : ℕ → Bool)
  | command (w : ℕ)

namespace Failover

/-- `redis_disconnect_callback`, after which hiredis frees the context. -/
def redisDisconnectCallback (s : Failover) : Failover := { s with usr1 := true }

/-- `asy_open_redis` of worker `w`. -/
def asyOpenRedis (opens : Bool) (s : Failover) (w : ℕ) : Bool × Failover :=
  (opens, { s with
    redis := Function.update s.redis w (if opens then .attached s.curConnIndex else .failed)
    replaced := Function.update s.replaced w
      (if (s.redis w).isAttached then s.replaced w + 1 else s.replaced w) })

/-- One turn of the loop of `reconnect_redis`: a worker whose context cannot be opened makes the
process end itself. -/
def reopen (opens : ℕ → Bool) (s : Failover) (w : ℕ) : Failover :=
  let r := s.asyOpenRedis (opens w) w
  if !r.1 then { r.2 with term := true } else r.2

def reconnectRedis (now : ℤ) (opens : ℕ → Bool) (s : Failover) : Failover :=
  if now - s.lastConnectTime > 10 then
    (List.range s.workThreadNum).foldl (reopen opens)
      { s with
        lastConnectTime := now
        curConnIndex := (s.curConnIndex + 1) % s.redisInfoCount }
  else s

/-- `start_work_thread`: every worker has opened a context to the first server. -/
def start (workThreadNum redisInfoCount : ℕ) (now : ℤ) : Failover where
  workThreadNum := workThreadNum
  redisInfoCount := redisInfoCount
  lastConnectTime := now

def Started (s : Failover) : Prop :=
  ∃ workThreadNum redisInfoCount now, s = start workThreadNum redisInfoCount now

theorem start_started (workThreadNum redisInfoCount : ℕ) (now : ℤ) :
    (start workThreadNum redisInfoCount now).Started := ⟨workThreadNum, redisInfoCount, now, rfl⟩

/-- The handler may run more often than the signal was raised; a run of it uses up the signal. -/
def step (s : Failover) : FailoverEvent → Option Failover
  | .disconnect w =>
    if w < s.workThreadNum ∧ (s.redis w).isAttached then
      some { s.redisDisconnectCallback with redis := Function.update s.redis w .freed }
    else none
  | .disconnectReplaced w =>
    if 0 < s.replaced w then
      some { s.redisDisconnectCallback with
        replaced := Function.update s.replaced w (s.replaced w - 1) }
    else none
  | .reconnect now opens => some (reconnectRedis now opens { s with usr1 := false })
  | .command w =>
    if w < s.workThreadNum then
      some { s with freedUses := if s.redis w = .freed then s.freedUses + 1 else s.freedUses }
    else none

/-- No worker has a freed context. -/
def NoneFreed (s : Failover) : Prop := ∀ w < s.workThreadNum, s.redis w ≠ .freed

instance (s : Failover) : Decidable s.NoneFreed := Nat.decidableBallLT _ _

/-- A run of the handler that finds a freed context comes more than ten seconds after the last
time the contexts were opened. -/
def Timely (s : Failover) (e : FailoverEvent) : Prop :=
  ∀ now opens, e = .reconnect now opens → ¬ s.NoneFreed → now - s.lastConnectTime > 10

section Handler

variable {s t : Failover} {opens : ℕ → Bool} {now : ℤ}

theorem redis_reopen (s : Failover) (w v : ℕ) :
    (reopen opens s w).redis v =
      if v = w then (if opens w then .attached s.curConnIndex else .failed) else s.redis v := by
  have hr : (reopen opens s w).redis = (s.asyOpenRedis (opens w) w).2.redis := by
    simp only [reopen]
    split_ifs <;> rfl
  rw [hr]
  exact Function.update_apply _ _ _ _

theorem reopen_ne_freed (s : Failover) (w v : ℕ) (h : v = w ∨ s.redis v ≠ .freed) :
    (reopen opens s w).redis v ≠ .freed := by
  rw [redis_reopen]
  split_ifs with hv ho
  · exact RedisContext.noConfusion
  · exact RedisContext.noConfusion
  · exact h.resolve_left hv

/-- The loop leaves no freed context to the workers it comes to. -/
theorem foldl_reopen_ne_freed (js : List ℕ) (s : Failover) (v : ℕ)
    (h : v ∈ js ∨ s.redis v ≠ .freed) : (js.foldl (reopen opens) s).redis v ≠ .freed := by
  induction js generalizing s with
  | nil => exact h.resolve_left List.not_mem_nil
  | cons j js ih =>
    rw [List.foldl_cons]
    apply ih
    rcases h with hv | hv
    · rcases List.mem_cons.mp hv with rfl | hv
      · exact Or.inr (reopen_ne_freed s v v (Or.inl rfl))
      · exact Or.inl hv
    · exact Or.inr (reopen_ne_freed s j v (Or.inr hv))

theorem workThreadNum_foldl_reopen (js : List ℕ) (s : Failover) :
    (js.foldl (reopen opens) s).workThreadNum = s.workThreadNum := by
  induction js generalizing s with
  | nil => rfl
  | cons j js ih =>
    rw [List.foldl_cons, ih]
    simp only [reopen]
    split_ifs <;> rfl

theorem workThreadNum_reconnectRedis (s : Failover) :
    (reconnectRedis now opens s).workThreadNum = s.workThreadNum := by
  unfold reconnectRedis
  split_ifs
  · exact workThreadNum_foldl_reopen _ _
  · rfl

/-- A run of the handler leaves no freed context exactly if it is late enough or there was none. -/
theorem noneFreed_reconnectRedis_iff :
    (reconnectRedis now opens s).NoneFreed ↔ now - s.lastConnectTime > 10 ∨ s.NoneFreed := by
  by_cases hlate : now - s.lastConnectTime > 10
  · refine iff_of_true (fun w hw => ?_) (Or.inl hlate)
    rw [workThreadNum_reconnectRedis] at hw
    rw [reconnectRedis, if_pos hlate]
    exact foldl_reopen_ne_freed _ _ w (Or.inl (List.mem_range.mpr hw))
  · rw [reconnectRedis, if_neg hlate]
    exact ⟨Or.inr, fun h => h.resolve_left hlate⟩

/-- A freed context comes with a signal that is still pending. -/
def Announced (s : Failover) : Prop := s.usr1 = false → s.NoneFreed

theorem Announced.step {e : FailoverEvent} (h : s.Announced) (hok : s.Timely e)
    (ht : s.step e = some t) : t.Announced := by
  cases e with
  | disconnect w =>
    simp only [Failover.step, Option.ite_none_right_eq_some, Option.some.injEq] at ht
    obtain ⟨-, rfl⟩ := ht
    intro hu
    simp [redisDisconnectCallback] at hu
  | disconnectReplaced w =>
    simp only [Failover.step, Option.ite_none_right_eq_some, Option.some.injEq] at ht
    obtain ⟨-, rfl⟩ := ht
    intro hu
    simp [redisDisconnectCallback] at hu
  | reconnect now opens =>
    obtain rfl := Option.some.inj ht
    intro _
    rw [noneFreed_reconnectRedis_iff]
    by_cases hs : s.NoneFreed
    · exact Or.inr hs
    · exact Or.inl (hok now opens rfl hs)
  | command w =>
    simp only [Failover.step, Option.ite_none_right_eq_some, Option.some.injEq] at ht
    obtain ⟨-, rfl⟩ := ht
    exact h

end Handler

/-- A run of the handler leaves no freed context exactly if it comes more than ten seconds after the
last one that opened contexts, or found none. In runs whose handlers are late enough whenever they
find one, no worker has a freed context while no signal is pending, and no command is given to
one then. -/
theorem freed_context_pending (s : Failover) :
    (∀ (now : ℤ) (opens : ℕ → Bool),
      (reconnectRedis now opens s).NoneFreed ↔ now - s.lastConnectTime > 10 ∨ s.NoneFreed) ∧
    (Transition.Reach step Started Timely s → s.usr1 = false → s.NoneFreed ∧
      ∀ w t, s.step (.command w) = some t → t.freedUses = s.freedUses) := by
  constructor
  · exact fun _ _ => noneFreed_reconnectRedis_iff
  · intro hs hu
    have hinv : s.Announced := by
      apply Transition.Reach.invariant (P := Announced) _ _ hs
      · rintro s ⟨num, count, now, rfl⟩ - w -
        exact RedisContext.noConfusion
      · exact fun s e t h hok ht => h.step hok ht
    refine ⟨hinv hu, fun w t ht => ?_⟩
    simp only [step, Option.ite_none_right_eq_some, Option.some.injEq] at ht
    obtain ⟨hw, rfl⟩ := ht
    exact if_neg (hinv hu w hw)

/-- The first of two workers loses its context, and the handler runs twenty seconds after the
start. -/
def lateFailover : List FailoverEvent := [.disconnect 0, .reconnect 20 fun _ => true]

theorem lateFailover_live :
    ∃ s, Transition.Reach step Started Timely s ∧ s.usr1 = false ∧ s.replaced 1 = 1 ∧
      s.NoneFreed := by
  have hok : Transition.RunOk step Timely (start 2 2 0) lateFailover := by
    refine ⟨by simp [Timely], fun t ht => ⟨?_, fun _ _ => trivial⟩⟩
    rintro now opens h -
    obtain ⟨rfl, -⟩ : 20 = now ∧ _ := by simpa using h
    have htime : t.lastConnectTime = 0 := by
      obtain rfl := Option.some.inj ht
      rfl
    rw [htime]
    decide
  obtain ⟨s, hs, hp⟩ := Transition.Reach.exists_of_run
    (P := fun s : Failover => s.usr1 = false ∧ s.replaced 1 = 1) (start_started 2 2 0) hok
    (by decide)
  exact ⟨s, hs, hp.1, hp.2, ((freed_context_pending s).2 hs hp.1).1⟩

/-- The handler runs five seconds after the start, and the worker issues a command. -/
def earlyFailover : List FailoverEvent :=
  [.disconnect 0, .reconnect 5 fun _ => true, .command 0]

/-- The signal is used up, and the next command of the worker is given to freed memory. -/
theorem earlyFailover_uses_freed :
    ∃ s, Transition.Reach step Started (fun _ _ => True) s ∧ s.usr1 = false ∧ ¬ s.NoneFreed ∧
      s.freedUses = 1 := by
  have hok : Transition.RunOk step (fun _ _ => True) (start 2 2 0) earlyFailover :=
    .of_forall (by simp) _
  exact Transition.Reach.exists_of_run (start_started 2 2 0) hok (by decide)

end Failover

end EglComet
