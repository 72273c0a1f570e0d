import EglComet.WorkThread.Failover
import Mathlib.Data.List.Chain
import Mathlib.Tactic.Set

/-!
What failover comes to over a whole run. Every context that a worker ever opened
is in `_redis`, still attached to its loop, or gone, and `history` counts which.
The handler moves all workers at once, so two workers are never on different
servers, and it walks through the list of servers one step at a time.
-/
namespace EglComet

namespace Failover

/-- The times at which the handler opened contexts, the last one first, how often it ran, and for
each worker the contexts that were opened and that are gone. -/
structure History where
  times : List ℤ := []
  runs : ℕ := 0
  opened : ℕ → ℕ := fun _ => 1
  closed : ℕ → ℕ := fun _ => 0

namespace History

def switches (h : History) : ℕ := h.times.length

def disconnect (h : History) (w : ℕ) : History :=
  { h with closed := Function.update h.closed w (h.closed w + 1) }

/-- Every worker opens a context, those of `opens` with success. -/
def switch (h : History) (now : ℤ) (num : ℕ) (opens : ℕ → Bool) : History :=
  { h with
    times := now :: h.times
    opened := fun w => h.opened w + if w < num ∧ opens w then 1 else 0 }

/-- What the step that `e` takes from `s` adds. -/
def record (s : Failover) (h : History) : FailoverEvent → History
  | .disconnect w | .disconnectReplaced w => h.disconnect w
  | .reconnect now opens =>
    let h := { h with runs := h.runs + 1 }
    if now - s.lastConnectTime > 10 then h.switch now s.workThreadNum opens else h
  | .command _ => h

/-- The history of a run from `s`, continued from `h`. -/
def along : Failover → History → List FailoverEvent → History
  | _, h, [] => h
  | s, h, e :: es =>
    match s.step e with
    | none => h
    | some t => along t (record s h e) es

end History

section Reopen

variable {opens : ℕ → Bool}

/-- What the loop of the handler leaves alone. -/
def settled (s : Failover) : ℕ × ℕ × ℕ × ℤ :=
  (s.workThreadNum, s.redisInfoCount, s.curConnIndex, s.lastConnectTime)

theorem settled_reopen (s : Failover) (w : ℕ) : (reopen opens s w).settled = s.settled := by
  simp only [reopen]
  split_ifs <;> rfl

theorem settled_foldl_reopen (opens : ℕ → Bool) (js : List ℕ) (s : Failover) :
    (js.foldl (reopen opens) s).settled = s.settled := by
  induction js generalizing s with
  | nil => rfl
  | cons j js ih => rw [List.foldl_cons, ih, settled_reopen]

theorem curConnIndex_reopen (s : Failover) (w : ℕ) :
    (reopen opens s w).curConnIndex = s.curConnIndex :=
  congrArg (fun r => r.2.2.1) (settled_reopen s w)

theorem redis_foldl_reopen (js : List ℕ) (s : Failover) (v : ℕ) :
    (js.foldl (reopen opens) s).redis v =
      if v ∈ js then (if opens v then .attached s.curConnIndex else .failed) else s.redis v := by
  induction js generalizing s with
  | nil => simp
  | cons j js ih =>
    rw [List.foldl_cons, ih, redis_reopen, curConnIndex_reopen]
    by_cases hj : v = j
    · subst hj
      simp
    · simp [hj]

theorem replaced_reopen (s : Failover) (w v : ℕ) :
    (reopen opens s w).replaced v =
      if v = w ∧ (s.redis v).isAttached then s.replaced v + 1 else s.replaced v := by
  have hr : (reopen opens s w).replaced = (s.asyOpenRedis (opens w) w).2.replaced := by
    simp only [reopen]
    split_ifs <;> rfl
  rw [hr]
  by_cases hv : v = w
  · subst hv
    simp [asyOpenRedis]
  · simp [asyOpenRedis, hv]

/-- A worker that the loop comes to once keeps its old context attached. -/
theorem replaced_foldl_reopen {js : List ℕ} (hjs : js.Nodup) (s : Failover) (v : ℕ) :
    (js.foldl (reopen opens) s).replaced v =
      if v ∈ js ∧ (s.redis v).isAttached then s.replaced v + 1 else s.replaced v := by
  induction js generalizing s with
  | nil => simp
  | cons j js ih =>
    obtain ⟨hj, hjs⟩ := List.nodup_cons.mp hjs
    rw [List.foldl_cons, ih hjs, redis_reopen, replaced_reopen]
    by_cases hv : v = j
    · subst hv
      simp [hj]
    · simp [hv]

theorem term_reopen (s : Failover) (w : ℕ) :
    (reopen opens s w).term = (s.term || !opens w) := by
  simp only [reopen, asyOpenRedis]
  cases opens w <;> simp

theorem term_foldl_reopen (js : List ℕ) (s : Failover) :
    (js.foldl (reopen opens) s).term = (s.term || js.any fun w => !opens w) := by
  induction js generalizing s with
  | nil => simp
  | cons j js ih => rw [List.foldl_cons, ih, term_reopen, List.any_cons, Bool.or_assoc]

end Reopen

/-- The contexts of worker `w` that are attached to its loop. -/
def liveContexts (s : Failover) (w : ℕ) : ℕ :=
  (s.redis w).isAttached.toNat + s.replaced w

/-- A worker that opens a context keeps the ones it has. -/
theorem liveContexts_foldl_reopen (opens : ℕ → Bool) {js : List ℕ} (hjs : js.Nodup)
    (s : Failover) (w : ℕ) :
    (js.foldl (reopen opens) s).liveContexts w =
      s.liveContexts w + if w ∈ js ∧ opens w then 1 else 0 := by
  simp only [liveContexts, redis_foldl_reopen, replaced_foldl_reopen hjs]
  by_cases hw : w ∈ js
  · cases hold : (s.redis w).isAttached <;> cases ho : opens w <;>
      simp [hw, RedisContext.isAttached] <;> omega
  · simp [hw]

/-- The state `s` with `n` workers and `c` servers is what the history `h` of a run since `since`
says. -/
structure Accounted (n c : ℕ) (since : ℤ) (s : Failover) (h : History) : Prop where
  num : s.workThreadNum = n
  count : s.redisInfoCount = c
  index : s.curConnIndex = h.switches % c
  last : (h.times ++ [since]).head? = some s.lastConnectTime
  pace : (h.times ++ [since]).IsChain fun later earlier => later - earlier > 10
  runs : h.switches ≤ h.runs
  agree : ∀ w < n, ∀ i, s.redis w = .attached i → i = s.curConnIndex
  failed : ∀ w < n, s.redis w = .failed → s.term = true
  contexts : ∀ w, s.liveContexts w + h.closed w = h.opened w

section Run

variable {n c : ℕ} {since : ℤ} {s t : Failover} {h : History}

theorem accounted_start (n c : ℕ) (since : ℤ) : Accounted n c since (start n c since) {} where
  num := rfl
  count := rfl
  index := (Nat.zero_mod c).symm
  last := rfl
  pace := List.isChain_singleton since
  runs := le_rfl
  agree := by
    intro w _ i hi
    exact (RedisContext.attached.inj hi).symm
  failed := by
    intro w _ hf
    exact absurd hf RedisContext.noConfusion
  contexts w := by simp [liveContexts, start, RedisContext.isAttached]

theorem Accounted.disconnect (ha : Accounted n c since s h) {w : ℕ}
    (hw : (s.redis w).isAttached = true) :
    Accounted n c since { s.redisDisconnectCallback with redis := Function.update s.redis w .freed }
      (h.disconnect w) where
  num := ha.num
  count := ha.count
  index := ha.index
  last := ha.last
  pace := ha.pace
  runs := ha.runs
  agree := by
    intro v hv i hi
    by_cases hvw : v = w
    · simp [hvw] at hi
    · exact ha.agree v hv i (by simpa [hvw] using hi)
  failed := by
    intro v hv hf
    by_cases hvw : v = w
    · simp [hvw] at hf
    · exact ha.failed v hv (by simpa [hvw] using hf)
  contexts v := by
    have hc := ha.contexts v
    by_cases hvw : v = w
    · subst hvw
      simp only [liveContexts, hw, Bool.toNat_true] at hc
      simp only [liveContexts, History.disconnect, redisDisconnectCallback, Function.update_self,
        RedisContext.isAttached, Bool.toNat_false]
      omega
    · simpa [liveContexts, History.disconnect, redisDisconnectCallback, hvw] using hc

theorem Accounted.disconnectReplaced (ha : Accounted n c since s h) {w : ℕ}
    (hw : 0 < s.replaced w) :
    Accounted n c since
      { s.redisDisconnectCallback with
        replaced := Function.update s.replaced w (s.replaced w - 1) }
      (h.disconnect w) where
  num := ha.num
  count := ha.count
  index := ha.index
  last := ha.last
  pace := ha.pace
  runs := ha.runs
  agree := ha.agree
  failed := ha.failed
  contexts v := by
    have hc := ha.contexts v
    by_cases hvw : v = w
    · subst hvw
      simp only [liveContexts] at hc
      simp only [liveContexts, History.disconnect, redisDisconnectCallback, Function.update_self]
      omega
    · simpa [liveContexts, History.disconnect, redisDisconnectCallback, hvw] using hc

/-- The handler as it opens contexts, from the state it has put the next server in. -/
theorem Accounted.switch (ha : Accounted n c since s h) {now : ℤ} {opens : ℕ → Bool}
    (hlate : now - s.lastConnectTime > 10) :
    Accounted n c since (reconnectRedis now opens { s with usr1 := false })
      ({ h with runs := h.runs + 1 }.switch now s.workThreadNum opens) := by
  rw [reconnectRedis, if_pos hlate]
  set u : Failover :=
    { s with
      usr1 := false
      lastConnectTime := now
      curConnIndex := (s.curConnIndex + 1) % s.redisInfoCount } with hudef
  have hfixed := settled_foldl_reopen opens (List.range s.workThreadNum) u
  simp only [settled, Prod.mk.injEq] at hfixed
  obtain ⟨hnum, hcount, hindex, htime⟩ := hfixed
  have hnext : u.curConnIndex = (h.switches + 1) % c := by
    rw [hudef]
    simp only [ha.index, ha.count]
    exact Nat.mod_add_mod _ _ _
  constructor
  · exact hnum.trans ha.num
  · exact hcount.trans ha.count
  · exact hindex.trans hnext
  · rw [htime]
    rfl
  · refine List.isChain_cons.mpr ⟨fun earlier he => ?_, ha.pace⟩
    obtain rfl : s.lastConnectTime = earlier := Option.some.inj (ha.last.symm.trans he)
    exact hlate
  · exact Nat.succ_le_succ ha.runs
  · intro w hw i hi
    rw [hindex]
    rw [redis_foldl_reopen, if_pos (List.mem_range.mpr (ha.num.symm ▸ hw))] at hi
    split_ifs at hi
    exact (RedisContext.attached.inj hi).symm
  · intro w hw hf
    have hmem : w ∈ List.range s.workThreadNum := List.mem_range.mpr (ha.num.symm ▸ hw)
    rw [redis_foldl_reopen, if_pos hmem] at hf
    rw [term_foldl_reopen, Bool.or_eq_true, List.any_eq_true]
    right
    refine ⟨w, hmem, ?_⟩
    cases ho : opens w with
    | false => rfl
    | true => simp [ho] at hf
  · intro w
    have hc := ha.contexts w
    have hrange : (List.range s.workThreadNum).Nodup := List.nodup_range
    have hlive := liveContexts_foldl_reopen opens hrange u w
    have hold : u.liveContexts w = s.liveContexts w := rfl
    simp only [List.mem_range] at hlive
    simp only [hlive, hold, History.switch]
    omega

/-- A run of the handler that comes too early only takes the signal. -/
theorem Accounted.early (ha : Accounted n c since s h) {now : ℤ} {opens : ℕ → Bool}
    (hearly : ¬ now - s.lastConnectTime > 10) :
    Accounted n c since (reconnectRedis now opens { s with usr1 := false })
      { h with runs := h.runs + 1 } := by
  rw [reconnectRedis, if_neg hearly]
  exact { ha with runs := Nat.le_succ_of_le ha.runs }

theorem Accounted.step {e : FailoverEvent} (ha : Accounted n c since s h)
    (ht : s.step e = some t) : Accounted n c since t (h.record s e) := by
  cases e with
  | disconnect w =>
    simp only [Failover.step, Option.ite_none_right_eq_some, Option.some.injEq] at ht
    obtain ⟨⟨-, hw⟩, rfl⟩ := ht
    exact ha.disconnect hw
  | disconnectReplaced w =>
    simp only [Failover.step, Option.ite_none_right_eq_some, Option.some.injEq] at ht
    obtain ⟨hw, rfl⟩ := ht
    exact ha.disconnectReplaced hw
  | reconnect now opens =>
    obtain rfl := Option.some.inj ht
    by_cases hlate : now - s.lastConnectTime > 10
    · rw [History.record, if_pos hlate]
      exact ha.switch hlate
    · rw [History.record, if_neg hlate]
      exact ha.early hlate
  | command w =>
    simp only [Failover.step, Option.ite_none_right_eq_some, Option.some.injEq] at ht
    obtain ⟨-, rfl⟩ := ht
    exact { ha with }

theorem Accounted.run {es : List FailoverEvent} (ha : Accounted n c since s h)
    (hr : Transition.run Failover.step s es = some t) :
    Accounted n c since t (History.along s h es) := by
  induction es generalizing s h with
  | nil =>
    obtain rfl : s = t := by simpa [Transition.run] using hr
    exact ha
  | cons e es ih =>
    obtain ⟨u, hu, hut⟩ := Option.bind_eq_some_iff.mp hr
    simp only [History.along, hu]
    exact ih (ha.step hu) hut

/-- In every run with at least one server in the list, however often and when the handler runs: the
contexts of all workers lead to the same server, which is the one that the number of switches so far
comes to and always an index of the list; a switch comes more than ten seconds after the switch
before it, or after the start, and there are no more switches than runs of the handler; a worker is
only without a context if the process has been told to end; and every context a worker opened is
attached to its loop or has disconnected. -/
theorem failover_agreement (hc : 0 < c) {es : List FailoverEvent}
    (hr : Transition.run Failover.step (start n c since) es = some t) :
    let h := History.along (start n c since) {} es
    (∀ w < n, ∀ i, t.redis w = .attached i → i = t.curConnIndex) ∧
      t.curConnIndex = h.switches % c ∧ t.curConnIndex < c ∧
      (h.times ++ [since]).IsChain (fun later earlier => later - earlier > 10) ∧
      h.switches ≤ h.runs ∧ (∀ w < n, t.redis w = .failed → t.term = true) ∧
      ∀ w, t.liveContexts w + h.closed w = h.opened w := by
  intro h
  have ha : Accounted n c since t h := (accounted_start n c since).run hr
  have hindex : t.curConnIndex < c := ha.index ▸ Nat.mod_lt _ hc
  exact ⟨ha.agree, ha.index, hindex, ha.pace, ha.runs, ha.failed, ha.contexts⟩

/-- Two workers and two servers: a context is lost, the workers move on, and the context that was
replaced at the other worker takes them back when it is lost as well. -/
def thereAndBack : List FailoverEvent :=
  [.disconnect 0, .reconnect 20 fun _ => true, .disconnectReplaced 1, .reconnect 40 fun _ => true]

theorem thereAndBack_agrees :
    ∃ t, Transition.run Failover.step (start 2 2 0) thereAndBack = some t ∧
      t.curConnIndex = 0 ∧ t.liveContexts 1 = 2 ∧
      (∀ w < 2, ∀ i, t.redis w = .attached i → i = t.curConnIndex) := by
  have hend : (Transition.run Failover.step (start 2 2 0) thereAndBack).any
      (fun t => decide (t.curConnIndex = 0 ∧ t.liveContexts 1 = 2)) = true := by decide
  obtain ⟨t, ht, hp⟩ := (Option.any_eq_true _ _).mp hend
  obtain ⟨hindex, hlive⟩ := of_decide_eq_true hp
  exact ⟨t, ht, hindex, hlive, (failover_agreement (by decide) ht).1⟩

end Run

end Failover

end EglComet
