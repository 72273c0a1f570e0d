import EglComet.WorkThread.NewConn

/-!
The end of the server. `close_server` writes a stop command to one worker after
another and waits for each to leave its loop. The main thread runs no other
callback meanwhile, so what stands in front of the command in the pipe decides
whether the worker ever acts on it: `notify_new_conn_callback` takes eleven items
out of the pipe and handles ten of them.
-/
namespace EglComet

open Protobuf

/-- The callbacks of the main thread, which is busy in `close_server`. -/
def Event.ofMain : Event → Bool
  | .acceptConn _ | .timer | .stop _ => true
  | _ => false

/-- The main thread notifies the next worker, or joins it, or a worker runs a callback. -/
inductive CloseEvent where
  | notify (env : Env)
  | join
  | callback (x : Env × Event)

/-- The step is a run of `notify_new_conn_callback` in worker `w`. -/
def CloseEvent.looks (w : ℕ) : CloseEvent → Bool
  | .callback x => x.2 == .newConn w
  | _ => false

section Items

variable {items : List ℤ}

theorem unreadItems_of_notMem {turns : ℕ} (h : -1 ∉ items.take turns) :
    unreadItems turns items = items.drop (turns + 1) := by
  induction turns generalizing items with
  | zero => cases items <;> rfl
  | succ turns ih =>
    cases items with
    | nil => rfl
    | cons data rest =>
      rw [List.take_succ_cons, List.mem_cons, not_or] at h
      rw [unreadItems, if_neg (Ne.symm h.1), ih h.2, List.drop_succ_cons]

theorem stop_mem_handledItems (turns : ℕ) (items : List ℤ) :
    -1 ∈ handledItems turns items ↔ -1 ∈ items.take turns := by
  fun_induction handledItems turns items with
  | case1 | case2 => simp
  | case3 turns data rest hpos ih =>
    have hne : (-1 : ℤ) ≠ data := by omega
    simp [hne, ih]
  | case4 => simp
  | case5 turns rest hpos hstop ih => simp [ih]
  | case6 turns data rest hpos hstop hsweep ih => simp [Ne.symm hstop, ih]

/-- A stop command behind `items` is among the first ten after `k` times eleven items are gone
exactly if it falls into the batch after these and is not its eleventh item. -/
theorem stop_mem_batch (hn : -1 ∉ items) (k : ℕ) :
    -1 ∈ ((items ++ [-1]).drop (11 * k)).take 10 ↔
      items.length % 11 ≠ 10 ∧ items.length / 11 = k := by
  have hdrop : (items ++ [-1]).drop (11 * k) =
      items.drop (11 * k) ++ if 11 * k ≤ items.length then [-1] else [] := by
    rw [List.drop_append]
    split_ifs with hk
    · rw [Nat.sub_eq_zero_of_le hk, List.drop_zero]
    · have hnone : [(-1 : ℤ)].drop (11 * k - items.length) = [] := by
        apply List.drop_eq_nil_of_le
        rw [List.length_singleton]
        omega
      rw [hnone]
  have htake : -1 ∉ (items.drop (11 * k)).take 10 := fun h =>
    hn (List.mem_of_mem_drop (List.mem_of_mem_take h))
  rw [hdrop, List.take_append, List.mem_append, or_iff_right htake, List.length_drop]
  split_ifs with hk
  · cases hm : 10 - (items.length - 11 * k) with
    | zero =>
      simp only [List.take_zero, List.not_mem_nil, false_iff]
      omega
    | succ m =>
      simp only [List.take_succ_cons, List.mem_cons, true_or, true_iff]
      omega
  · simp only [List.take_nil, List.not_mem_nil, false_iff]
    omega

end Items

namespace Server

/-- `close_server` with the first `joined` workers joined, and the next one notified or not. -/
structure Closing where
  server : Server
  joined : ℕ := 0
  told : Bool := false

namespace Closing

variable {σ : Type} (R : Runtime σ)

/-- A step of the process while `close_server` runs. A worker is joined when its loop has ended. -/
def step (c : Closing) : CloseEvent → Option Closing
  | .notify env =>
    if c.joined < c.server.workThreadNum ∧ c.told = false then
      some { c with server := notifyNewConn env (-1) c.server c.joined, told := true }
    else none
  | .join =>
    if c.told = true ∧ (c.server.workThread c.joined).stopped = true then
      some { c with joined := c.joined + 1, told := false }
    else none
  | .callback x =>
    if x.2.ofMain then none
    else (Server.step R c.server x).map fun t => { c with server := t }

/-- The stop command was written behind `items` to worker `w`, which has looked into its pipe `k`
times since. -/
structure Draining (items : List ℤ) (w k : ℕ) (c : Closing) : Prop where
  told : c.told = true ∧ c.joined = w ∨ w < c.joined
  stopped : (c.server.workThread w).stopped =
    decide (items.length % 11 ≠ 10 ∧ items.length / 11 < k)
  pipe : (c.server.workThread w).stopped = false →
    (c.server.workThread w).newConnFd = (items ++ [-1]).drop (11 * k)
  joined : w < c.joined → (c.server.workThread w).stopped = true

section Drain

variable {R} {items : List ℤ} {w k : ℕ} {c c' t : Closing}

/-- Steps that leave the pipe and the flag of the worker alone. -/
theorem Draining.keep (h : c.Draining items w k)
    (htold : c'.told = true ∧ c'.joined = w ∨ w < c'.joined)
    (hj : w < c'.joined → w < c.joined ∨ (c.server.workThread w).stopped = true)
    (hc : (c'.server.workThread w).newConnFd = (c.server.workThread w).newConnFd ∧
      (c'.server.workThread w).stopped = (c.server.workThread w).stopped) :
    c'.Draining items w k where
  told := htold
  stopped := hc.2.trans h.stopped
  pipe hs := hc.1.trans (h.pipe (hc.2 ▸ hs))
  joined hw := by
    rw [hc.2]
    exact (hj hw).elim h.joined id

/-- The worker looks into its pipe. -/
theorem Draining.look (h : c.Draining items w k) (hn : -1 ∉ items) (env : Env)
    (hs : (c.server.workThread w).stopped = false) :
    Closing.Draining items w (k + 1)
      { c with server := c.server.notifyNewConnCallback env w } := by
  have hpipe := h.pipe hs
  have hearly : ¬ (items.length % 11 ≠ 10 ∧ items.length / 11 < k) := by
    simpa [h.stopped] using hs
  have hstop : ((c.server.notifyNewConnCallback env w).workThread w).stopped =
      decide (items.length % 11 ≠ 10 ∧ items.length / 11 = k) := by
    rw [notifyNewConnCallback_eq]
    simp only [setNewConnFd, modify, Function.update_self, stopped_foldl_handleItem, hs,
      Bool.false_or, stop_mem_handledItems, hpipe, stop_mem_batch hn]
  constructor
  · exact h.told
  · rw [hstop]
    simp only [decide_eq_decide]
    omega
  · intro hrun
    have hbatch : -1 ∉ ((items ++ [-1]).drop (11 * k)).take 10 := by
      rw [stop_mem_batch hn]
      simpa [hstop] using hrun
    rw [notifyNewConnCallback_eq]
    simp only [setNewConnFd, modify, Function.update_self, hpipe]
    rw [unreadItems_of_notMem hbatch, List.drop_drop]
    rfl
  · intro hw
    exact absurd (h.joined hw) (by simp [hs])

theorem Draining.step {e : CloseEvent} (h : c.Draining items w k) (hn : -1 ∉ items)
    (ht : c.step R e = some t) : t.Draining items w (k + (e.looks w).toNat) := by
  cases e with
  | notify env =>
    simp only [Closing.step, Option.ite_none_right_eq_some, Option.some.injEq] at ht
    obtain ⟨⟨-, htold⟩, rfl⟩ := ht
    have hw : w < c.joined := by simpa [htold] using h.told
    refine h.keep (Or.inr hw) (fun _ => Or.inl hw) ?_
    have hne : w ≠ c.joined := hw.ne
    simp only [notifyNewConn]
    split_ifs <;> simp [modify, hne]
  | join =>
    simp only [Closing.step, Option.ite_none_right_eq_some, Option.some.injEq] at ht
    obtain ⟨⟨-, hstop⟩, rfl⟩ := ht
    refine h.keep (Or.inr ?_) (fun _ => ?_) ⟨rfl, rfl⟩
    · rcases h.told with ⟨-, hj⟩ | hj <;> simp only <;> omega
    · rcases h.told with ⟨-, hj⟩ | hj
      · exact Or.inr (hj ▸ hstop)
      · exact Or.inl hj
  | callback x =>
    simp only [Closing.step, Option.ite_none_left_eq_some, Option.map_eq_some_iff] at ht
    obtain ⟨hmain, u, hu, rfl⟩ := ht
    obtain ⟨env, ev⟩ := x
    by_cases hx : ev = .newConn w
    · subst hx
      simp only [Server.step, Option.ite_none_right_eq_some, Option.some.injEq, runs,
        Bool.and_eq_true, Bool.not_eq_eq_eq_not, Bool.not_true] at hu
      obtain ⟨⟨-, hs⟩, rfl⟩ := hu
      simpa [CloseEvent.looks] using h.look hn env hs
    · have hzero : (CloseEvent.callback (env, ev)).looks w = false := by
        simpa [CloseEvent.looks] using hx
      rw [hzero]
      refine h.keep h.told Or.inl ?_
      rcases (step_apartFromConns R hu).conns w with hc | hc
      · exact hc
      · cases ev <;> simp_all [ApartFromConns, Event.feeds, Event.ofMain]

theorem Draining.run {es : List CloseEvent} (h : c.Draining items w k) (hn : -1 ∉ items)
    (hr : Transition.run (Closing.step R) c es = some t) :
    t.Draining items w (k + es.countP (CloseEvent.looks w)) := by
  induction es generalizing c k with
  | nil =>
    obtain rfl : c = t := by simpa [Transition.run] using hr
    exact h
  | cons e es ih =>
    obtain ⟨u, hu, hut⟩ := Option.bind_eq_some_iff.mp hr
    have hlast := ih (h.step hn hu) hut
    rw [List.countP_cons]
    cases hl : e.looks w <;>
      simpa [hl, Nat.add_assoc, Nat.add_comm 1] using hlast

/-- The stop command has just been written to a running worker. -/
theorem draining_notify {env : Env} (hrun : c.server.runs c.joined = true)
    (hwrite : env.write c.server.writes = .full) (hc : c.step R (.notify env) = some c') :
    c'.Draining (c.server.workThread c.joined).newConnFd c.joined 0 := by
  simp only [Closing.step, Option.ite_none_right_eq_some, Option.some.injEq] at hc
  obtain ⟨-, rfl⟩ := hc
  simp only [runs, Bool.and_eq_true, Bool.not_eq_eq_eq_not, Bool.not_true] at hrun
  constructor
  · exact Or.inl ⟨rfl, rfl⟩
  · simp [notifyNewConn, hwrite, modify, hrun.2]
  · intro _
    simp [notifyNewConn, hwrite, modify]
  · exact fun hw => absurd hw (lt_irrefl _)

/-- Let `close_server` write its stop command to a running worker behind `len` other items. However
the callbacks of all workers go on, the worker has left its loop exactly if `len % 11` is not ten
and it has looked into its pipe more than `len / 11` times, and `close_server` is not past the
worker before that; with `len % 11 = 10` the command is lost and `close_server` waits for ever. -/
theorem close_server_joins_iff {env : Env} {es : List CloseEvent}
    (hrun : c.server.runs c.joined = true) (hwrite : env.write c.server.writes = .full)
    (hn : -1 ∉ (c.server.workThread c.joined).newConnFd) (hc : c.step R (.notify env) = some c')
    (hr : Transition.run (Closing.step R) c' es = some t) :
    let len := (c.server.workThread c.joined).newConnFd.length
    ((t.server.workThread c.joined).stopped = true ↔
      len % 11 ≠ 10 ∧ len / 11 < es.countP (CloseEvent.looks c.joined)) ∧
      (c.joined < t.joined → len % 11 ≠ 10 ∧ len / 11 < es.countP (CloseEvent.looks c.joined)) := by
  intro len
  have hd := (draining_notify hrun hwrite hc).run hn hr
  have hiff : (t.server.workThread c.joined).stopped = true ↔
      len % 11 ≠ 10 ∧ len / 11 < es.countP (CloseEvent.looks c.joined) := by
    rw [hd.stopped, decide_eq_true_eq, Nat.zero_add]
  exact ⟨hiff, fun hj => hiff.mp (hd.joined hj)⟩

/-- Worker 0 has `len` descriptors to take when the server is closed. -/
def queuedAtClose (len : ℕ) : Closing where
  server := (deployment 1).setNewConnFd 0 (List.replicate len 5)

/-- The worker looks twice and is joined. -/
def lookTwice : List CloseEvent :=
  [.callback (plainEnv 1, .newConn 0), .callback (plainEnv 2, .newConn 0), .join]

theorem lookTwice_joins :
    ∃ c' t, (queuedAtClose 12).step Wire.runtime (.notify (plainEnv 1)) = some c' ∧
      Transition.run (Closing.step Wire.runtime) c' lookTwice = some t ∧ t.joined = 1 ∧
      (t.server.workThread 0).stopped = true := by
  have hend : (((queuedAtClose 12).step Wire.runtime (.notify (plainEnv 1))).bind fun c' =>
      Transition.run (Closing.step Wire.runtime) c' lookTwice).any
      (fun t => decide (t.joined = 1)) = true := by decide +kernel
  obtain ⟨t, ht, hp⟩ := (Option.any_eq_true _ _).mp hend
  obtain ⟨c', hc, hr⟩ := Option.bind_eq_some_iff.mp ht
  have hjoin := close_server_joins_iff (by decide) rfl (by decide) hc hr
  exact ⟨c', t, hc, hr, of_decide_eq_true hp, hjoin.1.mpr (by decide)⟩

/-- Behind ten descriptors the command is gone after one look, and the worker runs on. -/
example :
    ((((queuedAtClose 10).step Wire.runtime (.notify (plainEnv 1))).bind
      (Closing.step Wire.runtime · (.callback (plainEnv 1, .newConn 0)))).any fun t =>
        (t.server.workThread 0).newConnFd.isEmpty && t.server.runs 0) = true := by
  decide +kernel

end Drain

end Closing

end Server

end EglComet
