import EglComet.Library.GreedyLoad
import EglComet.WorkThread.Admission

/-!
How evenly `accept_callback` spreads the connections. It gives a descriptor to
the worker with the smallest counter, and the counter leaves out what still
waits in the pipe of a worker. The surplus of one worker over another is
therefore the longest queue that the main thread overlooked, the connection
given last, and what has ended at the other worker in the meantime.
-/
namespace EglComet

open Protobuf

namespace Server

/-- What worker `w` has been given and has not lost: its counter and the queued descriptors. -/
def assigned (s : Server) (w : ℕ) : ℤ := (s.workThread w).connNum + s.queued w

/-- At most `q` descriptors wait in the pipe of the worker that is chosen for a connection. -/
def ShortQueue (q : ℕ) (s : Server) (x : Env × Event) : Prop :=
  x.2.isAccept = true → s.queued s.minWorker.1 ≤ q

instance (q : ℕ) (s : Server) (x : Env × Event) : Decidable (s.ShortQueue q x) :=
  inferInstanceAs (Decidable (_ → _))

section Choice

/-- The scan for the smallest counter ends below whatever is above its start or above something it
has seen. -/
theorem scan_le (f : ℕ → ℤ) (is : List ℕ) (m : ℕ × ℤ) {c : ℤ}
    (hc : m.2 ≤ c ∨ ∃ i ∈ is, f i ≤ c) :
    (is.foldl (fun m i => if f i < m.2 then (i, f i) else m) m).2 ≤ c := by
  induction is generalizing m with
  | nil => simpa using hc
  | cons i is ih =>
    rw [List.foldl_cons]
    apply ih
    rcases hc with hm | ⟨k, hk, hle⟩
    · left
      split_ifs <;> omega
    · rcases List.mem_cons.mp hk with rfl | hk
      · left
        split_ifs <;> omega
      · exact Or.inr ⟨k, hk, hle⟩

theorem minWorker_le (s : Server) {j : ℕ} (hj : j < s.workThreadNum) :
    s.minWorker.2 ≤ (s.workThread j).connNum := by
  apply scan_le (fun i => (s.workThread i).connNum)
  by_cases h0 : j = 0
  · exact Or.inl (by rw [h0])
  · have hmem : j ∈ List.range' 1 (s.workThreadNum - 1) := by
      rw [List.mem_range'_1]
      omega
    exact Or.inr ⟨j, hmem, le_rfl⟩

end Choice

section Assigned

variable {σ : Type} {R : Runtime σ} {env : Env} {s t : Server} {x : Env × Event} {w q : ℕ}

/-- Only its connection callback raises the counter of a worker. -/
theorem connNum_step_le (ht : step R s x = some t) (hx : x.2 ≠ .newConn w) :
    (t.workThread w).connNum ≤ (s.workThread w).connNum := by
  apply (step_moves R ht).invariant (P := fun r => r.count w ≤ (s.workThread w).connNum) _ le_rfl
  intro r l hr he hl
  refine (Registry.count_apply_le ?_).trans hr
  cases l with
  | accept v b n =>
    right
    rintro rfl
    exact hx hl
  | leave | approve | deliver => exact Or.inl rfl

theorem connNum_handleItem_le (env : Env) (s : Server) (w : ℕ) (data : ℤ) :
    ((handleItem env w s data).workThread w).connNum ≤
      (s.workThread w).connNum + if 0 < data then 1 else 0 := by
  unfold handleItem
  split_ifs
  · simp [newConnection, modify, emit, setHeap]
  · simp [modify]
  · let ok : Registry UInt64 Addr → Label UInt64 Addr → Prop := fun _ l => l.arrivals = 0
    have hm : Registry.Moves ok s.registry (s.delExpireClient env w).registry :=
      delExpireClient_moves (fun _ _ => rfl) env s
    rw [add_zero]
    exact hm.invariant (P := fun r => r.count w ≤ (s.workThread w).connNum)
      (fun r l hr _ hl => (Registry.count_apply_le (Or.inl hl)).trans hr) le_rfl
  · simp

theorem connNum_foldl_handleItem_le (env : Env) (s : Server) (w : ℕ) (items : List ℤ) :
    ((items.foldl (handleItem env w) s).workThread w).connNum ≤
      (s.workThread w).connNum + items.countP (0 < ·) := by
  induction items generalizing s with
  | nil => simp
  | cons data items ih =>
    have hd := connNum_handleItem_le env s w data
    have hi := ih (handleItem env w s data)
    rw [List.foldl_cons, List.countP_cons]
    simp only [decide_eq_true_eq]
    split_ifs at hd ⊢ <;> omega

/-- A worker that looks into its pipe moves descriptors from the queue to the counter. -/
theorem assigned_newConn : (s.notifyNewConnCallback env w).assigned w ≤ s.assigned w := by
  have hs := connNum_foldl_handleItem_le env s w (handledItems 10 (s.workThread w).newConnFd)
  have hq := countP_handledItems_le 10 (s.workThread w).newConnFd
  rw [notifyNewConnCallback_eq]
  simp only [assigned, queued, setNewConnFd, modify, Function.update_self]
  omega

/-- What a worker has been given grows by one connection, where the main thread chooses it. -/
theorem assigned_step_le (ht : step R s x = some t) :
    t.assigned w ≤ s.assigned w ∨
      x.2.isAccept = true ∧ w = s.minWorker.1 ∧ t.assigned w ≤ s.assigned w + 1 := by
  by_cases hx : x.2 = .newConn w
  · obtain ⟨env, ev⟩ := x
    obtain rfl : ev = .newConn w := hx
    simp only [step, Option.ite_none_right_eq_some, Option.some.injEq] at ht
    obtain ⟨-, rfl⟩ := ht
    exact Or.inl assigned_newConn
  · have hc := connNum_step_le ht hx
    unfold assigned
    rcases queued_step_le ht hx with hq | ⟨ha, hw, -, hq⟩
    · exact Or.inl (by omega)
    · exact Or.inr ⟨ha, hw, by omega⟩

theorem workThreadNum_step (ht : step R s x = some t) : t.workThreadNum = s.workThreadNum :=
  (step_moves R ht).invariant (P := fun r => r.num = s.workThreadNum)
    (fun r l hr _ _ => (Registry.num_apply r l).trans hr) rfl

/-- The choice of the main thread is greedy up to the queue it does not see. -/
theorem greedy_step (hok : s.ShortQueue q x) (ht : step R s x = some t) :
    GreedyLoad.Greedy {i | i < s.workThreadNum} q s.assigned t.assigned := by
  intro i _
  rcases assigned_step_le (w := i) ht with hle | ⟨ha, rfl, hle⟩
  · exact Or.inl hle
  refine Or.inr ⟨hle, fun j hj => ?_⟩
  have hmin : s.minWorker.2 ≤ (s.workThread j).connNum := s.minWorker_le hj
  have hqueue := hok ha
  rw [minWorker_snd] at hmin
  unfold assigned
  omega

theorem assigned_started (hs : s.Started) (w : ℕ) : s.assigned w = 0 := by
  obtain ⟨num, cap, ping, url, heart, rfl⟩ := hs
  simp [assigned, queued, start]

/-- In every run in which at most `q` descriptors wait for the worker that is given a connection,
no worker has more than `q + 1` connections above another one, apart from what the other one has
lost. -/
theorem connections_balanced (hs : s.Started) {es : List (Env × Event)}
    (hok : Transition.RunOk (step R) (ShortQueue q) s es)
    (hr : Transition.run (step R) s es = some t) {i j : ℕ} (hi : i < s.workThreadNum)
    (hj : j < s.workThreadNum) :
    t.assigned i ≤ t.assigned j + (q + 1) + GreedyLoad.lost (step R) assigned j s es := by
  have hstep : ∀ (u : Server) (x : Env × Event) (v : Server), u.workThreadNum = s.workThreadNum →
      ShortQueue q u x → step R u x = some v → v.workThreadNum = s.workThreadNum ∧
        GreedyLoad.Greedy {i | i < s.workThreadNum} q u.assigned v.assigned := by
    intro u x v hu hq hv
    exact ⟨(workThreadNum_step hv).trans hu, hu ▸ greedy_step hq hv⟩
  have hzero : GreedyLoad.Level {i | i < s.workThreadNum} (q + 1) s.assigned fun _ => 0 := by
    intro i _ j _
    rw [assigned_started hs, assigned_started hs]
    show (0 : ℤ) ≤ 0 + (q + 1) + 0
    omega
  have hlevel := GreedyLoad.Level.run hstep rfl hok hr (fun _ => le_rfl) hzero i hi j hj
  simpa using hlevel

/-- Two connections are queued for worker 0 before it looks, one is set up at worker 1 and ends. -/
def twoThenOne : List (Env × Event) :=
  [(plainEnv 1, .acceptConn 5), (plainEnv 1, .acceptConn 5), (plainEnv 1, .newConn 0)] ++
    connect 1 9 ++ [(plainEnv 9, .clientEvent 9 { eof := true })]

theorem twoThenOne_balanced :
    ∃ t, Transition.run (step Wire.runtime) (deployment 2) twoThenOne = some t ∧
      t.assigned 0 = 2 ∧ t.assigned 1 = 0 ∧
      GreedyLoad.lost (step Wire.runtime) assigned 1 (deployment 2) twoThenOne = 1 ∧
      t.assigned 0 ≤ t.assigned 1 + ((1 : ℕ) + 1) +
        GreedyLoad.lost (step Wire.runtime) assigned 1 (deployment 2) twoThenOne := by
  have hend : (Transition.run (step Wire.runtime) (deployment 2) twoThenOne).any
      (fun t => decide (t.assigned 0 = 2 ∧ t.assigned 1 = 0)) = true := by decide +kernel
  obtain ⟨t, ht, hp⟩ := (Option.any_eq_true _ _).mp hend
  obtain ⟨h0, h1⟩ := of_decide_eq_true hp
  have hok : Transition.RunOk (step Wire.runtime) (ShortQueue 1) (deployment 2) twoThenOne := by
    decide +kernel
  have hlost : GreedyLoad.lost (step Wire.runtime) assigned 1 (deployment 2) twoThenOne = 1 := by
    decide +kernel
  exact ⟨t, ht, h0, h1, hlost, connections_balanced (deployment_started 2) hok ht
    (by decide) (by decide)⟩

end Assigned

end Server

end EglComet
