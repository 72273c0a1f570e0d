import EglComet.WorkThread.Frame
import EglComet.WorkThread.NewConn
import EglComet.WorkThread.Sessions

/-!
The cap on the connections of a worker. `accept_callback` compares the cap with
a counter that the worker moves when it takes a descriptor out of its pipe; the
descriptors that are still in the pipe are not in the counter. The counter is
never below the number of entries of `_bev_id`, so the cap is kept where the
main thread leaves room for what it has already queued.
-/
namespace EglComet

open Protobuf

def Event.isAccept : Event → Bool
  | .acceptConn _ => true
  | _ => false

/-- Each descriptor that was in the pipe is handled at most once or left there. -/
theorem countP_handledItems_le (turns : ℕ) (items : List ℤ) :
    (handledItems turns items).countP (0 < ·) + (unreadItems turns items).countP (0 ≤ ·) ≤
      items.countP (0 ≤ ·) := by
  fun_induction handledItems turns items with
  | case1 items =>
    cases items with
    | nil => simp [unreadItems]
    | cons data rest => simp [unreadItems, List.countP_cons]
  | case2 => simp [unreadItems]
  | case3 turns data rest hpos ih =>
    have hne : data ≠ -1 := by omega
    have hle : 0 ≤ data := by omega
    have hlt : 0 < data := hpos
    simp only [unreadItems, if_neg hne, List.countP_cons, decide_eq_true hle, decide_eq_true hlt]
    omega
  | case4 turns rest => simp [unreadItems]
  | case5 turns rest hpos hstop ih =>
    simp [unreadItems]
    omega
  | case6 turns data rest hpos hstop hsweep ih =>
    simp only [unreadItems, if_neg hstop, List.countP_cons]
    omega

namespace Server

/-- Descriptors of client connections that wait in the pipe of worker `w`. -/
def queued (s : Server) (w : ℕ) : ℕ := (s.workThread w).newConnFd.countP (0 ≤ ·)

/-- The client connections that worker `w` holds: entries of `_bev_id` and queued descriptors. -/
def load (s : Server) (w : ℕ) : ℕ := Table.size (s.workThread w).bevId + s.queued w

/-- A connection is only admitted where the counter of the chosen worker, together with the
descriptors queued for it, is below the cap. -/
def CountsQueued (s : Server) (x : Env × Event) : Prop :=
  x.2.isAccept = true → s.minWorker.2 < s.maxNumPerThread →
    s.minWorker.2 + s.queued s.minWorker.1 < s.maxNumPerThread

instance (s : Server) (x : Env × Event) : Decidable (s.CountsQueued x) :=
  inferInstanceAs (Decidable (_ → _ → _))

section Queue

variable {env : Env} {s : Server} {w : ℕ}

theorem minWorker_snd (s : Server) : s.minWorker.2 = (s.workThread s.minWorker.1).connNum := by
  unfold minWorker
  apply List.foldlRecOn (motive := fun m : ℕ × ℤ => m.2 = (s.workThread m.1).connNum)
  · rfl
  · intro m hm i _
    split_ifs
    · rfl
    · exact hm

theorem queued_notifyNewConn (env : Env) (s : Server) (w : ℕ) (fd : ℤ) (j : ℕ) :
    (notifyNewConn env fd s j).queued w ≤ s.queued w + if w = j ∧ 0 ≤ fd then 1 else 0 := by
  simp only [notifyNewConn]
  split_ifs with hw hj hj
  · obtain ⟨rfl, hfd⟩ := hj
    simp [queued, modify, hfd]
  · by_cases hwj : w = j
    · subst hwj
      have hfd : ¬ 0 ≤ fd := fun h => hj ⟨rfl, h⟩
      simp [queued, modify, hfd]
    · simp [queued, modify, hwj]
  · exact Nat.le_succ _
  · exact le_rfl

theorem queued_checkExpireClient : (s.checkExpireClient env).queued w ≤ s.queued w := by
  unfold checkExpireClient
  induction List.range s.workThreadNum generalizing s with
  | nil => exact le_rfl
  | cons j js ih =>
    have hj := queued_notifyNewConn env s w (-2) j
    rw [if_neg (by omega)] at hj
    exact (ih (s := notifyNewConn env (-2) s j)).trans hj

end Queue

section Load

variable {σ : Type} {R : Runtime σ} {env : Env} {s t : Server} {x : Env × Event} {w : ℕ}

/-- Only its connection callback brings a connection to a worker. -/
theorem size_step_le (ht : step R s x = some t) (hx : x.2 ≠ .newConn w) :
    Table.size (t.workThread w).bevId ≤ Table.size (s.workThread w).bevId := by
  apply (step_moves R ht).invariant
    (P := fun r => Table.size (r.dir w).names ≤ Table.size (s.workThread w).bevId) _ le_rfl
  intro r l hr he hl
  refine (Registry.size_apply_le he ?_).trans hr
  cases l with
  | accept v b n =>
    right
    rintro rfl
    exact hx hl
  | leave | approve | deliver => exact Or.inl rfl

theorem size_handleItem_le (env : Env) (s : Server) (w : ℕ) (data : ℤ) :
    Table.size ((handleItem env w s data).workThread w).bevId ≤
      Table.size (s.workThread w).bevId + if 0 < data then 1 else 0 := by
  unfold handleItem
  split_ifs
  · simp only [newConnection, modify, emit, setHeap, Function.update_self]
    exact Table.size_insertNew_le _ _ _
  · simp [modify]
  · let ok : Registry UInt64 Addr → Label UInt64 Addr → Prop := fun _ l => l.arrivals = 0
    have hm : Registry.Moves ok s.registry (s.delExpireClient env w).registry :=
      delExpireClient_moves (fun _ _ => rfl) env s
    exact hm.invariant
      (P := fun r => Table.size (r.dir w).names ≤ Table.size (s.workThread w).bevId)
      (fun r l hr he hl => (Registry.size_apply_le he (Or.inl hl)).trans hr) le_rfl
  · exact le_rfl

theorem size_foldl_handleItem_le (env : Env) (s : Server) (w : ℕ) (items : List ℤ) :
    Table.size ((items.foldl (handleItem env w) s).workThread w).bevId ≤
      Table.size (s.workThread w).bevId + items.countP (0 < ·) := by
  induction items generalizing s with
  | nil => exact le_rfl
  | cons data items ih =>
    have hd := size_handleItem_le env s w data
    have hi := ih (handleItem env w s data)
    rw [List.foldl_cons, List.countP_cons]
    simp only [decide_eq_true_eq]
    omega

/-- A worker that looks into its pipe turns queued descriptors into connections. -/
theorem load_newConn : (s.notifyNewConnCallback env w).load w ≤ s.load w := by
  have hs := size_foldl_handleItem_le env s w
    (handledItems 10 (s.workThread w).newConnFd)
  have hq := countP_handledItems_le 10 (s.workThread w).newConnFd
  rw [notifyNewConnCallback_eq]
  simp only [load, queued, setNewConnFd, modify, Function.update_self]
  omega

theorem queued_step_le (ht : step R s x = some t) (hx : x.2 ≠ .newConn w) :
    t.queued w ≤ s.queued w ∨ x.2.isAccept = true ∧ w = s.minWorker.1 ∧
      s.minWorker.2 < s.maxNumPerThread ∧ t.queued w ≤ s.queued w + 1 := by
  rcases (step_apartFromConns R ht).conns w with hc | hc
  · exact Or.inl (by rw [queued, hc.1]; rfl)
  obtain ⟨env, ev⟩ := x
  rcases step_cases R ht with hq | ha
  · cases hq with
    | acceptConn fd =>
      unfold acceptCallback
      split_ifs with hmin hfd
      · have hn := queued_notifyNewConn env s w fd s.minWorker.1
        by_cases hw : w = s.minWorker.1
        · refine Or.inr ⟨rfl, hw, hmin, hn.trans ?_⟩
          split_ifs <;> omega
        · rw [if_neg fun h => hw h.1] at hn
          exact Or.inl hn
      · exact Or.inl le_rfl
      · exact Or.inl le_rfl
    | timer => exact Or.inl queued_checkExpireClient
    | stop v =>
      have hn := queued_notifyNewConn env s w (-1) v
      rw [if_neg (by omega)] at hn
      exact Or.inl hn
    | newConn v => simp_all [ApartFromConns, Event.feeds]
    | newMsg v => simp [ApartFromConns, Event.feeds] at hc
    | clientEvent flags hb => simp [ApartFromConns, Event.feeds] at hc
  · cases ha <;> simp [ApartFromConns, Event.feeds] at hc

/-- The load of a worker grows by a connection that the main thread admits, and by nothing else. -/
theorem load_step_le (ht : step R s x = some t) :
    t.load w ≤ s.load w ∨ x.2.isAccept = true ∧ w = s.minWorker.1 ∧
      s.minWorker.2 < s.maxNumPerThread ∧ t.load w ≤ s.load w + 1 := by
  by_cases hx : x.2 = .newConn w
  · obtain ⟨env, ev⟩ := x
    obtain rfl : ev = .newConn w := hx
    simp only [step, Option.ite_none_right_eq_some, Option.some.injEq] at ht
    obtain ⟨-, rfl⟩ := ht
    exact Or.inl load_newConn
  · have hs := size_step_le ht hx
    unfold load
    rcases queued_step_le ht hx with hq | ⟨ha, hw, hmin, hq⟩
    · exact Or.inl (by omega)
    · exact Or.inr ⟨ha, hw, hmin, by omega⟩

theorem size_le_connNum {ok : Server → Env × Event → Prop} (h : Reached R ok s) (w : ℕ) :
    (Table.size (s.workThread w).bevId : ℤ) ≤ (s.workThread w).connNum := by
  have hc : s.registry.Covered := h.registry_invariant Registry.covered_start
    fun s x r _ hi hm => hm.invariant (fun r l hr he _ => hr.apply he) hi
  exact hc.count w

/-- In runs where a connection is only admitted if the counter of the chosen worker and the
descriptors queued for it leave room for it, no worker holds more connections than the cap. -/
theorem load_le_cap (h : Reached R CountsQueued s) (hcap : 0 ≤ s.maxNumPerThread) (w : ℕ) :
    (s.load w : ℤ) ≤ s.maxNumPerThread := by
  induction h with
  | start hs =>
    obtain ⟨num, cap, ping, url, heart, rfl⟩ := hs
    simpa [load, queued, start] using hcap
  | @next s t x hs hok ht ih =>
    have hmax : t.maxNumPerThread = s.maxNumPerThread :=
      congrArg Config.maxNumPerThread (config_step ht)
    rw [hmax] at hcap ⊢
    have hold := ih hcap
    rcases load_step_le (w := w) ht with hle | ⟨ha, rfl, hmin, hle⟩
    · omega
    · have hroom := hok ha hmin
      have hsize := size_le_connNum hs s.minWorker.1
      rw [minWorker_snd] at hroom
      simp only [load] at hle ⊢
      omega

end Load

section Runs

/-- Two connections are set up, one of them logs in, and a third waits in the pipe. -/
def threeHeld : List (Env × Event) :=
  connect 0 1 ++ connect 0 2 ++ login 0 1 7 ++ [(plainEnv 3, .acceptConn 5)]

theorem threeHeld_le_cap :
    ∃ s, Reached Wire.runtime CountsQueued s ∧ s.load 0 = 3 ∧ 0 ≤ s.maxNumPerThread ∧
      (s.load 0 : ℤ) ≤ s.maxNumPerThread := by
  obtain ⟨s, hs, hp⟩ := exists_reached Wire.runtime 1 threeHeld CountsQueued
    (fun s => s.load 0 = 3 ∧ 0 ≤ s.maxNumPerThread) (by decide +kernel) (by decide +kernel)
  exact ⟨s, hs, hp.1, hp.2, load_le_cap hs hp.2 0⟩

/-- Fifteen connections are accepted before the worker looks twice. -/
def longBurst : List (Env × Event) :=
  List.replicate 15 (plainEnv 1, .acceptConn 5) ++
    [(plainEnv 1, .newConn 0), (plainEnv 1, .newConn 0)]

/-- With a cap of ten, a worker whose counter is still zero is given fifteen connections and ends
with fourteen entries in its table. -/
theorem longBurst_exceeds_cap :
    ∃ s, Reached Wire.runtime (fun _ _ => True) s ∧ s.maxNumPerThread = 10 ∧
      Table.size (s.workThread 0).bevId = 14 ∧ s.load 0 = 14 :=
  exists_reached Wire.runtime 1 longBurst _ _ (.of_forall (by simp) _) (by decide +kernel)

end Runs

end Server

end EglComet
