import EglComet.WorkThread.StepEffects

/-!
The pipe between the main thread and a worker. `notify_new_conn_callback` takes
what it holds in batches of ten; the item that is read when the count is tested
for the eleventh time belongs to no batch.
-/
namespace EglComet

open Protobuf

/-- The worker whose connection callback an event runs. -/
def Event.connWorker : Event → Option ℕ
  | .newConn w => some w
  | _ => none

/-- The items that `turns` turns of the loop act on: a connection is created, a sweep is made, or
the worker stops. -/
def handledItems : ℕ → List ℤ → List ℤ
  | 0, _ => []
  | _, [] => []
  | turns + 1, data :: rest =>
    if data > 0 then data :: handledItems turns rest
    else if data = -1 then [data]
    else if data = -2 then data :: handledItems turns rest
    else handledItems turns rest

/-- The items that the loop does not take out of the pipe. -/
def unreadItems : ℕ → List ℤ → List ℤ
  | _, [] => []
  | 0, _ :: rest => rest
  | turns + 1, data :: rest => if data = -1 then rest else unreadItems turns rest

/-- The items fit into one batch, or the batch has a stop command, and the batch up to the stop
command has no item that is neither a positive descriptor nor a command. -/
def OneBatch (items : List ℤ) : Prop :=
  (items.length ≤ 10 ∨ -1 ∈ items.take 10) ∧
    ∀ data ∈ (items.take 10).takeWhile (· ≠ -1), data > 0 ∨ data = -2

instance (items : List ℤ) : Decidable (OneBatch items) :=
  inferInstanceAs (Decidable (_ ∧ ∀ data ∈ _, _))

theorem length_handledItems_le (turns : ℕ) (items : List ℤ) :
    (handledItems turns items).length + (unreadItems turns items).length ≤ items.length := by
  fun_induction handledItems turns items with
  | case1 items => cases items <;> simp [unreadItems]
  | case2 => simp [unreadItems]
  | case3 turns data rest hpos ih =>
    have hne : data ≠ -1 := by omega
    simp only [unreadItems, if_neg hne, List.length_cons]
    omega
  | case4 turns rest =>
    simp only [unreadItems, if_true, List.length_cons, List.length_nil]
    omega
  | case5 turns rest hpos hstop ih =>
    simp only [unreadItems, List.length_cons, Int.reduceNeg, Int.reduceEq, if_false]
    omega
  | case6 turns data rest hpos hstop hsweep ih =>
    simp only [unreadItems, if_neg hstop, List.length_cons]
    omega

/-- Nothing is lost in a number of turns exactly if the items fit into them. -/
theorem handledItems_append_iff (turns : ℕ) (items : List ℤ) :
    handledItems turns items ++ unreadItems turns items = items ↔
      (items.length ≤ turns ∨ -1 ∈ items.take turns) ∧
        ∀ data ∈ (items.take turns).takeWhile (· ≠ -1), data > 0 ∨ data = -2 := by
  fun_induction handledItems turns items with
  | case1 items => cases items <;> simp [unreadItems]
  | case2 => simp [unreadItems]
  | case3 turns data rest hpos ih =>
    have hne : data ≠ -1 := by omega
    simp [unreadItems, hne, hne.symm, hpos, ih]
  | case4 => simp [unreadItems]
  | case5 turns rest hpos hstop ih => simp [unreadItems, ih]
  | case6 turns data rest hpos hstop hsweep ih =>
    have hlt : (handledItems turns rest ++ unreadItems turns rest).length <
        (data :: rest).length := by
      have hle := length_handledItems_le turns rest
      rw [List.length_append, List.length_cons]
      omega
    have hn : ¬ handledItems turns rest ++ unreadItems (turns + 1) (data :: rest) =
        data :: rest := by
      simp only [unreadItems, if_neg hstop]
      intro he
      rw [he] at hlt
      exact lt_irrefl _ hlt
    simp [hn, hstop, hpos, hsweep]

/-- A stop command can only be the last item handled. -/
theorem stop_last (turns : ℕ) (items : List ℤ) :
    ∃ before, handledItems turns items =
        before ++ (if -1 ∈ handledItems turns items then [-1] else []) ∧ -1 ∉ before := by
  fun_induction handledItems turns items with
  | case1 | case2 => exact ⟨[], by simp⟩
  | case3 turns data rest hpos ih =>
    obtain ⟨before, hb, hn⟩ := ih
    have hne : (-1 : ℤ) ≠ data := by omega
    refine ⟨data :: before, ?_, by simp [hn, hne]⟩
    simp only [List.mem_cons, hne, false_or, List.cons_append]
    rw [← hb]
  | case4 => exact ⟨[], by simp⟩
  | case5 turns rest hpos hstop ih =>
    obtain ⟨before, hb, hn⟩ := ih
    refine ⟨-2 :: before, ?_, by simp [hn]⟩
    simp only [List.mem_cons, Int.reduceNeg, Int.reduceEq, false_or, List.cons_append]
    rw [← hb]
  | case6 turns data rest hpos hstop hsweep ih => exact ih

namespace Server

/-- What the callback does with one item. -/
def handleItem (env : Env) (w : ℕ) (s : Server) (data : ℤ) : Server :=
  if data > 0 then s.newConnection env w
  else if data = -1 then s.modify w fun t => { t with stopped := true }
  else if data = -2 then s.delExpireClient env w
  else s

def setNewConnFd (s : Server) (w : ℕ) (items : List ℤ) : Server :=
  s.modify w fun t => { t with newConnFd := items }

section Commute

variable {env : Env} {w : ℕ} {s : Server} {items items' : List ℤ}

theorem setNewConnFd_self (s : Server) (w : ℕ) :
    s.setNewConnFd w (s.workThread w).newConnFd = s := by
  simp [setNewConnFd, modify]

theorem setNewConnFd_setNewConnFd :
    (s.setNewConnFd w items).setNewConnFd w items' = s.setNewConnFd w items' := by
  simp [setNewConnFd, modify]

theorem newConnection_setNewConnFd :
    (s.setNewConnFd w items).newConnection env w =
      (s.newConnection env w).setNewConnFd w items := by
  simp [setNewConnFd, newConnection, modify, setHeap, emit]

theorem requestOffline_setNewConnFd {id : UInt64} :
    (s.setNewConnFd w items).requestOffline w id =
      (s.requestOffline w id).setNewConnFd w items := by
  unfold requestOffline
  split
  · simp [setNewConnFd, redisAsyncCommand, modify]
  · rfl

theorem expireEntry_setNewConnFd (t : ℤ) (b : Addr) :
    expireEntry w t (s.setNewConnFd w items) b = (expireEntry w t s b).setNewConnFd w items := by
  have hw : (s.setNewConnFd w items).workThread w = { s.workThread w with newConnFd := items } := by
    simp [setNewConnFd, modify]
  have htimeout : ({ s.workThread w with newConnFd := items } : WorkThread).timeout =
      (s.workThread w).timeout := rfl
  unfold expireEntry
  simp only [hw, htimeout]
  split
  · rfl
  · split
    · rfl
    · split_ifs
      · rw [← requestOffline_setNewConnFd]
        simp only [setNewConnFd, modify, emit, bufferEventFree, setHeap, Function.update_self,
          Function.update_idem]
        rfl
      · rfl

theorem delExpireClient_setNewConnFd :
    (s.setNewConnFd w items).delExpireClient env w =
      (s.delExpireClient env w).setNewConnFd w items := by
  have hb : ((s.setNewConnFd w items).workThread w).bevId = (s.workThread w).bevId := by
    simp [setNewConnFd, modify]
  unfold delExpireClient
  cases env.now with
  | none => rfl
  | some t =>
    simp only [hb]
    induction env.order.toList (s.workThread w).bevId generalizing s with
    | nil => rfl
    | cons b bs ih =>
      rw [List.foldl_cons, List.foldl_cons, expireEntry_setNewConnFd]
      exact ih (by simp [setNewConnFd, modify])

theorem handleItem_setNewConnFd (data : ℤ) :
    handleItem env w (s.setNewConnFd w items) data =
      (handleItem env w s data).setNewConnFd w items := by
  unfold handleItem
  split_ifs
  · exact newConnection_setNewConnFd
  · simp [setNewConnFd, modify]
  · exact delExpireClient_setNewConnFd
  · rfl

theorem foldl_handleItem_setNewConnFd (xs : List ℤ) :
    xs.foldl (handleItem env w) (s.setNewConnFd w items) =
      (xs.foldl (handleItem env w) s).setNewConnFd w items := by
  induction xs generalizing s with
  | nil => rfl
  | cons data xs ih => rw [List.foldl_cons, List.foldl_cons, handleItem_setNewConnFd, ih]

end Commute

section Callback

variable {env : Env} {w : ℕ}

/-- The loop acts on the handled items in order and leaves the unread ones in the pipe. -/
theorem newConnLoop_eq (items : List ℤ) (i turns : ℕ) (hi : i + turns = 10) (s : Server)
    (hq : (s.workThread w).newConnFd = items) :
    newConnLoop env w i items s =
      ((handledItems turns items).foldl (handleItem env w) s).setNewConnFd w
        (unreadItems turns items) := by
  induction items generalizing i turns s with
  | nil =>
    have hs := setNewConnFd_self s w
    rw [hq] at hs
    cases turns <;> exact hs.symm
  | cons data rest ih =>
    cases turns with
    | zero =>
      have hi' : ¬ i < 10 := by omega
      simp only [newConnLoop, if_neg hi', handledItems, unreadItems]
      rfl
    | succ turns =>
      have hi' : i < 10 := by omega
      have hstep : ∀ t : Server, newConnLoop env w (i + 1) rest (t.setNewConnFd w rest) =
          ((handledItems turns rest).foldl (handleItem env w) t).setNewConnFd w
            (unreadItems turns rest) := by
        intro t
        rw [ih (i + 1) turns (by omega) _ (by simp [setNewConnFd, modify]),
          foldl_handleItem_setNewConnFd, setNewConnFd_setNewConnFd]
      have hpipe : (s.modify w fun t => { t with newConnFd := rest }) = s.setNewConnFd w rest := rfl
      simp only [newConnLoop, if_pos hi', hpipe]
      by_cases hpos : data > 0
      · have hne : data ≠ -1 := by omega
        simp only [if_pos hpos, if_neg hne, handledItems, unreadItems, List.foldl_cons]
        rw [newConnection_setNewConnFd, hstep, handleItem, if_pos hpos]
      · by_cases hstop : data = -1
        · subst hstop
          simp only [handledItems, unreadItems, if_neg hpos, if_true, List.foldl_cons,
            List.foldl_nil, handleItem]
          simp [setNewConnFd, modify]
        · by_cases hsweep : data = -2
          · subst hsweep
            simp only [handledItems, unreadItems, if_neg hpos, if_neg hstop, if_true,
              List.foldl_cons]
            rw [delExpireClient_setNewConnFd, hstep, handleItem, if_neg hpos, if_neg hstop,
              if_pos rfl]
          · simp only [handledItems, unreadItems, if_neg hpos, if_neg hstop, if_neg hsweep]
            exact hstep s

theorem notifyNewConnCallback_eq (env : Env) (s : Server) (w : ℕ) :
    s.notifyNewConnCallback env w =
      ((handledItems 10 (s.workThread w).newConnFd).foldl (handleItem env w) s).setNewConnFd w
        (unreadItems 10 (s.workThread w).newConnFd) :=
  newConnLoop_eq _ 0 10 rfl s rfl

/-- Everything but the connection pipes and the stop flags. -/
def ApartFromConns (ev : Event) : Item → Prop
  | .conns w => ev.feeds w = true
  | _ => True

theorem tolerant_apartFromConns (ev : Event) : Tolerant (ApartFromConns ev) :=
  ⟨fun _ _ => trivial, fun _ _ => trivial, fun _ _ => trivial, fun _ _ => trivial⟩

/-- A worker stops when it handles a stop command. -/
theorem stopped_foldl_handleItem (xs : List ℤ) (s : Server) :
    ((xs.foldl (handleItem env w) s).workThread w).stopped =
      ((s.workThread w).stopped || decide (-1 ∈ xs)) := by
  have hE := tolerant_apartFromConns (.newMsg w)
  induction xs generalizing s with
  | nil => simp
  | cons data xs ih =>
    rw [List.foldl_cons, ih]
    have hitem : ((handleItem env w s data).workThread w).stopped =
        ((s.workThread w).stopped || decide (-1 = data)) := by
      unfold handleItem
      split_ifs with hpos hstop hsweep
      · have hne : (-1 : ℤ) ≠ data := by omega
        have hg : Grows _ s (s.newConnection env w) := grows_newConnection hE
        rcases hg.conns w with hc | hc
        · simp [hc.2, hne]
        · simp [ApartFromConns, Event.feeds] at hc
      · simp [modify, hstop]
      · have hg : Grows _ s (s.delExpireClient env w) := grows_delExpireClient hE
        rcases hg.conns w with hc | hc
        · simp [hc.2, hsweep]
        · simp [ApartFromConns, Event.feeds] at hc
      · simp [Ne.symm hstop]
    rw [hitem, Bool.or_assoc]
    simp only [List.mem_cons, Bool.decide_or]

end Callback

section Traffic

variable {σ : Type} (R : Runtime σ)

/-- A server with, for every worker, what was written to its connection pipe and what its callback
has handled. -/
structure Traffic where
  server : Server
  written : ℕ → List ℤ := fun _ => []
  handled : ℕ → List ℤ := fun _ => []

/-- A server that has just started, with empty pipes. -/
def Traffic.Started (q : Traffic) : Prop := ∃ s : Server, s.Started ∧ q = { server := s }

/-- What a callback appended to the connection pipe of worker `w`. -/
def appended (s t : Server) (w : ℕ) : List ℤ :=
  (t.workThread w).newConnFd.drop (s.workThread w).newConnFd.length

def Traffic.step (q : Traffic) (x : Env × Event) : Option Traffic :=
  (Server.step R q.server x).map fun t =>
    { server := t
      written := fun w =>
        if x.2 = .newConn w then q.written w else q.written w ++ appended q.server t w
      handled := fun w =>
        if x.2 = .newConn w then
          q.handled w ++ handledItems 10 (q.server.workThread w).newConnFd
        else q.handled w }

/-- No worker is given more than one batch, and nothing it ignores, before it looks. -/
def Traffic.InBatches (q : Traffic) (x : Env × Event) : Prop :=
  ∀ w ∈ x.2.connWorker, OneBatch (q.server.workThread w).newConnFd

instance (q : Traffic) (x : Env × Event) : Decidable (q.InBatches x) :=
  inferInstanceAs (Decidable (∀ w ∈ x.2.connWorker, _))

/-- Only the callbacks of the main thread and of the pipe itself touch a connection pipe. -/
theorem step_apartFromConns {s t : Server} {x : Env × Event} (ht : Server.step R s x = some t) :
    Grows (ApartFromConns x.2) s t := by
  refine Permits.step (R := R) (permits_of_additions ?_ ?_ ?_ ?_) ht
  · intro i hi
    cases i <;> trivial
  · exact fun _ h => h
  · exact fun _ _ _ _ _ _ => trivial
  · exact fun _ _ => trivial

/-- Items were appended to the connection pipe of worker `w`, and it did not stop. -/
def Fed (s t : Server) (w : ℕ) : Prop :=
  (t.workThread w).newConnFd = (s.workThread w).newConnFd ++ appended s t w ∧
    (t.workThread w).stopped = (s.workThread w).stopped

theorem fed_iff {s t : Server} {w : ℕ} : Fed s t w ↔
    (∃ added, (t.workThread w).newConnFd = (s.workThread w).newConnFd ++ added) ∧
      (t.workThread w).stopped = (s.workThread w).stopped := by
  unfold Fed appended
  constructor
  · exact fun h => ⟨⟨_, h.1⟩, h.2⟩
  · rintro ⟨⟨added, ha⟩, hs⟩
    simp [ha, hs]

theorem Fed.trans {s t u : Server} {w : ℕ} (h : Fed s t w) (h' : Fed t u w) : Fed s u w := by
  rw [fed_iff] at h h' ⊢
  obtain ⟨⟨xs, hx⟩, hs⟩ := h
  obtain ⟨⟨ys, hy⟩, hs'⟩ := h'
  exact ⟨⟨xs ++ ys, by rw [hy, hx, List.append_assoc]⟩, hs'.trans hs⟩

theorem fed_of_eq {s t : Server} {w : ℕ}
    (h : (t.workThread w).newConnFd = (s.workThread w).newConnFd ∧
      (t.workThread w).stopped = (s.workThread w).stopped) : Fed s t w :=
  fed_iff.mpr ⟨⟨[], by simp [h.1]⟩, h.2⟩

theorem fed_notifyNewConn (env : Env) (fd : ℤ) (s : Server) (j w : ℕ) :
    Fed s (notifyNewConn env fd s j) w := by
  simp only [notifyNewConn]
  split_ifs
  · rw [fed_iff]
    by_cases hw : w = j
    · subst hw
      simp [modify]
    · simp [modify, hw]
  · exact fed_of_eq ⟨rfl, rfl⟩

theorem fed_checkExpireClient (env : Env) (s : Server) (w : ℕ) :
    Fed s (s.checkExpireClient env) w := by
  unfold checkExpireClient
  induction List.range s.workThreadNum generalizing s with
  | nil => exact fed_of_eq ⟨rfl, rfl⟩
  | cons j js ih => exact (fed_notifyNewConn env (-2) s j w).trans (ih _)

theorem step_fed {s t : Server} {x : Env × Event} {w : ℕ} (ht : Server.step R s x = some t)
    (hne : x.2 ≠ .newConn w) : Fed s t w := by
  rcases (step_apartFromConns R ht).conns w with hc | hc
  · exact fed_of_eq hc
  obtain ⟨env, ev⟩ := x
  rcases step_cases R ht with hq | ha
  · cases hq with
    | acceptConn fd =>
      unfold acceptCallback
      split_ifs
      · exact fed_notifyNewConn env fd s _ w
      · exact fed_of_eq ⟨rfl, rfl⟩
      · exact fed_of_eq ⟨rfl, rfl⟩
    | timer => exact fed_checkExpireClient env s w
    | stop v => exact fed_notifyNewConn env (-1) s v w
    | newConn v => simp_all [ApartFromConns, Event.feeds]
    | newMsg v => simp [ApartFromConns, Event.feeds] at hc
    | clientEvent flags hb => simp [ApartFromConns, Event.feeds] at hc
  · cases ha <;> simp [ApartFromConns, Event.feeds] at hc

variable {R}

/-- What was written is what was handled and what is in the pipe, and a stop command that was
handled is the last item handled. -/
structure Traffic.Accounted (q : Traffic) (w : ℕ) : Prop where
  written : q.written w = q.handled w ++ (q.server.workThread w).newConnFd
  stopLast : ∃ before, q.handled w =
    before ++ (if (q.server.workThread w).stopped then [-1] else []) ∧ -1 ∉ before

theorem Traffic.Accounted.newConn {q : Traffic} {w : ℕ} (env : Env) (h : q.Accounted w)
    (hr : (q.server.workThread w).stopped = false) (hb : OneBatch (q.server.workThread w).newConnFd)
    (written handled : ℕ → List ℤ) (hw : written w = q.written w)
    (hh : handled w = q.handled w ++ handledItems 10 (q.server.workThread w).newConnFd) :
    Traffic.Accounted ⟨q.server.notifyNewConnCallback env w, written, handled⟩ w := by
  have hbatch := (handledItems_append_iff 10 (q.server.workThread w).newConnFd).mpr hb
  have hcall := notifyNewConnCallback_eq env q.server w
  constructor
  · simp only [hw, hh, hcall, setNewConnFd, modify, Function.update_self, List.append_assoc, hbatch]
    exact h.written
  · obtain ⟨before, hq, hn⟩ := h.stopLast
    obtain ⟨more, hm, hn'⟩ := stop_last 10 (q.server.workThread w).newConnFd
    refine ⟨before ++ more, ?_, by simp [hn, hn']⟩
    simp only [hr, Bool.false_eq_true, if_false, List.append_nil] at hq
    simp only [hh, hcall, setNewConnFd, modify, Function.update_self, stopped_foldl_handleItem, hr,
      Bool.false_or, decide_eq_true_eq, hq, List.append_assoc]
    rw [← hm]

theorem Traffic.Accounted.step {q q' : Traffic} {x : Env × Event} {w : ℕ} (h : q.Accounted w)
    (hb : q.InBatches x) (hq : q.step R x = some q') : q'.Accounted w := by
  obtain ⟨t, ht, rfl⟩ := Option.map_eq_some_iff.mp hq
  by_cases hx : x.2 = .newConn w
  · obtain ⟨env, ev⟩ := x
    obtain rfl : ev = .newConn w := hx
    simp only [Server.step, Option.ite_none_right_eq_some, Option.some.injEq] at ht
    obtain ⟨hr, rfl⟩ := ht
    simp only [runs, Bool.and_eq_true, Bool.not_eq_eq_eq_not, Bool.not_true] at hr
    exact h.newConn env hr.2 (hb w rfl) _ _ (if_pos rfl) (if_pos rfl)
  · obtain ⟨hp, hs⟩ := step_fed R ht hx
    constructor
    · simp only [if_neg hx, h.written, List.append_assoc]
      rw [← hp]
    · simp only [if_neg hx, hs]
      exact h.stopLast

/-- One run of the callback acts on the handled items in order and leaves the unread ones in the
pipe; together they are the contents of the pipe exactly if these fit into one batch. In runs where
that is so whenever the callback runs, every item written is handled once, in order, or still in
the pipe, and behind a stop command that was handled nothing is handled. -/
theorem newConn_items_kept_iff :
    (∀ (env : Env) (s : Server) (w : ℕ),
      s.notifyNewConnCallback env w =
        ((handledItems 10 (s.workThread w).newConnFd).foldl (handleItem env w) s).setNewConnFd w
          (unreadItems 10 (s.workThread w).newConnFd) ∧
      (handledItems 10 (s.workThread w).newConnFd ++
          ((s.notifyNewConnCallback env w).workThread w).newConnFd = (s.workThread w).newConnFd ↔
        OneBatch (s.workThread w).newConnFd)) ∧
    ∀ q, Transition.Reach (Traffic.step R) Traffic.Started Traffic.InBatches q →
      ∀ w, q.Accounted w := by
  constructor
  · intro env s w
    have hcall := notifyNewConnCallback_eq env s w
    refine ⟨hcall, ?_⟩
    rw [hcall]
    simp only [setNewConnFd, modify, Function.update_self]
    exact handledItems_append_iff 10 _
  · intro q hq w
    apply Transition.Reach.invariant (P := fun q : Traffic => q.Accounted w) _ _ hq
    · rintro q ⟨s, ⟨num, cap, ping, url, heart, rfl⟩, rfl⟩
      exact ⟨by simp [start], [], by simp [start]⟩
    · exact fun q x q' h hb hq => h.step hb hq

variable (R) in
theorem exists_traffic (n : ℕ) (events : List (Env × Event)) (ok : Traffic → Env × Event → Prop)
    (P : Traffic → Prop) [DecidablePred P]
    (hok : Transition.RunOk (Traffic.step R) ok { server := deployment n } events)
    (hr : (Transition.run (Traffic.step R) { server := deployment n } events).any
      (fun q => decide (P q)) = true) :
    ∃ q, Transition.Reach (Traffic.step R) Traffic.Started ok q ∧ P q :=
  Transition.Reach.exists_of_run ⟨_, deployment_started n, rfl⟩ hok hr

/-- A connection, a sweep and a stop command are written, the worker looks, and a connection is
written behind the stop command. -/
def stoppedTraffic : List (Env × Event) :=
  [(plainEnv 1, .acceptConn 5), (plainEnv 1, .timer), (plainEnv 1, .stop 0),
    (plainEnv 1, .newConn 0),
    (plainEnv 1, .acceptConn 6)]

theorem stoppedTraffic_accounted :
    ∃ q, Transition.Reach (Traffic.step Wire.runtime) Traffic.Started Traffic.InBatches q ∧
      q.written 0 = [5, -2, -1, 6] ∧ q.handled 0 = [5, -2, -1] ∧ q.Accounted 0 := by
  obtain ⟨q, hq, hp⟩ := exists_traffic Wire.runtime 1 stoppedTraffic Traffic.InBatches
    (fun q => q.written 0 = [5, -2, -1, 6] ∧ q.handled 0 = [5, -2, -1])
    (by decide +kernel) (by decide +kernel)
  exact ⟨q, hq, hp.1, hp.2, newConn_items_kept_iff.2 q hq 0⟩

/-- Eleven connections are accepted before the worker looks. -/
def burst : List (Env × Event) :=
  List.replicate 11 (plainEnv 1, .acceptConn 5) ++ [(plainEnv 1, .newConn 0)]

/-- The eleventh connection is taken out of the pipe and never set up. -/
theorem burst_loses_connection :
    ∃ q, Transition.Reach (Traffic.step Wire.runtime) Traffic.Started (fun _ _ => True) q ∧
      q.written 0 = List.replicate 11 5 ∧ q.handled 0 = List.replicate 10 5 ∧
      (q.server.workThread 0).newConnFd = [] ∧ Table.size (q.server.workThread 0).bevId = 10 :=
  exists_traffic Wire.runtime 1 burst _ _ (.of_forall (by simp) _) (by decide +kernel)

end Traffic

end Server

end EglComet
