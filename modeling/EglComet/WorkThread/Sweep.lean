import EglComet.WorkThread.Frame
import EglComet.WorkThread.Timeline

/-!
What a sweep decides. `del_expire_client` walks the connections and looks at the
time that is stored under the id of each: a connection with an id other than
zero goes exactly if the last login or heartbeat of this id on it is too long
ago. A connection without an id has no time, and no sweep ever looks at when it
was accepted.
-/
namespace EglComet

open Protobuf

namespace Server

section Entries

variable {w : ℕ} {now : ℤ} {s : Server} {b c : Addr} {id : UInt64} {sub : Subscriber}

/-- One turn of the loop does nothing, or it drops an entry whose session is too old. -/
theorem expireEntry_cases (w : ℕ) (now : ℤ) (s : Server) (b : Addr) :
    expireEntry w now s b = s ∧ (∀ id sub, (s.workThread w).bevId.lookup b = some id →
      s.sessions w id = some sub →
        now - sub.lastHeartbeatTime ≤ (s.workThread w).timeout) ∨
    ∃ id sub, (s.workThread w).bevId.lookup b = some id ∧ s.sessions w id = some sub ∧
      now - sub.lastHeartbeatTime > (s.workThread w).timeout ∧
      ((expireEntry w now s b).workThread w).bevId = (s.workThread w).bevId.erase b ∧
      ((expireEntry w now s b).workThread w).subMap = (s.workThread w).subMap.erase id ∧
      (expireEntry w now s b).heap = s.heap.erase b := by
  cases hb : (s.workThread w).bevId.lookup b with
  | none => exact Or.inl ⟨by simp only [expireEntry, hb], by simp⟩
  | some id =>
    cases hs : (s.workThread w).subMap.lookup id with
    | none =>
      left
      simp only [expireEntry, hb, hs, true_and]
      rintro x sub ⟨⟩ hsub
      cases hs.symm.trans hsub
    | some sub =>
      simp only [expireEntry, hb, hs]
      split_ifs with hlate
      · right
        refine ⟨id, sub, rfl, hs, hlate, ?_⟩
        unfold requestOffline
        split_ifs <;>
          simp [redisAsyncCommand, modify, bufferEventFree, emit, setHeap]
      · left
        refine ⟨rfl, ?_⟩
        rintro x sub' ⟨⟩ hsub
        obtain rfl : sub = sub' := Option.some.inj (hs.symm.trans hsub)
        omega

theorem timeout_expireEntry (w : ℕ) (now : ℤ) (s : Server) (b : Addr) :
    ((expireEntry w now s b).workThread w).timeout = (s.workThread w).timeout :=
  congrArg (fun t => MachineInt.wrap32 (2 * t))
    (congrFun (congrArg Config.pingTime (config_expireEntry w now s b)) w)

/-- An entry that is still there after a turn of the loop is as it was, with its bufferevent. -/
theorem expireEntry_keeps (h : b ∈ ((expireEntry w now s c).workThread w).bevId) :
    ((expireEntry w now s c).workThread w).bevId.lookup b = (s.workThread w).bevId.lookup b ∧
      (expireEntry w now s c).heap.lookup b = s.heap.lookup b := by
  rcases expireEntry_cases w now s c with ⟨he, -⟩ | ⟨id, sub, -, -, -, hn, -, hh⟩
  · rw [he]
    exact ⟨rfl, rfl⟩
  · rw [hn] at h ⊢
    have hne : b ≠ c := by
      rintro rfl
      exact Finmap.notMem_erase_self h
    rw [hh, Finmap.lookup_erase_ne hne, Finmap.lookup_erase_ne hne]
    exact ⟨rfl, rfl⟩

theorem foldl_expireEntry_keeps {bs : List Addr}
    (h : b ∈ ((bs.foldl (expireEntry w now) s).workThread w).bevId) :
    ((bs.foldl (expireEntry w now) s).workThread w).bevId.lookup b =
        (s.workThread w).bevId.lookup b ∧
      (bs.foldl (expireEntry w now) s).heap.lookup b = s.heap.lookup b := by
  induction bs generalizing s with
  | nil => exact ⟨rfl, rfl⟩
  | cons c bs ih =>
    obtain ⟨hn, hh⟩ := ih h
    have hc : b ∈ ((expireEntry w now s c).workThread w).bevId := by
      rw [← Finmap.lookup_isSome, ← hn, Finmap.lookup_isSome]
      exact h
    obtain ⟨hn', hh'⟩ := expireEntry_keeps hc
    exact ⟨hn.trans hn', hh.trans hh'⟩

/-- The connection at `b` is logged in under an id other than zero, and `sub` is its session. -/
structure LoggedIn (s : Server) (w : ℕ) (b : Addr) (id : UInt64) (sub : Subscriber) : Prop where
  backed : s.registry.Backed
  nonzero : id ≠ 0
  name : (s.workThread w).bevId.lookup b = some id
  session : s.sessions w id = some sub

theorem loggedIn_of_backed (hb : s.registry.Backed)
    (hl : (s.workThread w).bevId.lookup b = some id) (h0 : id ≠ 0) :
    ∃ sub, s.LoggedIn w b id sub ∧ sub.bev = b := by
  obtain ⟨sub, hs, hbev⟩ := subscriber_of_backed hb hl h0
  exact ⟨sub, ⟨hb, h0, hl, hs⟩, hbev⟩

/-- A turn of the loop leaves a session alone unless it is too old and the turn is its own. -/
theorem LoggedIn.expireEntry (h : s.LoggedIn w b id sub)
    (hc : c ≠ b ∨ now - sub.lastHeartbeatTime ≤ (s.workThread w).timeout) :
    (expireEntry w now s c).LoggedIn w b id sub ∧
      (expireEntry w now s c).heap.lookup b = s.heap.lookup b := by
  rcases expireEntry_cases w now s c with ⟨he, -⟩ | ⟨x, old, hx, hold, hlate, hn, hs, hh⟩
  · rw [he]
    exact ⟨h, rfl⟩
  have hne : c ≠ b := by
    rcases hc with hc | hc
    · exact hc
    · rintro rfl
      obtain rfl : id = x := Option.some.inj (h.name.symm.trans hx)
      obtain rfl : sub = old := Option.some.inj (h.session.symm.trans hold)
      omega
  have hid : id ≠ x := by
    rintro rfl
    obtain ⟨u, hu, hub⟩ := subscriber_of_backed h.backed h.name h.nonzero
    obtain ⟨v, hv, hvc⟩ := subscriber_of_backed h.backed hx h.nonzero
    obtain rfl : u = v := Option.some.inj (hu.symm.trans hv)
    exact hne (hvc.symm.trans hub)
  refine ⟨⟨?_, h.nonzero, ?_, ?_⟩, ?_⟩
  · have hm : Registry.Moves (fun _ _ => True) s.registry
        (Server.expireEntry w now s c).registry := expireEntry_moves (fun _ _ => trivial) now s c
    exact hm.invariant (fun r l hr _ _ => hr.apply l) h.backed
  · rw [hn, Finmap.lookup_erase_ne (Ne.symm hne)]
    exact h.name
  · rw [sessions, hs, Finmap.lookup_erase_ne hid]
    exact h.session
  · rw [hh, Finmap.lookup_erase_ne (Ne.symm hne)]

theorem LoggedIn.kept (h : s.LoggedIn w b id sub) (bs : List Addr)
    (hc : now - sub.lastHeartbeatTime ≤ (s.workThread w).timeout) :
    (bs.foldl (Server.expireEntry w now) s).LoggedIn w b id sub ∧
      (bs.foldl (Server.expireEntry w now) s).heap.lookup b = s.heap.lookup b := by
  induction bs generalizing s with
  | nil => exact ⟨h, rfl⟩
  | cons c bs ih =>
    obtain ⟨hc', hh⟩ := h.expireEntry (c := c) (Or.inr hc)
    obtain ⟨hl, hh'⟩ := ih hc' (by rw [timeout_expireEntry]; exact hc)
    exact ⟨hl, hh'.trans hh⟩

theorem LoggedIn.dropped {bs : List Addr} (h : s.LoggedIn w b id sub)
    (hlate : now - sub.lastHeartbeatTime > (s.workThread w).timeout) (hb : b ∈ bs) :
    b ∉ ((bs.foldl (Server.expireEntry w now) s).workThread w).bevId := by
  induction bs generalizing s with
  | nil => cases hb
  | cons c bs ih =>
    by_cases hc : c = b
    · subst hc
      intro hm
      obtain ⟨hkept, -⟩ := foldl_expireEntry_keeps (s := Server.expireEntry w now s c) hm
      rcases expireEntry_cases w now s c with ⟨-, hnot⟩ | ⟨-, -, -, -, -, hn, -⟩
      · have hle := hnot id sub h.name h.session
        omega
      · rw [hn, Finmap.lookup_erase] at hkept
        exact Finmap.lookup_eq_none.mp hkept hm
    · have hl : (Server.expireEntry w now s c).LoggedIn w b id sub := (h.expireEntry (Or.inl hc)).1
      exact ih hl (by rw [timeout_expireEntry]; exact hlate)
        ((List.mem_cons.mp hb).resolve_left (Ne.symm hc))

end Entries

theorem backed_handleItem (env : Env) (w : ℕ) {s : Server} (data : ℤ) (h : s.registry.Backed) :
    (handleItem env w s data).registry.Backed := by
  unfold handleItem
  split_ifs
  · rw [registry_newConnection]
    exact h.apply _
  · rw [registry_modify_of_eq rfl rfl rfl]
    exact h
  · have hm : Registry.Moves (fun _ _ => True) s.registry (s.delExpireClient env w).registry :=
      delExpireClient_moves (fun _ _ => trivial) env s
    exact hm.invariant (fun r l hr _ _ => hr.apply l) h
  · exact h

end Server

namespace Timeline

/-- The timeline after a worker has handled some items of its connection pipe. -/
def handled (q : Timeline) (env : Env) (w : ℕ) (items : List ℤ) : Timeline :=
  let t := items.foldl (Server.handleItem env w) q.server
  q.extend t (q.server.logged t) env.now

/-- Connection `conn` was accepted, logged in or sent a heartbeat no earlier than `since`. -/
def ActiveSince (q : Timeline) (since : ℤ) (conn : ℕ) : Prop :=
  ∃ a ∈ q.acts, a.1.conn = some conn ∧ ∃ t ∈ a.2, since ≤ t

instance (q : Timeline) (since : ℤ) (conn : ℕ) : Decidable (q.ActiveSince since conn) :=
  inferInstanceAs (Decidable (∃ a ∈ q.acts, _))

/-- Every entry of `_bev_id` is a live connection that has itself logged in under the id of the
entry, which is not zero, or that was active no earlier than `since`. -/
def Accountable (q : Timeline) (w : ℕ) (since : ℤ) : Prop :=
  ∀ b ∈ (q.server.workThread w).bevId.keys, ∃ conn ∈ q.server.occupant b,
    ((q.server.workThread w).bevId.lookup b).getD 0 ≠ 0 ∧
        .login w b (((q.server.workThread w).bevId.lookup b).getD 0) (some conn) ∈
          q.acts.map Prod.fst ∨
      q.ActiveSince since conn

instance (q : Timeline) (w : ℕ) (since : ℤ) : Decidable (q.Accountable w since) :=
  have : ∀ b : Addr, Decidable (∃ conn ∈ q.server.occupant b,
      ((q.server.workThread w).bevId.lookup b).getD 0 ≠ 0 ∧
          .login w b (((q.server.workThread w).bevId.lookup b).getD 0) (some conn) ∈
            q.acts.map Prod.fst ∨
        q.ActiveSince since conn) := fun _ => Option.decidableExistsMem _
  Finset.decidableDforallFinset

variable {σ : Type} (R : Runtime σ)

/-- In some run, worker `w` comes to an item of its pipe that asks for a sweep. -/
def AtSweep (env : Env) (w : ℕ) (p : Timeline) : Prop :=
  ∃ q before after, Transition.Reach (step R) Started Clocked q ∧ q.Clocked (env, .newConn w) ∧
    (step R q (env, .newConn w)).isSome = true ∧
      handledItems 10 (q.server.workThread w).newConnFd = before ++ -2 :: after ∧
        p = q.handled env w before

variable {R} {env : Env} {w : ℕ} {p : Timeline} {b : Addr} {id : UInt64}

theorem AtSweep.dated (h : AtSweep R env w p) : p.Dated := by
  obtain ⟨q, before, after, hq, -, -, -, rfl⟩ := h
  exact (dated_reached hq).extend (Server.continues_items env w q.server before)

theorem AtSweep.backed (h : AtSweep R env w p) : p.server.registry.Backed := by
  obtain ⟨q, before, after, hq, -, -, -, rfl⟩ := h
  exact List.foldlRecOn (motive := fun s : Server => s.registry.Backed) before _
    (Server.Reached.backed (reached hq)) fun s hs data _ => Server.backed_handleItem env w data hs

theorem AtSweep.clock (h : AtSweep R env w p) : ∃ now, env.now = some now := by
  obtain ⟨q, before, after, -, hc, -⟩ := h
  exact Option.isSome_iff_exists.mp hc

theorem handled_nil (q : Timeline) (env : Env) (w : ℕ) : q.handled env w [] = q := by
  simp [handled, extend, Server.logged]

/-- A run after which the worker finds the order to sweep as the only item. -/
theorem exists_atSweep (R : Runtime σ) {start : Server} (hstart : start.Started)
    (events : List (Env × Event)) (env : Env) (w : ℕ) (P : Timeline → Prop) [DecidablePred P]
    (hok : Transition.RunOk (step R) Clocked { server := start } events)
    (hnow : env.now.isSome = true)
    (hr : (Transition.run (step R) { server := start } events).any (fun q => decide
      (((step R q (env, .newConn w)).isSome = true ∧
        handledItems 10 (q.server.workThread w).newConnFd = [-2]) ∧ P q)) = true) :
    ∃ p, AtSweep R env w p ∧ P p := by
  have hs : Started { server := start } := ⟨_, hstart, rfl⟩
  obtain ⟨q, hq, ⟨hrun, hitems⟩, hp⟩ := Transition.Reach.exists_of_run hs hok hr
  exact ⟨q, ⟨q, [], [], hq, hnow, hrun, hitems, (handled_nil q env w).symm⟩, hp⟩

/-- The environment of the other runs at a given time. -/
def envAt (a : Addr) (now : ℤ) : Env := { plainEnv a with now := some now }

/-- In every run in which twice the ping time fits an `int`, a sweep takes a connection that is
logged in under an id other than zero only if the last login or heartbeat of this id on the
connection is more than twice the ping time ago. -/
theorem swept_only_if_silent (h : AtSweep R env w p)
    (hfit : (p.server.workThread w).TimeoutFits)
    (hl : (p.server.workThread w).bevId.lookup b = some id) (h0 : id ≠ 0)
    (hswept : b ∉ ((p.server.delExpireClient env w).workThread w).bevId ∨
      (p.server.delExpireClient env w).heap.lookup b ≠ p.server.heap.lookup b) :
    ∃ now a last, env.now = some now ∧ lastRenewal w b id p.acts = some (a, some last) ∧
      now - last > 2 * (p.server.workThread w).pingTime := by
  obtain ⟨now, hnow⟩ := h.clock
  obtain ⟨sub, hin, rfl⟩ := Server.loggedIn_of_backed h.backed hl h0
  obtain ⟨a, ha⟩ := h.dated.sessions w id sub h0 hin.session
  refine ⟨now, a, sub.lastHeartbeatTime, hnow, ha, ?_⟩
  by_contra hlate
  have hle : now - sub.lastHeartbeatTime ≤ (p.server.workThread w).timeout := by
    rw [hfit.timeout_eq]
    omega
  obtain ⟨hkept, hheap⟩ := hin.kept (env.order.toList (p.server.workThread w).bevId) hle
  simp only [Server.delExpireClient, hnow] at hswept
  rcases hswept with hgone | hgone
  · exact hgone (Table.mem_of_lookup hkept.name)
  · exact hgone hheap

/-- A connection logs in at time 100 and sends nothing more. -/
def silence : List (Env × Event) :=
  connect 0 1 ++ login 0 1 7 ++ [(plainEnv 1, .timer)]

theorem silence_swept :
    ∃ p, AtSweep Wire.runtime (envAt 1 1000) 0 p ∧ (p.server.workThread 0).TimeoutFits ∧
      (p.server.workThread 0).bevId.lookup 1 = some 7 ∧
      1 ∉ ((p.server.delExpireClient (envAt 1 1000) 0).workThread 0).bevId ∧
      ∃ now a last, (envAt 1 1000).now = some now ∧
        lastRenewal 0 1 7 p.acts = some (a, some last) ∧
          now - last > 2 * (p.server.workThread 0).pingTime := by
  obtain ⟨p, hp, hfit, hl, hgone⟩ := exists_atSweep Wire.runtime (deployment_started 1) silence
    (envAt 1 1000) 0
    (fun p => (p.server.workThread 0).TimeoutFits ∧
      (p.server.workThread 0).bevId.lookup 1 = some 7 ∧
      1 ∉ ((p.server.delExpireClient (envAt 1 1000) 0).workThread 0).bevId)
    (by decide +kernel) rfl (by decide +kernel)
  exact ⟨p, hp, hfit, hl, hgone, swept_only_if_silent hp hfit hl (by decide) (Or.inl hgone)⟩

/-- With a `heartbeat_time` of `2 ^ 30` the product is `-2 ^ 31`. -/
def overflowing : Server := Server.start 1 10 (2 ^ 30) [] fun _ => false

/-- A connection that logs in at time 100 is swept in the same second. -/
theorem overflowing_sweeps_active :
    ∃ p, AtSweep Wire.runtime (envAt 1 100) 0 p ∧
      (p.server.workThread 0).bevId.lookup 1 = some 7 ∧
      1 ∉ ((p.server.delExpireClient (envAt 1 100) 0).workThread 0).bevId ∧
      ∃ a, lastRenewal 0 1 7 p.acts = some (a, some 100) ∧
        ¬ (100 : ℤ) - 100 > 2 * (p.server.workThread 0).pingTime := by
  obtain ⟨p, hp, hl, hgone, hlast, hping⟩ := exists_atSweep Wire.runtime
    (⟨1, 10, 2 ^ 30, [], _, rfl⟩ : overflowing.Started) silence (envAt 1 100) 0
    (fun p => (p.server.workThread 0).bevId.lookup 1 = some 7 ∧
      1 ∉ ((p.server.delExpireClient (envAt 1 100) 0).workThread 0).bevId ∧
      (lastRenewal 0 1 7 p.acts).map Prod.snd = some (some 100) ∧
      ¬ (100 : ℤ) - 100 > 2 * (p.server.workThread 0).pingTime)
    (by decide +kernel) rfl (by decide +kernel)
  obtain ⟨⟨a, t⟩, ha, rfl⟩ := Option.map_eq_some_iff.mp hlast
  exact ⟨p, hp, hl, hgone, a, ha, hping⟩

/-- After a sweep every connection of the worker was accepted, logged in or sent a heartbeat within
the last two ping times, if twice the ping time fits an `int` and before the sweep the connections
that were silent for longer had all logged in under the ids that they carry. -/
theorem survivors_active {now : ℤ} (h : AtSweep R env w p) (hnow : env.now = some now)
    (hfit : (p.server.workThread w).TimeoutFits)
    (hacc : p.Accountable w (now - 2 * (p.server.workThread w).pingTime))
    (hb : b ∈ ((p.server.delExpireClient env w).workThread w).bevId) :
    ∃ conn, (p.server.delExpireClient env w).occupant b = some conn ∧
      p.ActiveSince (now - 2 * (p.server.workThread w).pingTime) conn := by
  have hsweep : p.server.delExpireClient env w =
      (env.order.toList (p.server.workThread w).bevId).foldl (Server.expireEntry w now)
        p.server := by
    simp only [Server.delExpireClient, hnow]
  rw [hsweep] at hb ⊢
  obtain ⟨hname, hheap⟩ := Server.foldl_expireEntry_keeps hb
  obtain ⟨id, hid⟩ := Finmap.mem_iff.mp hb
  rw [hname] at hid
  have hmem := Table.mem_of_lookup hid
  obtain ⟨conn, ho, hwhy⟩ := hacc b (Finmap.mem_keys.mpr hmem)
  refine ⟨conn, ?_, ?_⟩
  · rw [Server.occupant, Server.client, clientIn, hheap]
    exact ho
  rcases hwhy with ⟨h0, hlogin⟩ | hactive
  · rw [hid, Option.getD_some] at h0 hlogin
    obtain ⟨⟨a, t⟩, ha, rfl⟩ := List.mem_map.mp hlogin
    obtain ⟨sub, hin, rfl⟩ := Server.loggedIn_of_backed h.backed hid h0
    obtain ⟨a, hlast⟩ := h.dated.sessions w id sub h0 hin.session
    obtain ⟨a', hlast', hconn⟩ := h.dated.own w _ id conn t ha ho
    obtain rfl : a' = (a, some sub.lastHeartbeatTime) :=
      Option.some.inj (hlast'.symm.trans hlast)
    refine ⟨_, mem_of_lastRenewal hlast, hconn, sub.lastHeartbeatTime, rfl, ?_⟩
    by_contra hlt
    have hlate : now - sub.lastHeartbeatTime > (p.server.workThread w).timeout := by
      rw [hfit.timeout_eq]
      omega
    exact hin.dropped hlate ((env.order.mem_toList _ _).mpr hmem) hb
  · exact hactive

/-- A connection logs in at time 100 and sends a heartbeat at 950. -/
def lateHeartbeat : List (Env × Event) :=
  connect 0 1 ++ login 0 1 7 ++
    [(envAt 1 950, .clientRead 1 [0x11, 0x20, 0x00, 0x00]), (plainEnv 1, .timer)]

theorem lateHeartbeat_survives :
    ∃ p, AtSweep Wire.runtime (envAt 1 1000) 0 p ∧ (p.server.workThread 0).TimeoutFits ∧
      1 ∈ ((p.server.delExpireClient (envAt 1 1000) 0).workThread 0).bevId ∧
      ∃ conn, (p.server.delExpireClient (envAt 1 1000) 0).occupant 1 = some conn ∧
        p.ActiveSince (1000 - 2 * (p.server.workThread 0).pingTime) conn := by
  obtain ⟨p, hp, hfit, hacc, hb⟩ := exists_atSweep Wire.runtime (deployment_started 1)
    lateHeartbeat (envAt 1 1000) 0
    (fun p => (p.server.workThread 0).TimeoutFits ∧
      p.Accountable 0 (1000 - 2 * (p.server.workThread 0).pingTime) ∧
      1 ∈ ((p.server.delExpireClient (envAt 1 1000) 0).workThread 0).bevId)
    (by decide +kernel) rfl (by decide +kernel)
  exact ⟨p, hp, hfit, hb, survivors_active hp rfl hfit hacc hb⟩

/-- A connection is accepted at time 100 and never logs in. -/
def neverLoggedIn : List (Env × Event) := connect 0 1 ++ [(plainEnv 1, .timer)]

/-- The sweep at time 1000 leaves it in the table. -/
theorem neverLoggedIn_survives :
    ∃ p, AtSweep Wire.runtime (envAt 1 1000) 0 p ∧
      1 ∈ ((p.server.delExpireClient (envAt 1 1000) 0).workThread 0).bevId ∧
      (p.server.delExpireClient (envAt 1 1000) 0).occupant 1 = some 0 ∧
        ¬ p.ActiveSince (1000 - 2 * (p.server.workThread 0).pingTime) 0 :=
  exists_atSweep Wire.runtime (deployment_started 1) neverLoggedIn (envAt 1 1000) 0 _
    (by decide +kernel) rfl (by decide +kernel)

end Timeline

end EglComet
