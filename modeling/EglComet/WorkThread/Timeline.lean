import EglComet.WorkThread.Sessions
import EglComet.WorkThread.Heartbeats
import EglComet.WorkThread.NewConn

/-!
The server with a history of what its connections did and when: they are
accepted, they log in and they send heartbeats. The time that `_sub_map` stores
for an id is, over every run, the time of the last login or heartbeat of that id
on the connection of its session; and once a connection has logged in, the later
logins and heartbeats at its address are its own for as long as it lives.
-/
namespace EglComet

open Protobuf

/-- What a connection does; a login names the connection that is at its address. -/
inductive Activity where
  | accepted (w : ℕ) (b : Addr) (conn : ℕ)
  | login (w : ℕ) (b : Addr) (id : UInt64) (conn : Option ℕ)
  | heartbeat (w : ℕ) (b : Addr) (id : UInt64) (conn : ℕ)
  deriving DecidableEq, Repr

/-- A login that registers `id` on `b`, or a heartbeat from `b` while it is logged in as `id`. -/
def Activity.renews (w : ℕ) (b : Addr) (id : UInt64) : Activity → Bool
  | .accepted .. => false
  | .login v a x _ => decide (v = w ∧ a = b ∧ x = id)
  | .heartbeat v a x _ => decide (v = w ∧ a = b ∧ x = id)

/-- The number of the connection that is active. -/
def Activity.conn : Activity → Option ℕ
  | .accepted _ _ conn => some conn
  | .login _ _ _ conn => conn
  | .heartbeat _ _ _ conn => some conn

theorem Activity.renews_iff {w : ℕ} {b : Addr} {id : UInt64} {a : Activity} :
    a.renews w b id = true ↔
      (∃ conn, a = .login w b id conn) ∨ ∃ conn, a = .heartbeat w b id conn := by
  cases a with
  | accepted v c n => simp [Activity.renews]
  | login v c x n =>
    simp only [Activity.renews, decide_eq_true_eq, Activity.login.injEq, reduceCtorEq,
      exists_false, or_false]
    constructor
    · rintro ⟨rfl, rfl, rfl⟩
      exact ⟨n, rfl, rfl, rfl, rfl⟩
    · rintro ⟨-, hv, hc, hx, -⟩
      exact ⟨hv, hc, hx⟩
  | heartbeat v c x n =>
    simp only [Activity.renews, decide_eq_true_eq, Activity.heartbeat.injEq, reduceCtorEq,
      exists_false, false_or]
    constructor
    · rintro ⟨rfl, rfl, rfl⟩
      exact ⟨n, rfl, rfl, rfl, rfl⟩
    · rintro ⟨-, hv, hc, hx, -⟩
      exact ⟨hv, hc, hx⟩

def Obs.activity : Obs → Option Activity
  | .accepted w b conn => some (.accepted w b conn)
  | .registered w b id _ conn => some (.login w b id conn)
  | _ => none

/-- The last login or heartbeat of `id` on `b`, with its time. -/
def lastRenewal (w : ℕ) (b : Addr) (id : UInt64) (acts : List (Activity × Option ℤ)) :
    Option (Activity × Option ℤ) :=
  (acts.filter fun a => a.1.renews w b id).getLast?

section Renewals

variable {w : ℕ} {b : Addr} {id : UInt64} {acts new : List (Activity × Option ℤ)}

theorem lastRenewal_append_of_none (h : ∀ a ∈ new, a.1.renews w b id = false) :
    lastRenewal w b id (acts ++ new) = lastRenewal w b id acts := by
  have hn : new.filter (fun a => a.1.renews w b id) = [] := by
    rw [List.filter_eq_nil_iff]
    intro a ha
    simp [h a ha]
  rw [lastRenewal, List.filter_append, hn, List.append_nil]
  rfl

theorem lastRenewal_append_of_mem (h : ∃ a ∈ new, a.1.renews w b id = true) :
    ∃ a ∈ new, a.1.renews w b id = true ∧ lastRenewal w b id (acts ++ new) = some a := by
  obtain ⟨a, ha, hr⟩ := h
  have hm : a ∈ new.filter (fun a => a.1.renews w b id) := List.mem_filter.mpr ⟨ha, hr⟩
  have hne := List.ne_nil_of_mem hm
  obtain ⟨hlast, hren⟩ := List.mem_filter.mp (List.getLast_mem hne)
  refine ⟨_, hlast, hren, ?_⟩
  rw [lastRenewal, List.filter_append, List.getLast?_append_of_ne_nil _ hne,
    List.getLast?_eq_some_getLast hne]

theorem mem_of_lastRenewal {a : Activity × Option ℤ} (h : lastRenewal w b id acts = some a) :
    a ∈ acts := List.mem_of_mem_filter (List.mem_of_getLast? h)

end Renewals

namespace Server

/-- What the history of `t` has more than that of `s`. -/
def logged (s t : Server) : List Activity := (t.log.drop s.log.length).filterMap Obs.activity

/-- A heartbeat among the bytes that an event reads: the output of the connection grows by it. -/
def heartbeats (s t : Server) : Event → List Activity
  | .clientRead b _ =>
    match s.client b with
    | some (w, conn) =>
      if s.outputLength b < t.outputLength b then
        [.heartbeat w b (((s.workThread w).bevId.lookup b).getD 0) conn]
      else []
    | none => []
  | _ => []

def activities (s t : Server) (ev : Event) : List Activity := s.logged t ++ s.heartbeats t ev

section Activities

variable {σ : Type} (R : Runtime σ)

/-- What an event may leave behind: a login is registered with the connection that is at its
address once the previous session is gone, and only logins and heartbeats touch a session. -/
def Marked (s : Server) (x : Env × Event) : Item → Prop
  | .obs (.registered w b id _ conn) => ∃ d, s.approval R x.2 = some d ∧
      (w = d.workThread ∧ b = d.bev ∧ id = d.id) ∧
        conn = (s.registry.kick d.workThread d.id).connAt d.bev
  | .sub w id _ => (∃ d, s.approval R x.2 = some d ∧ w = d.workThread ∧ id = d.id) ∨
      ∃ b chunk, x.2 = .clientRead b chunk
  | _ => True

variable {R} {s t : Server} {x : Env × Event} {w : ℕ} {b : Addr} {id : UInt64} {a : Activity}

theorem permits_marked : s.Permits R x (s.Marked R x) where
  obs o ho := by cases o <;> simp_all [Marked, Obs.minor]
  offline _ _ := trivial
  client _ _ := trivial
  sent _ _ := trivial
  conns _ _ := trivial
  taken _ _ _ _ _ _ := trivial
  popped _ _ := trivial
  forwarded _ _ _ _ _ := trivial
  handled _ _ _ _ := trivial
  parser _ _ _ _ _ := trivial
  login _ _ _ _ _ _ _ _ _ _ _ _ _ := ⟨trivial, trivial⟩
  heartbeat w b conn buffer a input output r hr hc hh id hid h0 := by
    obtain ⟨chunk, -, -, hx, -⟩ := hr
    exact ⟨fun sub => Or.inr ⟨b, chunk, hx⟩, trivial⟩
  relay _ _ _ _ _ _ _ _ _ _ _ _ _ := ⟨fun _ => trivial, trivial, fun _ => trivial, trivial⟩
  loginOwner _ _ _ := trivial
  refused _ _ _ _ _ := trivial
  admitted d hd := ⟨⟨d, hd, ⟨rfl, rfl, rfl⟩, rfl⟩, Or.inl ⟨d, hd, rfl, rfl⟩, trivial,
    fun _ _ _ => trivial⟩
  transOwner _ _ _ := trivial
  enqueued _ _ _ := trivial
  dropped _ _ := trivial
  friends _ _ _ _ _ _ _ _ _ := trivial

theorem logged_of_append {added : List Obs} (h : t.log = s.log ++ added) :
    s.logged t = added.filterMap Obs.activity := by
  rw [logged, h, List.drop_left]

/-- A login in the history is the approved one. -/
theorem login_of_mem_logged {conn : Option ℕ} (ht : step R s x = some t)
    (h : .login w b id conn ∈ s.logged t) :
    ∃ d, s.approval R x.2 = some d ∧ (w = d.workThread ∧ b = d.bev ∧ id = d.id) ∧
      conn = (s.registry.kick d.workThread d.id).connAt d.bev := by
  obtain ⟨added, hl, hadd⟩ := (permits_marked.step ht).log
  rw [logged_of_append hl] at h
  obtain ⟨o, ho, ha⟩ := List.mem_filterMap.mp h
  have hm := hadd o ho
  cases o <;> simp only [Obs.activity, reduceCtorEq, Option.some.injEq] at ha
  obtain ⟨rfl, rfl, rfl, rfl⟩ := Activity.login.inj ha
  exact hm

theorem mem_heartbeats {ev : Event} (h : a ∈ s.heartbeats t ev) :
    ∃ w b chunk conn, ev = .clientRead b chunk ∧ s.client b = some (w, conn) ∧
      s.outputLength b < t.outputLength b ∧
        a = .heartbeat w b (((s.workThread w).bevId.lookup b).getD 0) conn := by
  unfold heartbeats at h
  split at h
  · rename_i b chunk
    split at h
    · rename_i w conn hc
      split_ifs at h with hlt
      · exact ⟨w, b, chunk, conn, rfl, hc, hlt, List.mem_singleton.mp h⟩
      · cases h
    · cases h
  · cases h

/-- The logins and heartbeats of a step: an approval, or a read from a connection whose output
grows. -/
theorem renewal_cases (ht : step R s x = some t) (ha : a ∈ s.activities t x.2)
    (hr : a.renews w b id = true) :
    (∃ d, s.approval R x.2 = some d ∧ (w = d.workThread ∧ b = d.bev ∧ id = d.id) ∧
      a.conn = (s.registry.kick d.workThread d.id).connAt d.bev) ∨
    ∃ chunk conn, x.2 = .clientRead b chunk ∧ s.client b = some (w, conn) ∧
      s.outputLength b < t.outputLength b ∧ ((s.workThread w).bevId.lookup b).getD 0 = id ∧
        a.conn = some conn := by
  rcases List.mem_append.mp ha with hl | hh
  · rcases Activity.renews_iff.mp hr with ⟨conn, rfl⟩ | ⟨conn, rfl⟩
    · exact Or.inl (login_of_mem_logged ht hl)
    · obtain ⟨o, -, ho⟩ := List.mem_filterMap.mp hl
      cases o <;> simp [Obs.activity] at ho
  · obtain ⟨v, c, chunk, conn, hx, hc, hlt, rfl⟩ := mem_heartbeats hh
    obtain ⟨rfl, rfl, hid⟩ : v = w ∧ c = b ∧ ((s.workThread v).bevId.lookup c).getD 0 = id := by
      simpa [Activity.renews] using hr
    exact Or.inr ⟨chunk, conn, hx, hc, hlt, hid, rfl⟩

/-- An approved login is in the history. -/
theorem login_mem_activities {d : LoginData} (ht : step R s x = some t)
    (hd : s.approval R x.2 = some d) :
    ∃ a ∈ s.activities t x.2, a.renews d.workThread d.bev d.id = true := by
  obtain ⟨u, js, hu, -, -, hg⟩ := step_of_approval ht hd
  obtain ⟨before, hb, -⟩ := hu.log
  obtain ⟨added, conn, hl, hm⟩ := log_registerLogin R x.1 u d js
  obtain ⟨after, ha, -⟩ := hg.log
  have hlog : t.log = s.log ++ (before ++ added ++ after) := by
    rw [ha, hl, hb]
    simp
  refine ⟨.login d.workThread d.bev d.id conn, List.mem_append_left _ ?_, by simp [Activity.renews]⟩
  rw [logged_of_append hlog]
  exact List.mem_filterMap.mpr
    ⟨_, List.mem_append_left after (List.mem_append_right before hm), rfl⟩

end Activities

section Renewed

variable {σ : Type} {R : Runtime σ} {s t : Server} {x : Env × Event} {w : ℕ} {id : UInt64}
  {sub : Subscriber}

/-- The session of an id is as it was, and nothing new is a login or heartbeat of the id on the
connection of the session; or something is, and the session has the current time. -/
def Renewed (s : Server) (new : List Activity) (now : Option ℤ) (w : ℕ) (id : UInt64)
    (sub : Subscriber) : Prop :=
  (s.sessions w id = some sub ∧ ∀ a ∈ new, a.renews w sub.bev id = false) ∨
    (some sub.lastHeartbeatTime = now ∧ ∃ a ∈ new, a.renews w sub.bev id = true)

theorem renewed_approval {d : LoginData} (ht : step R s x = some t)
    (hnow : x.1.now.isSome = true) (hd : s.approval R x.2 = some d)
    (hs : t.sessions w id = some sub) : s.Renewed (s.activities t x.2) x.1.now w id sub := by
  by_cases hsame : w = d.workThread ∧ id = d.id
  · obtain ⟨rfl, rfl⟩ := hsame
    obtain ⟨u, js, -, -, hw, -⟩ := step_of_approval ht hd
    have hnew : t.sessions d.workThread d.id =
        some (({} : Subscriber).setIdBev x.1.now d.id d.bev) := by
      rw [sessions, hw]
      exact sessions_registerLogin js
    obtain rfl : ({} : Subscriber).setIdBev x.1.now d.id d.bev = sub :=
      Option.some.inj (hnew.symm.trans hs)
    obtain ⟨n, hn⟩ := Option.isSome_iff_exists.mp hnow
    refine Or.inr ⟨by rw [hn]; rfl, ?_⟩
    rw [Subscriber.setIdBev_bev]
    exact login_mem_activities ht hd
  · have hread : ∀ b chunk, x.2 ≠ .clientRead b chunk := by
      intro b chunk hx
      simp [hx, approval] at hd
    left
    constructor
    · rcases (permits_marked.step ht).subs w id sub hs with hold | ⟨d', hd', rfl, rfl⟩ | hx
      · exact hold
      · obtain rfl : d = d' := Option.some.inj (hd.symm.trans hd')
        exact absurd ⟨rfl, rfl⟩ hsame
      · obtain ⟨b, chunk, hx⟩ := hx
        exact absurd hx (hread b chunk)
    · intro a ha
      rw [Bool.eq_false_iff]
      intro hr
      rcases renewal_cases ht ha hr with ⟨d', hd', ⟨rfl, -, rfl⟩, -⟩ | ⟨chunk, conn, hx, -⟩
      · obtain rfl : d = d' := Option.some.inj (hd.symm.trans hd')
        exact hsame ⟨rfl, rfl⟩
      · exact hread _ chunk hx

/-- A read refreshes the session of its connection exactly if it takes a heartbeat. -/
theorem sessions_step_read {env : Env} {b : Addr} {chunk : Bytes} (hu : s.Unmixed)
    (ht : step R s (env, .clientRead b chunk) = some t) :
    ∃ v conn, s.client b = some (v, conn) ∧ t.sessions =
      if s.outputLength b < t.outputLength b then
        refreshed env v (((s.workThread v).bevId.lookup b).getD 0) s.sessions
      else s.sessions := by
  rcases step_cases R ht with hq | ha
  · cases hq
  cases ha with
  | @clientRead v conn _ _ input output _ hb ht =>
    refine ⟨v, conn, client_of_lookup hb, sessions_read hb rfl ?_ ht⟩
    cases hh : (s.workThread v).analyseReq.isHeart with
    | false => exact Or.inl rfl
    | true =>
      right
      cases hl : (s.workThread v).bevId.lookup b with
      | none => rfl
      | some y => exact (hu.unheard v hh).1 b y hl

theorem lookup_of_getD_ne_zero {names : Table Addr UInt64} {b : Addr}
    (h : (names.lookup b).getD 0 ≠ 0) : names.lookup b = some ((names.lookup b).getD 0) := by
  cases hl : names.lookup b with
  | none => simp [hl] at h
  | some y => rfl

theorem renewed_read {env : Env} {b : Addr} {chunk : Bytes}
    (ht : step R s (env, .clientRead b chunk) = some t) (hb : s.registry.Backed) (hu : s.Unmixed)
    (hnow : env.now.isSome = true) (h0 : id ≠ 0) (hs : t.sessions w id = some sub) :
    s.Renewed (s.activities t (.clientRead b chunk)) env.now w id sub := by
  obtain ⟨v, conn, hc, hsess⟩ := sessions_step_read hu ht
  have hnone : ∀ a ∈ s.activities t (.clientRead b chunk), a.renews w sub.bev id = true →
      s.outputLength b < t.outputLength b ∧ w = v ∧
        id = ((s.workThread v).bevId.lookup b).getD 0 := by
    intro a ha hr
    rcases renewal_cases ht ha hr with ⟨d, hd, -⟩ | ⟨chunk', conn', hx, hc', hlt, hid, -⟩
    · simp [approval] at hd
    · obtain ⟨rfl, -⟩ := Event.clientRead.inj hx
      obtain ⟨rfl, -⟩ : v = w ∧ conn = conn' := by simpa [hc] using hc'
      exact ⟨hlt, rfl, hid.symm⟩
  rw [hsess] at hs
  by_cases hhere : s.outputLength b < t.outputLength b ∧ w = v ∧
      id = ((s.workThread v).bevId.lookup b).getD 0
  · obtain ⟨hlt, rfl, rfl⟩ := hhere
    rw [if_pos hlt, refreshed, if_pos ⟨rfl, rfl, h0⟩] at hs
    obtain ⟨old, hold, rfl⟩ := Option.map_eq_some_iff.mp hs
    obtain ⟨sub, hsub, hbev⟩ := subscriber_of_backed hb (lookup_of_getD_ne_zero h0) h0
    obtain rfl : old = sub := Option.some.inj (hold.symm.trans hsub)
    obtain ⟨n, hn⟩ := Option.isSome_iff_exists.mp hnow
    have hmem : .heartbeat w b (((s.workThread w).bevId.lookup b).getD 0) conn ∈
        s.activities t (.clientRead b chunk) := by
      apply List.mem_append_right
      simp [heartbeats, hc, hlt]
    refine Or.inr ⟨by simp only [hn]; rfl, _, hmem, ?_⟩
    simp [Activity.renews, hbev]
  · refine Or.inl ⟨?_, fun a ha => Bool.eq_false_iff.mpr fun hr => hhere (hnone a ha hr)⟩
    split_ifs at hs with hlt
    · rw [refreshed, if_neg fun h => hhere ⟨hlt, h.1, h.2.1⟩] at hs
      exact hs
    · exact hs

theorem renewed_step (ht : step R s x = some t) (hb : s.registry.Backed) (hu : s.Unmixed)
    (hnow : x.1.now.isSome = true) (h0 : id ≠ 0) (hs : t.sessions w id = some sub) :
    s.Renewed (s.activities t x.2) x.1.now w id sub := by
  by_cases hread : ∃ b chunk, x.2 = .clientRead b chunk
  · obtain ⟨env, ev⟩ := x
    obtain ⟨b, chunk, rfl⟩ := hread
    exact renewed_read ht hb hu hnow h0 hs
  cases hd : s.approval R x.2 with
  | some d => exact renewed_approval ht hnow hd hs
  | none =>
    left
    constructor
    · rcases (permits_marked.step ht).subs w id sub hs with hold | ⟨d, hd', -⟩ | hx
      · exact hold
      · simp [hd] at hd'
      · exact absurd hx hread
    · intro a ha
      rw [Bool.eq_false_iff]
      intro hr
      rcases renewal_cases ht ha hr with ⟨d, hd', -⟩ | ⟨chunk, conn, hx, -⟩
      · simp [hd] at hd'
      · exact hread ⟨_, chunk, hx⟩

end Renewed

section Continues

variable {σ : Type} {R : Runtime σ} {s t : Server} {x : Env × Event}

theorem client_of_occupant {b : Addr} {conn : ℕ} (h : s.occupant b = some conn) :
    ∃ w, s.client b = some (w, conn) := by
  obtain ⟨⟨w, c⟩, hc, rfl⟩ := Option.map_eq_some_iff.mp h
  exact ⟨w, hc⟩

/-- The server goes on from `s` to `t` at time `now` with some new activities. A connection that
was known is still where it was, and it is the one that logs in and sends heartbeats there. -/
structure Continues (s t : Server) (new : List Activity) (now : Option ℤ) : Prop where
  sessions : ∀ w id sub, id ≠ 0 → t.sessions w id = some sub → s.Renewed new now w id sub
  logins : ∀ w b id conn, .login w b id (some conn) ∈ new → conn < s.nextConn
  stays : ∀ b conn, t.occupant b = some conn → conn < s.nextConn → s.occupant b = some conn
  own : ∀ w b id conn, ∀ a ∈ new, a.renews w b id = true → t.occupant b = some conn →
    conn < s.nextConn → a.conn = some conn
  nextConn : s.nextConn ≤ t.nextConn

theorem Grows.occupant_eq {E : Item → Prop} (hg : Grows E s t) {b : Addr} {conn : ℕ}
    (ho : t.occupant b = some conn) (hn : conn < s.nextConn) : s.occupant b = some conn := by
  obtain ⟨w, hc⟩ := client_of_occupant ho
  rcases hg.clients b (w, conn) hc with hold | ⟨hnew, -⟩
  · simp [occupant, hold]
  · exact absurd hnew (by simpa using hn)

theorem continues_step (ht : step R s x = some t) (hb : s.registry.Backed) (hu : s.Unmixed)
    (hn : s.Numbered) (hnow : x.1.now.isSome = true) :
    Continues s t (s.activities t x.2) x.1.now where
  sessions _ _ _ h0 hs := renewed_step ht hb hu hnow h0 hs
  logins w b id conn hm := by
    have hr : Activity.renews w b id (.login w b id (some conn)) = true := by
      simp [Activity.renews]
    rcases renewal_cases ht hm hr with
      ⟨d, -, -, hc⟩ | ⟨chunk, conn', -, hcl, -, -, hc⟩
    · obtain ⟨c, hlive, rfl⟩ := Option.map_eq_some_iff.mp hc.symm
      rw [Registry.live_kick] at hlive
      split_ifs at hlive
      exact hn d.bev c hlive
    · obtain rfl : conn = conn' := Option.some.inj hc
      exact hn b (w, conn) hcl
  stays _ _ ho hlt := (step_grows ht).occupant_eq ho hlt
  own w b id conn a ha hr ho hlt := by
    rcases renewal_cases ht ha hr with ⟨d, hd, ⟨rfl, rfl, rfl⟩, hc⟩ | ⟨_, conn', -, hcl, -, -, hc⟩
    · obtain ⟨v, hcl⟩ := client_of_occupant ho
      rw [hc, Registry.connAt, live_of_approval ht hd hcl hlt]
      rfl
    · have hold := (step_grows ht).occupant_eq ho hlt
      rw [occupant, hcl] at hold
      rw [hc]
      exact hold
  nextConn := (step_grows ht).nextConn

/-- What the items of the connection pipe leave behind: no login and no session. -/
def Still : Item → Prop
  | .obs (.registered ..) => False
  | .sub _ _ _ => False
  | _ => True

theorem tolerant_still : Tolerant Still where
  obs o ho := by cases o <;> simp_all [Still, Obs.minor]
  offline _ _ := trivial
  client _ _ := trivial
  sent _ _ := trivial

theorem grows_handleItem (env : Env) (w : ℕ) (s : Server) (data : ℤ) :
    Grows Still s (handleItem env w s data) := by
  unfold handleItem
  split_ifs
  · exact grows_newConnection tolerant_still
  · exact grows_modifyConns trivial rfl
  · exact grows_delExpireClient tolerant_still
  · exact Grows.refl s

theorem continues_items (env : Env) (w : ℕ) (s : Server) (items : List ℤ) :
    Continues s (items.foldl (handleItem env w) s)
      (s.logged (items.foldl (handleItem env w) s)) env.now := by
  have hg : Grows Still s (items.foldl (handleItem env w) s) :=
    grows_foldl (grows_handleItem env w) items s
  have hnone : ∀ v b id, ∀ a ∈ s.logged (items.foldl (handleItem env w) s),
      a.renews v b id = false := by
    intro v b id a ha
    obtain ⟨added, hl, hadd⟩ := hg.log
    rw [logged_of_append hl] at ha
    obtain ⟨o, ho, ha⟩ := List.mem_filterMap.mp ha
    have hm := hadd o ho
    cases o <;> simp only [Obs.activity, reduceCtorEq, Option.some.injEq] at ha
    · rw [← ha]
      rfl
    · exact hm.elim
  constructor
  · intro v id sub _ hs
    exact Or.inl ⟨(hg.subs v id sub hs).resolve_right fun h => h, hnone v sub.bev id⟩
  · intro v b id conn hm
    simpa [Activity.renews] using hnone v b id _ hm
  · exact fun b conn ho hlt => hg.occupant_eq ho hlt
  · intro v b id conn a ha hr
    simp [hnone v b id a ha] at hr
  · exact hg.nextConn

end Continues

end Server

/-- A server with the history of its connections and the clock at each entry. -/
structure Timeline where
  server : Server
  acts : List (Activity × Option ℤ) := []

namespace Timeline

def Started (q : Timeline) : Prop := ∃ s : Server, s.Started ∧ q = { server := s }

/-- The server goes on to `t`, with new activities at one time. -/
def extend (q : Timeline) (t : Server) (new : List Activity) (now : Option ℤ) : Timeline :=
  ⟨t, q.acts ++ new.map fun a => (a, now)⟩

variable {σ : Type} (R : Runtime σ)

def step (q : Timeline) (x : Env × Event) : Option Timeline :=
  (Server.step R q.server x).map fun t => q.extend t (q.server.activities t x.2) x.1.now

/-- The clock can be read. -/
def Clocked (_ : Timeline) (x : Env × Event) : Prop := x.1.now.isSome = true

instance (q : Timeline) (x : Env × Event) : Decidable (q.Clocked x) :=
  inferInstanceAs (Decidable (_ = true))

/-- The time of a session is that of the last login or heartbeat of its id on its connection, and
at the address of a connection that has logged in these are its own. -/
structure Dated (q : Timeline) : Prop where
  sessions : ∀ w id sub, id ≠ 0 → q.server.sessions w id = some sub →
    ∃ a, lastRenewal w sub.bev id q.acts = some (a, some sub.lastHeartbeatTime)
  known : ∀ w b id conn t, (.login w b id (some conn), t) ∈ q.acts → conn < q.server.nextConn
  own : ∀ w b id conn t, (.login w b id (some conn), t) ∈ q.acts →
    q.server.occupant b = some conn →
      ∃ a, lastRenewal w b id q.acts = some a ∧ a.1.conn = some conn

variable {R} {q : Timeline} {t : Server} {new : List Activity} {now : Option ℤ}

theorem lastRenewal_extend_of_none {w : ℕ} {b : Addr} {id : UInt64}
    (h : ∀ a ∈ new, a.renews w b id = false) :
    lastRenewal w b id (q.extend t new now).acts = lastRenewal w b id q.acts := by
  apply lastRenewal_append_of_none
  intro a ha
  obtain ⟨a, hm, rfl⟩ := List.mem_map.mp ha
  exact h a hm

theorem lastRenewal_extend_of_mem (q : Timeline) (t : Server) (now : Option ℤ) {w : ℕ} {b : Addr}
    {id : UInt64} (h : ∃ a ∈ new, a.renews w b id = true) :
    ∃ a ∈ new, a.renews w b id = true ∧
      lastRenewal w b id (q.extend t new now).acts = some (a, now) := by
  obtain ⟨a, ha, hr⟩ := h
  have hmem : (a, now) ∈ new.map fun a => (a, now) := List.mem_map.mpr ⟨a, ha, rfl⟩
  obtain ⟨p, hp, hren, hlast⟩ := lastRenewal_append_of_mem ⟨(a, now), hmem, hr⟩
  obtain ⟨a', ha', rfl⟩ := List.mem_map.mp hp
  exact ⟨a', ha', hren, hlast⟩

theorem Dated.extend (h : q.Dated) (hc : q.server.Continues t new now) :
    (q.extend t new now).Dated := by
  have hknown : ∀ w b id conn τ, (.login w b id (some conn), τ) ∈ (q.extend t new now).acts →
      conn < q.server.nextConn := by
    intro w b id conn τ hm
    rcases List.mem_append.mp hm with hold | hnew
    · exact h.known w b id conn τ hold
    · obtain ⟨a, ha, heq⟩ := List.mem_map.mp hnew
      obtain ⟨rfl, -⟩ := Prod.mk.inj heq
      exact hc.logins w b id conn ha
  constructor
  · intro w id sub h0 hs
    rcases hc.sessions w id sub h0 hs with ⟨hold, hnone⟩ | ⟨hnow, hmem⟩
    · rw [lastRenewal_extend_of_none hnone]
      exact h.sessions w id sub h0 hold
    · obtain ⟨a, -, -, hlast⟩ := lastRenewal_extend_of_mem q t now hmem
      exact ⟨a, by rw [hlast, hnow]⟩
  · intro w b id conn τ hm
    exact (hknown w b id conn τ hm).trans_le hc.nextConn
  · intro w b id conn τ hm ho
    have hlt := hknown w b id conn τ hm
    by_cases hnew : ∃ a ∈ new, a.renews w b id = true
    · obtain ⟨a, ha, hr, hlast⟩ := lastRenewal_extend_of_mem q t now hnew
      exact ⟨_, hlast, hc.own w b id conn a ha hr ho hlt⟩
    · have hnone : ∀ a ∈ new, a.renews w b id = false :=
        fun a ha => Bool.eq_false_iff.mpr fun hr => hnew ⟨a, ha, hr⟩
      have hold : (.login w b id (some conn), τ) ∈ q.acts := by
        rcases List.mem_append.mp hm with hold | hmem
        · exact hold
        · obtain ⟨a, ha, heq⟩ := List.mem_map.mp hmem
          obtain ⟨rfl, -⟩ := Prod.mk.inj heq
          simpa [Activity.renews] using hnone _ ha
      rw [lastRenewal_extend_of_none hnone]
      exact h.own w b id conn τ hold (hc.stays b conn ho hlt)

/-- A run of the timeline is a run of the server. -/
theorem reached (h : Transition.Reach (step R) Started Clocked q) :
    Server.Reached R (fun _ _ => True) q.server := by
  apply Transition.Reach.map Timeline.server _ _ h
  · rintro q ⟨s, hs, rfl⟩
    exact hs
  · intro q x q' _ hq
    obtain ⟨t, ht, rfl⟩ := Option.map_eq_some_iff.mp hq
    exact ⟨trivial, ht⟩

theorem dated_reached (h : Transition.Reach (step R) Started Clocked q) : q.Dated := by
  induction h with
  | start hs =>
    obtain ⟨s, ⟨num, cap, ping, url, heart, rfl⟩, rfl⟩ := hs
    refine ⟨fun w id sub _ hsub => ?_, fun _ _ _ _ _ hm => ?_, fun _ _ _ _ _ hm _ => ?_⟩
    · simp [Server.sessions, Server.start] at hsub
    · cases hm
    · cases hm
  | next hq hok hstep ih =>
    obtain ⟨t, ht, rfl⟩ := Option.map_eq_some_iff.mp hstep
    have hr := reached hq
    have hu : Server.Unmixed _ := Transition.Reach.invariant (fun _ => Server.unmixed_started)
      (fun _ _ _ hu _ ht => hu.step ht) hr
    exact ih.extend
      (Server.continues_step ht (Server.Reached.backed hr) hu (Server.numbered_reached hr) hok)

end Timeline

end EglComet
