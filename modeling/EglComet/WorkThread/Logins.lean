import EglComet.WorkThread.StepEffects

/-!
Which connection an approval reaches. An outstanding login or friend-list
lookup keeps only the address of the connection that asked; the callbacks test
that the worker still knows the address, not that the same connection lives
there.
-/
namespace EglComet

open Protobuf

/-- The address and the connection that a redis callback will act on. -/
def RedisCallback.asker : RedisCallback → Option (Addr × ℕ)
  | .login d => some (d.bev, d.conn)
  | .online info => some (info.bev, info.conn)
  | _ => none

/-- The worker that a redis callback will act for. -/
def RedisCallback.worker : RedisCallback → ℕ
  | .login d => d.workThread
  | .trans d => d.workThread
  | .online info => info.workThread
  | .offline info => info.workThread

/-- The worker, the address and the connection that an HTTP login check will act on. -/
def Owner.asker : Owner → Option (ℕ × Addr × ℕ)
  | .httpLogin d _ => some (d.workThread, d.bev, d.conn)
  | _ => none

/-- The worker and the address of a new connection. -/
def Obs.opened : Obs → Option (ℕ × Addr)
  | .accepted w b _ => some (w, b)
  | _ => none

/-- A registration or friend list goes to the connection that asked for it. -/
def Obs.Truthful : Obs → Prop
  | .registered _ _ _ asker occupant => occupant = some asker
  | .friendList _ _ _ asker occupant => occupant = some asker
  | _ => True

namespace Server

/-- Worker `w` has an outstanding login or friend-list lookup for the address `b`. -/
def AwaitsAt (s : Server) (w : ℕ) (b : Addr) : Prop :=
  (∃ c ∈ (s.workThread w).redis, c.callback.asker.map Prod.fst = some b) ∨
    ∃ h ∈ s.heap.keys, ∃ be ∈ s.heap.lookup h,
      be.owner.asker.map (fun q => (q.1, q.2.1)) = some (w, b)

instance (s : Server) (w : ℕ) (b : Addr) : Decidable (s.AwaitsAt w b) :=
  inferInstanceAs (Decidable ((∃ c ∈ _, _) ∨ ∃ h ∈ _, ∃ be ∈ s.heap.lookup h, _))

section Condition

variable {σ : Type} (R : Runtime σ)

/-- No connection is accepted at an address for which its worker has something outstanding, and no
login is approved on the connection that already is the session of its id. -/
def FreshAddresses (s : Server) (x : Env × Event) : Prop :=
  (∀ t ∈ s.step R x, ∀ o ∈ t.log.drop s.log.length, ∀ q ∈ o.opened, ¬ s.AwaitsAt q.1 q.2) ∧
    ∀ d ∈ s.approval R x.2,
      ((s.workThread d.workThread).subMap.lookup d.id).map Subscriber.bev ≠ some d.bev

instance (s : Server) (x : Env × Event) : Decidable (s.FreshAddresses R x) :=
  inferInstanceAs (Decidable ((∀ t ∈ s.step R x, _) ∧ ∀ d ∈ s.approval R x.2, _))

end Condition

/-- Everything outstanding is for an address at which, while the worker knows it, the connection
that asked still lives; and everything done so far reached the connection that asked. -/
structure Attributed (s : Server) : Prop where
  knownLive : s.registry.KnownLive
  redis : ∀ w, ∀ c ∈ (s.workThread w).redis, ∀ b conn, c.callback.asker = some (b, conn) →
    c.callback.worker = w ∧ s.registry.Guarded w b conn
  http : ∀ h be, s.heap.lookup h = some be → ∀ w b conn, be.owner.asker = some (w, b, conn) →
    s.registry.Guarded w b conn
  log : ∀ o ∈ s.log, o.Truthful

/-- What an event may add in a state: requests for addresses whose connection is the one that
asks, outside the connection callback, and truthful entries of the history. -/
def Attributable (s : Server) (ev : Event) : Item → Prop
  | .cmd w c => ∀ b conn, c.callback.asker = some (b, conn) →
      (∀ v, ev ≠ .newConn v) ∧ c.callback.worker = w ∧ s.registry.Guarded w b conn
  | .owner o => ∀ w b conn, o.asker = some (w, b, conn) →
      (∀ v, ev ≠ .newConn v) ∧ s.registry.Guarded w b conn
  | .obs o => o.Truthful
  | _ => True

variable {s t : Server} {ev : Event}

theorem tolerant_attributable (s : Server) (ev : Event) : Tolerant (s.Attributable ev) where
  obs o ho := by cases o <;> simp_all [Attributable, Obs.Truthful, Obs.minor]
  offline w id := by simp [Attributable, RedisCallback.asker]
  client w conn := by simp [Attributable, Owner.asker]
  sent _ _ := trivial

section Step

variable {σ : Type} (R : Runtime σ)

/-- A registration reaches the connection that asked if its address is guarded and it does not
replace the session of that very connection. -/
theorem connAt_kick {w conn : ℕ} {b : Addr} {id : UInt64} (hk : s.registry.KnownLive)
    (hg : s.registry.Guarded w b conn) (hb : b ∈ (s.workThread w).bevId)
    (hf : ((s.workThread w).subMap.lookup id).map Subscriber.bev ≠ some b) :
    (s.registry.kick w id).connAt b = some conn := by
  have hl := hk.live_kick_eq (w := w) (x := id) (j := w) (b := b) hb fun h => hf h.2
  simp [Registry.connAt, hl, hg hb]

theorem Attributed.checkedLogin {d : LoginData} (h : s.Attributed) (hd : d ∈ s.checkedLogin ev) :
    (∀ v, ev ≠ .newConn v) ∧ s.registry.Guarded d.workThread d.bev d.conn := by
  obtain ⟨hne, ⟨w, c, hc, hcb⟩ | ⟨a, be, sent, hb, ho⟩⟩ := checkedLogin_pending hd
  · obtain ⟨hw, hg⟩ := h.redis w c hc d.bev d.conn (by rw [hcb]; rfl)
    obtain rfl : d.workThread = w := by rwa [hcb] at hw
    exact ⟨hne, hg⟩
  · exact ⟨hne, h.http a be hb d.workThread d.bev d.conn (by rw [ho]; rfl)⟩

theorem permits_attributable {x : Env × Event} (h : s.Attributed) (hf : s.FreshAddresses R x) :
    s.Permits R x (s.Attributable x.2) where
  toTolerant := tolerant_attributable s x.2
  conns _ _ := trivial
  taken _ _ _ _ _ _ := trivial
  popped _ _ := trivial
  forwarded _ _ _ _ _ := trivial
  handled _ _ _ _ := trivial
  parser _ _ _ _ _ := trivial
  login w b conn _ _ _ _ _ hread _ l _ seq := by
    refine ⟨?_, trivial⟩
    rintro _ _ ⟨⟩
    obtain ⟨chunk, input, output, hx, hb, -⟩ := hread
    exact ⟨by simp [hx], rfl, fun _ => client_of_lookup hb⟩
  heartbeat _ _ _ _ _ _ _ _ _ _ _ _ _ _ := ⟨fun _ => trivial, trivial⟩
  relay w b conn _ _ _ _ _ _ _ l _ seq := by
    refine ⟨fun _ => trivial, ?_, fun _ => trivial, trivial⟩
    rintro _ _ ⟨⟩
  loginOwner d hd sent := by
    rintro _ _ _ ⟨⟩
    exact h.checkedLogin hd
  refused _ _ _ _ _ := trivial
  admitted d hd := by
    obtain ⟨hc, hb⟩ := approval_checked R hd
    obtain ⟨hne, hg⟩ := h.checkedLogin hc
    refine ⟨connAt_kick h.knownLive hg hb (hf.2 d hd), trivial, ?_, fun _ _ _ => trivial⟩
    rintro _ _ ⟨⟩
    exact ⟨hne, rfl, hg⟩
  transOwner d _ sent := by
    rintro _ _ _ ⟨⟩
  enqueued _ _ _ := trivial
  dropped _ _ := trivial
  friends w i reply c info hx hc hcb hb := by
    obtain ⟨hw, hg⟩ := h.redis w c (List.mem_of_getElem? hc) info.bev info.conn (by rw [hcb]; rfl)
    obtain rfl : info.workThread = w := by rwa [hcb] at hw
    have hl : s.client info.bev = some (info.workThread, info.conn) := hg hb
    simp [Attributable, Obs.Truthful, occupant, hl]

variable {R}

theorem FreshAddresses.fresh {x : Env × Event} {r : Registry UInt64 Addr}
    {l : Label UInt64 Addr} (h : s.FreshAddresses R x) (hl : s.Allowed R x r l) : r.Fresh l := by
  cases l with
  | approve w b id told =>
    obtain ⟨rfl, ⟨d, hd, rfl, rfl, rfl⟩, -⟩ := hl
    exact h.2 d hd
  | accept | leave | deliver => trivial

/-- A guarded address stays guarded if the event accepts no connection at all, or something is
outstanding for the address. -/
theorem guarded_step {x : Env × Event} {w conn : ℕ} {b : Addr} (hk : s.registry.KnownLive)
    (hf : s.FreshAddresses R x) (ht : step R s x = some t) {E : Item → Prop}
    (hlog : Grows E s t) (hg : s.registry.Guarded w b conn)
    (ha : (∀ v, x.2 ≠ .newConn v) ∨ s.AwaitsAt w b) : t.registry.Guarded w b conn := by
  obtain ⟨added, hadd, hmoves⟩ := (step_moves R ht).logged
  obtain ⟨obs, hobs, -⟩ := hlog.log
  have heq : obs.filterMap Obs.note = added := by
    have hl : t.log.filterMap Obs.note = s.log.filterMap Obs.note ++ added := hadd
    rw [hobs, List.filterMap_append] at hl
    exact List.append_cancel_left hl
  apply hg.moves hk hmoves fun r l ho => hf.fresh ho.1
  rintro r l ho n rfl
  rcases ha with ha | ha
  · exact ha w ho.1
  · have hm := ho.2 w b n rfl
    rw [← heq] at hm
    obtain ⟨o, ho, hn⟩ := List.mem_filterMap.mp hm
    have hop : o.opened = some (w, b) := by
      cases o <;> simp_all [Obs.note, Obs.opened]
    exact hf.1 t ht o (by simpa [hobs] using ho) (w, b) hop ha

theorem Attributed.step {x : Env × Event} (h : s.Attributed) (hf : s.FreshAddresses R x)
    (ht : step R s x = some t) : t.Attributed where
  knownLive := (step_moves R ht).invariant
    (fun _ _ hr he hl => hr.apply he (hf.fresh hl)) h.knownLive
  redis w c hc b conn ha := by
    have hg := (permits_attributable R h hf).step ht
    rcases hg.redis w c hc with hold | hnew
    · obtain ⟨hw, hgd⟩ := h.redis w c hold b conn ha
      exact ⟨hw, guarded_step h.knownLive hf ht hg hgd (Or.inr (Or.inl ⟨c, hold, by simp [ha]⟩))⟩
    · obtain ⟨hne, hw, hgd⟩ := hnew b conn ha
      exact ⟨hw, guarded_step h.knownLive hf ht hg hgd (Or.inl hne)⟩
  http a be hb w b conn ha := by
    have hg := (permits_attributable R h hf).step ht
    rcases hg.heap a be hb with ⟨a', be', hb', ho⟩ | hnew
    · rw [← ho] at ha
      refine guarded_step h.knownLive hf ht hg (h.http a' be' hb' w b conn ha) (Or.inr (Or.inr ?_))
      exact ⟨a', Finmap.mem_keys.mpr (Table.mem_of_lookup hb'), be', hb', by simp [ha]⟩
    · obtain ⟨hne, hgd⟩ := hnew w b conn ha
      exact guarded_step h.knownLive hf ht hg hgd (Or.inl hne)
  log o ho := by
    obtain ⟨added, hl, hadd⟩ := ((permits_attributable R h hf).step ht).log
    rw [hl] at ho
    exact (List.mem_append.mp ho).elim (h.log o) (hadd o)

theorem attributed_started (h : s.Started) : s.Attributed := by
  obtain ⟨num, cap, ping, url, heart, rfl⟩ := h
  refine ⟨fun w b hb => absurd hb Finmap.notMem_empty, ?_, ?_, ?_⟩ <;> simp [start]

/-- In runs where no address is given out again while something is outstanding for it, and no
login replaces the session of its own connection, every registration and every friend list
reaches the very connection that sent the login. -/
theorem approvals_reach_asker (h : Reached R (FreshAddresses R) s) {w : ℕ} {b : Addr} {id : UInt64}
    {asker : ℕ} {occupant : Option ℕ}
    (ho : Obs.registered w b id asker occupant ∈ s.log ∨
      Obs.friendList w b id asker occupant ∈ s.log) : occupant = some asker := by
  have ha : s.Attributed := Transition.Reach.invariant (fun s hs => attributed_started hs)
    (fun s x t hi hf ht => hi.step hf ht) h
  rcases ho with ho | ho
  · exact ha.log _ ho
  · exact ha.log _ ho

/-- The reply of redis to a lookup of a list with the friend 9. -/
def oneFriend : Option RedisReply := some { type := .array, element := [some [0x39]] }

/-- A connection logs in and gets its friend list, and then closes. -/
def served : List (Env × Event) :=
  connect 0 1 ++
    [(plainEnv 1, .clientRead 1 (loginFrame 7)), (plainEnv 1, .redisReply 0 0 tokenReply),
      (plainEnv 1, .redisReply 0 0 oneFriend), (plainEnv 1, .clientEvent 1 { eof := true })]

theorem served_reaches_asker :
    ∃ s, Reached Wire.runtime (FreshAddresses Wire.runtime) s ∧
      Obs.friendList 0 1 7 0 (some 0) ∈ s.log ∧
      ∀ occupant, Obs.registered 0 1 7 0 occupant ∈ s.log → occupant = some 0 := by
  obtain ⟨s, hs, hp⟩ := exists_reached Wire.runtime 1 served (FreshAddresses Wire.runtime)
    (fun s => Obs.friendList 0 1 7 0 (some 0) ∈ s.log)
    (by decide +kernel) (by decide +kernel)
  exact ⟨s, hs, hp, fun _ ho => approvals_reach_asker hs (Or.inl ho)⟩

/-- A connection asks for a login and closes; the next one is placed at the same address before
redis answers. -/
def reusedLogin : List (Env × Event) :=
  connect 0 1 ++
    [(plainEnv 1, .clientRead 1 (loginFrame 7)), (plainEnv 1, .clientEvent 1 { eof := true })] ++
    connect 0 1 ++ [(plainEnv 1, .redisReply 0 0 tokenReply)]

/-- A connection logs in and closes; the next one is placed at the same address before redis has
answered with the friends. -/
def reusedFriends : List (Env × Event) :=
  connect 0 1 ++
    [(plainEnv 1, .clientRead 1 (loginFrame 7)), (plainEnv 1, .redisReply 0 0 tokenReply),
      (plainEnv 1, .clientEvent 1 { eof := true })] ++
    connect 0 1 ++ [(plainEnv 1, .redisReply 0 0 oneFriend)]

/-- A connection that never asked is logged in, and another one is shown the friends of a
stranger. -/
theorem reused_address_misattributed :
    (∃ s, Reached Wire.runtime (fun _ _ => True) s ∧
      Obs.registered 0 1 7 0 (some 1) ∈ s.log) ∧
    ∃ s, Reached Wire.runtime (fun _ _ => True) s ∧ Obs.friendList 0 1 7 0 (some 1) ∈ s.log := by
  constructor
  · exact exists_reached Wire.runtime 1 reusedLogin _ _ (.of_forall (by simp) _) (by decide +kernel)
  · exact exists_reached Wire.runtime 1 reusedFriends _ _ (.of_forall (by simp) _)
      (by decide +kernel)

end Step

end Server

end EglComet
