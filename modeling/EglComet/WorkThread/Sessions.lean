import EglComet.WorkThread.Moves

/-!
The session tables over whole runs of the server: what the two tables of a
worker say about each other, that an id has one session once the deletions have
been processed, which login survives, and what the connection counter counts.
-/
namespace EglComet

open Protobuf

/-- A successful login of an id. -/
def Obs.registers (id : UInt64) : Obs → Bool
  | .registered _ _ x _ _ => x == id
  | _ => false

/-- A connection is closed by its peer or expired by a sweep. -/
def Obs.ends (conn : ℕ) : Obs → Bool
  | .closed _ _ c => c == some conn
  | .expired _ _ c _ => c == some conn
  | _ => false

/-- The worker whose message callback an event runs. -/
def Event.msgWorker : Event → Option ℕ
  | .newMsg w => some w
  | _ => none

theorem Obs.registers_of_note {o : Obs} {w : ℕ} {b : Addr} {id : UInt64} {conn : Option ℕ}
    (h : o.note = some (.registered w b id conn)) : o.registers id = true := by
  cases o <;> simp_all [Obs.note, Obs.registers]

theorem Obs.ends_of_note {o : Obs} {conn : ℕ} (h : o.note = some (.ended (some conn))) :
    o.ends conn = true := by
  cases o <;> simp_all [Obs.note, Obs.ends]

namespace Server

section Runs

variable {σ : Type} {R : Runtime σ} {ok : Server → Env × Event → Prop} {s : Server}

theorem registry_started (h : s.Started) : s.registry = Registry.start s.workThreadNum := by
  obtain ⟨num, cap, ping, url, heart, rfl⟩ := h
  ext <;> simp [registry, start, Registry.start, WorkThread.directory, WorkThread.dels, clientIn]

/-- An invariant of the registry that the moves of every callback keep holds in every state. -/
theorem Reached.registry_invariant {inv : Registry UInt64 Addr → Prop}
    (h0 : ∀ num, inv (Registry.start num))
    (hs : ∀ s x r, ok s x → inv s.registry →
      Registry.Moves (s.Allowed R x) s.registry r → inv r)
    (h : Reached R ok s) : inv s.registry := by
  apply Transition.Reach.invariant (P := fun s => inv s.registry) _ _ h
  · intro s hs
    rw [registry_started hs]
    exact h0 _
  · intro s x t hi hok ht
    exact hs s x t.registry hok hi (step_moves R ht)

end Runs

section Backed

variable {σ : Type} {R : Runtime σ} {ok : Server → Env × Event → Prop} {s : Server}

theorem Reached.backed (h : Reached R ok s) : s.registry.Backed :=
  h.registry_invariant Registry.backed_start
    fun _ _ _ _ hi hm => hm.invariant (fun _ l hr _ _ => hr.apply l) hi

theorem subscriber_of_backed {w : ℕ} {b : Addr} {id : UInt64} (hb : s.registry.Backed)
    (hl : (s.workThread w).bevId.lookup b = some id) (h0 : id ≠ 0) :
    ∃ sub, (s.workThread w).subMap.lookup id = some sub ∧ sub.bev = b :=
  Option.map_eq_some_iff.mp (hb w b id hl h0)

/-- Under any conditions on the run, a connection that carries an id other than zero is the
connection of the subscriber of that id; no two connections of a worker carry the same id. -/
theorem connection_has_subscriber (h : Reached R ok s) (w : ℕ) :
    (∀ b id, (s.workThread w).bevId.lookup b = some id → id ≠ 0 →
      ∃ sub, (s.workThread w).subMap.lookup id = some sub ∧ sub.bev = b) ∧
    ∀ b c id, id ≠ 0 → (s.workThread w).bevId.lookup b = some id →
      (s.workThread w).bevId.lookup c = some id → b = c := by
  have hsub : ∀ b id, (s.workThread w).bevId.lookup b = some id → id ≠ 0 →
      ∃ sub, (s.workThread w).subMap.lookup id = some sub ∧ sub.bev = b :=
    fun b id hl h0 => subscriber_of_backed (Reached.backed h) hl h0
  refine ⟨hsub, fun b c id h0 hl hl' => ?_⟩
  obtain ⟨sub, hs, rfl⟩ := hsub b id hl h0
  obtain ⟨sub', hs', rfl⟩ := hsub c id hl' h0
  rw [hs] at hs'
  rw [Option.some.inj hs']

/-- A connection logs in as 7, and then another connection of the same worker does. -/
def takeover : List (Env × Event) :=
  connect 0 1 ++ login 0 1 7 ++ connect 0 2 ++ login 0 2 7

theorem takeover_has_subscriber :
    ∃ s, Reached Wire.runtime (fun _ _ => True) s ∧
      (s.workThread 0).bevId.lookup 2 = some 7 ∧
      ∃ sub, (s.workThread 0).subMap.lookup 7 = some sub ∧ sub.bev = 2 := by
  obtain ⟨s, hs, hb⟩ := exists_reached Wire.runtime 1 takeover (fun _ _ => True)
    (fun s => (s.workThread 0).bevId.lookup 2 = some 7) (.of_forall (by simp) _) (by decide +kernel)
  exact ⟨s, hs, hb, (connection_has_subscriber hs 0).1 2 7 hb (by decide)⟩

end Backed

section Coherent

variable {σ : Type} (R : Runtime σ)

/-- No login is approved on a connection that is the connection of another id. -/
def OneIdPerConnection (s : Server) (x : Env × Event) : Prop :=
  ∀ d ∈ s.approval R x.2, ∀ id ∈ (s.workThread d.workThread).subMap.keys,
    ((s.workThread d.workThread).subMap.lookup id).map Subscriber.bev = some d.bev → id = d.id

instance (s : Server) (x : Env × Event) : Decidable (s.OneIdPerConnection R x) :=
  have : ∀ d : LoginData, Decidable (∀ id ∈ (s.workThread d.workThread).subMap.keys,
      ((s.workThread d.workThread).subMap.lookup id).map Subscriber.bev = some d.bev →
        id = d.id) := fun _ => Finset.decidableDforallFinset
  inferInstanceAs (Decidable (∀ d ∈ s.approval R x.2, _))

variable {R} {s : Server}

theorem OneIdPerConnection.oneId {x : Env × Event} {r : Registry UInt64 Addr}
    {l : Label UInt64 Addr} (h : s.OneIdPerConnection R x) (hl : s.Allowed R x r l) :
    r.OneId l := by
  cases l with
  | approve w b id told =>
    obtain ⟨rfl, ⟨d, hd, rfl, rfl, rfl⟩, -⟩ := hl
    intro y hy hb
    obtain ⟨sub, hs, hbev⟩ := Option.map_eq_some_iff.mp hb
    exact hy (h d hd y (Finmap.mem_keys.mpr (Table.mem_of_lookup hs)) (by rw [hs]; simp [hbev]))
  | accept | leave | deliver => trivial

/-- In runs where every login is approved on a connection without another id, the connection of
every subscriber carries the subscriber's id, and no deletion erases at `end()`. -/
theorem subscriber_has_connection (h : Reached R (OneIdPerConnection R) s) (w : ℕ) :
    (∀ id sub, (s.workThread w).subMap.lookup id = some sub →
      (s.workThread w).bevId.lookup sub.bev = some id) ∧
    ∀ id, Obs.eraseEnd w id ∉ s.log := by
  have hc : s.registry.Coherent := h.registry_invariant Registry.coherent_start
    fun s x r hok hi hm => hm.invariant (fun r l hr _ hl => hr.apply (hok.oneId hl)) hi
  constructor
  · intro id sub hs
    exact hc.dir w id sub.bev (by simp [registry, WorkThread.directory, hs])
  · intro id hm
    exact hc.log w id (List.mem_filterMap.mpr ⟨_, hm, rfl⟩)

theorem takeover_has_connection :
    ∃ s, Reached Wire.runtime (OneIdPerConnection Wire.runtime) s ∧
      (s.workThread 0).subMap.lookup 7 = some ⟨100, 7, 2⟩ ∧
      (s.workThread 0).bevId.lookup 2 = some 7 ∧ Obs.eraseEnd 0 7 ∉ s.log := by
  obtain ⟨s, hs, hb⟩ := exists_reached Wire.runtime 1 takeover (OneIdPerConnection Wire.runtime)
    (fun s => (s.workThread 0).subMap.lookup 7 = some ⟨100, 7, 2⟩)
    (by decide +kernel) (by decide +kernel)
  have hc := subscriber_has_connection hs 0
  exact ⟨s, hs, hb, hc.1 7 _ hb, hc.2 7⟩

/-- One connection logs in as 7 and then as 8. -/
def twoIds : List (Env × Event) := connect 0 1 ++ login 0 1 7 ++ login 0 1 8

/-- Afterwards the other worker takes over 7 and then 8. -/
def twoIdsTaken : List (Env × Event) :=
  connect 0 1 ++ connect 1 2 ++ login 0 1 7 ++ login 0 1 8 ++ login 1 2 7 ++
    [(plainEnv 1, .newMsg 0)] ++ login 1 2 8 ++ [(plainEnv 1, .newMsg 0)]

/-- After two logins on one connection the first id's subscriber points to a connection that
carries the second id, and a later deletion erases at `end()`. -/
theorem twoIds_incoherent :
    (∃ s, Reached Wire.runtime (fun _ _ => True) s ∧
      (s.workThread 0).subMap.lookup 7 = some ⟨100, 7, 1⟩ ∧
      (s.workThread 0).bevId.lookup 1 = some 8) ∧
    ∃ s, Reached Wire.runtime (fun _ _ => True) s ∧ Obs.eraseEnd 0 8 ∈ s.log := by
  constructor
  · exact exists_reached Wire.runtime 1 twoIds _ _ (.of_forall (by simp) _) (by decide +kernel)
  · exact exists_reached Wire.runtime 2 twoIdsTaken _ _ (.of_forall (by simp) _) (by decide +kernel)

end Coherent

section Unique

variable {σ : Type} {R : Runtime σ} {s : Server}

/-- Every write to a pipe succeeds. -/
def ReliablePipes (_ : Server) (x : Env × Event) : Prop := ∀ n, x.1.write n = .full

theorem resolving_of_reached (h : Reached R ReliablePipes s) : s.registry.Resolving := by
  apply h.registry_invariant Registry.resolving_start
  intro s x r hok hi hm
  apply hm.invariant _ hi
  intro r l hr he hl
  apply hr.apply he
  cases l with
  | approve => exact hl.2.2 hok
  | accept | leave | deliver => trivial

/-- With reliable pipes, once no delete-id message is pending an id has a session on at most one
worker. -/
theorem session_unique (h : Reached R ReliablePipes s)
    (hq : ∀ w < s.workThreadNum, ∀ d ∈ (s.workThread w).newMsgFd, d.msgType ≠ .delId)
    {i j : ℕ} (hi : i < s.workThreadNum) (hj : j < s.workThreadNum) {id : UInt64}
    (hidi : id ∈ (s.workThread i).subMap) (hidj : id ∈ (s.workThread j).subMap) : i = j := by
  have hr := resolving_of_reached h
  have hd : ∀ w < s.workThreadNum, id ∉ s.registry.dels w := by
    intro w hw hm
    obtain ⟨d, hd, -⟩ := List.mem_map.mp hm
    obtain ⟨hd, ht⟩ := List.mem_filter.mp hd
    exact hq w hw d hd (of_decide_eq_true ht)
  by_contra hij
  rcases hr i hi j hj hij id (holder_ne_none.mpr hidi) (holder_ne_none.mpr hidj) with hm | hm
  · exact hd i hi hm
  · exact hd j hj hm

/-- An id moves from worker 0 to worker 1, and worker 0 processes its deletion. -/
def moved : List (Env × Event) :=
  connect 0 1 ++ connect 1 2 ++ login 0 1 7 ++ login 1 2 7 ++ [(plainEnv 1, .newMsg 0)]

theorem moved_unique :
    ∃ s, Reached Wire.runtime ReliablePipes s ∧ s.workThreadNum = 2 ∧
      7 ∈ (s.workThread 1).subMap ∧ ∀ i < 2, 7 ∈ (s.workThread i).subMap → i = 1 := by
  obtain ⟨s, hs, hp⟩ := exists_reached Wire.runtime 2 moved ReliablePipes
    (fun s => s.workThreadNum = 2 ∧ 7 ∈ (s.workThread 1).subMap ∧
      ∀ w < s.workThreadNum, ∀ d ∈ (s.workThread w).newMsgFd, d.msgType ≠ .delId)
    (.of_forall (by simp [moved, connect, login, ReliablePipes, plainEnv]) _) (by decide +kernel)
  obtain ⟨hn, h7, hq⟩ := hp
  exact ⟨s, hs, hn, h7, fun i hi hm => session_unique hs hq (by omega) (by omega) hm h7⟩

end Unique

section Newest

variable {σ : Type} (R : Runtime σ)

/-- Every login is approved for a real id, on a connection that is no subscriber's, by a worker
that has no delete-id message for the id in its pipe. -/
def SettledLogin (s : Server) (x : Env × Event) : Prop :=
  s.OneIdPerConnection R x ∧ ∀ d ∈ s.approval R x.2,
    d.id ≠ 0 ∧
    ((s.workThread d.workThread).subMap.lookup d.id).map Subscriber.bev ≠ some d.bev ∧
    d.id ∉ (s.workThread d.workThread).dels

instance (s : Server) (x : Env × Event) : Decidable (s.SettledLogin R x) :=
  inferInstanceAs (Decidable (_ ∧ ∀ d ∈ s.approval R x.2, _))

variable {R} {s : Server}

theorem SettledLogin.settled {x : Env × Event} {r : Registry UInt64 Addr}
    {l : Label UInt64 Addr} (h : s.SettledLogin R x) (hl : s.Allowed R x r l) : r.Settled l := by
  cases l with
  | approve w b id told =>
    have ho := h.1.oneId hl
    obtain ⟨rfl, ⟨d, hd, rfl, rfl, rfl⟩, -⟩ := hl
    obtain ⟨h0, hf, hn⟩ := h.2 d hd
    exact ⟨h0, ho, hf, hn⟩
  | accept | leave | deliver => trivial

/-- Entry `n` of the history is the last login of `id`, on a connection that has not ended. -/
structure NewestLogin (s : Server) (n w : ℕ) (b : Addr) (id : UInt64) (asker conn : ℕ) : Prop where
  login : s.log[n]? = some (.registered w b id asker (some conn))
  last : ∀ o ∈ s.log.drop (n + 1), o.registers id = false
  kept : ∀ o ∈ s.log.drop (n + 1), o.ends conn = false

instance (s : Server) (n w : ℕ) (b : Addr) (id : UInt64) (asker conn : ℕ) :
    Decidable (s.NewestLogin n w b id asker conn) :=
  decidable_of_iff (s.log[n]? = some (.registered w b id asker (some conn)) ∧
      (∀ o ∈ s.log.drop (n + 1), o.registers id = false) ∧
      ∀ o ∈ s.log.drop (n + 1), o.ends conn = false)
    ⟨fun h => ⟨h.1, h.2.1, h.2.2⟩, fun h => ⟨h.login, h.last, h.kept⟩⟩

theorem NewestLogin.newestIn {n w asker conn : ℕ} {b : Addr} {id : UInt64}
    (h : s.NewestLogin n w b id asker conn) : Registry.NewestIn s.registry.log w b id conn := by
  obtain ⟨hn, hlog⟩ := List.getElem?_eq_some_iff.mp h.login
  have hsplit : s.log =
      s.log.take n ++ .registered w b id asker (some conn) :: s.log.drop (n + 1) := by
    rw [← hlog, ← List.drop_eq_getElem_cons hn, List.take_append_drop]
  refine ⟨(s.log.take n).filterMap Obs.note, (s.log.drop (n + 1)).filterMap Obs.note, ?_, ?_, ?_⟩
  · change s.log.filterMap Obs.note = _
    nth_rewrite 1 [hsplit]
    simp [Obs.note]
  · intro v c m hm
    obtain ⟨o, ho, hnote⟩ := List.mem_filterMap.mp hm
    exact absurd (Obs.registers_of_note hnote) (by simp [h.last o ho])
  · intro hm
    obtain ⟨o, ho, hnote⟩ := List.mem_filterMap.mp hm
    exact absurd (Obs.ends_of_note hnote) (by simp [h.kept o ho])

/-- In runs where every login is settled, the newest login of an id that has not ended is the
id's session, and its connection is alive. -/
theorem newest_login_survives (h : Reached R (SettledLogin R) s) {n w asker conn : ℕ} {b : Addr}
    {id : UInt64} (hn : s.NewestLogin n w b id asker conn) :
    ((s.workThread w).subMap.lookup id).map Subscriber.bev = some b ∧
      s.client b = some (w, conn) := by
  have hc : s.registry.Current := h.registry_invariant Registry.current_start
    fun s x r hok hi hm => hm.invariant (fun r l hr he hl => hr.apply he (hok.settled hl)) hi
  have hs := hc.session w b id conn hn.newestIn
  exact ⟨hs.holder, hs.live⟩

theorem moved_survives :
    ∃ s, Reached Wire.runtime (SettledLogin Wire.runtime) s ∧ s.NewestLogin 10 1 2 7 1 1 ∧
      ((s.workThread 1).subMap.lookup 7).map Subscriber.bev = some 2 ∧
      s.client 2 = some (1, 1) := by
  obtain ⟨s, hs, hn⟩ := exists_reached Wire.runtime 2 moved (SettledLogin Wire.runtime)
    (fun s => s.NewestLogin 10 1 2 7 1 1) (by decide +kernel) (by decide +kernel)
  exact ⟨s, hs, hn, newest_login_survives hs hn⟩

/-- Worker 0 logs 7 in again before it has processed the deletion that worker 1's login of 7
caused, and then both workers process their deletions. -/
def staleDelete : List (Env × Event) :=
  connect 0 1 ++ connect 1 2 ++ connect 0 3 ++ login 0 1 7 ++ login 1 2 7 ++ login 0 3 7 ++
    [(plainEnv 1, .newMsg 0), (plainEnv 1, .newMsg 1)]

/-- A deletion meant for an older session ends the newest one: nothing is pending, the newest
login was neither closed nor expired, and yet no worker has the id and the connection is freed. -/
theorem staleDelete_kills_newest :
    ∃ s, Reached Wire.runtime ReliablePipes s ∧ s.NewestLogin 18 0 3 7 2 2 ∧
      (∀ w < s.workThreadNum, (s.workThread w).newMsgFd = []) ∧
      (s.workThread 0).subMap.lookup 7 = none ∧ s.client 3 = none := by
  have hok : ∀ x ∈ staleDelete, ∀ s, ReliablePipes s x := by
    simp [staleDelete, connect, login, ReliablePipes, plainEnv]
  exact exists_reached Wire.runtime 2 staleDelete _ _ (.of_forall hok _) (by decide +kernel)

end Newest

section Counter

variable {σ : Type} (R : Runtime σ)

/-- The session of an id on a worker, if there is one, points to no entry of `_bev_id`. -/
def Detached (s : Server) (w : ℕ) (id : UInt64) : Prop :=
  ∀ sub ∈ (s.workThread w).subMap.lookup id, sub.bev ∉ (s.workThread w).bevId

instance (s : Server) (w : ℕ) (id : UInt64) : Decidable (s.Detached w id) :=
  inferInstanceAs (Decidable (∀ sub ∈ (s.workThread w).subMap.lookup id, _))

/-- Neither an approved login nor a delete-id message takes an entry out of `_bev_id`. -/
def NoEntryKicked (s : Server) (x : Env × Event) : Prop :=
  (∀ d ∈ s.approval R x.2, s.Detached d.workThread d.id) ∧
    ∀ w ∈ x.2.msgWorker, ∀ id ∈ (s.workThread w).dels, s.Detached w id

instance (s : Server) (x : Env × Event) : Decidable (s.NoEntryKicked R x) :=
  have : ∀ w, Decidable (∀ id ∈ (s.workThread w).dels, s.Detached w id) :=
    fun _ => List.decidableBAll _ _
  inferInstanceAs (Decidable ((∀ d ∈ s.approval R x.2, _) ∧ ∀ w ∈ x.2.msgWorker, _))

variable {R} {s : Server}

theorem Detached.harmless {w : ℕ} {id : UInt64} (h : s.Detached w id) :
    s.registry.Harmless w id := by
  intro a ha
  obtain ⟨sub, hs, rfl⟩ := Option.map_eq_some_iff.mp ha
  exact h sub hs

/-- Delivering a harmless deletion leaves the other pending ones harmless. -/
theorem harmless_deliver {r : Registry UInt64 Addr} {w : ℕ} {id : UInt64} {rest : List UInt64}
    (he : r.dels w = id :: rest) (h : ∀ y ∈ r.dels w, r.Harmless w y) :
    ∀ y ∈ (r.apply (.deliver w id rest)).dels w,
      (r.apply (.deliver w id rest)).Harmless w y := by
  have hn := Directory.names_remove_of_unknown (h id (he ▸ List.mem_cons_self))
  intro y hy a ha hm
  simp only [Registry.apply, Function.update_self] at hy
  simp only [Registry.apply, Registry.holder_kick] at ha
  split_ifs at ha with hw
  refine h y (he ▸ List.mem_cons_of_mem id hy) a ha ?_
  simpa [Registry.apply, Registry.dir_kick, hn] using hm

theorem exact_of_moves {x : Env × Event} {r : Registry UInt64 Addr} (hok : s.NoEntryKicked R x)
    (hi : s.registry.Exact) (hm : Registry.Moves (s.Allowed R x) s.registry r) : r.Exact := by
  cases hx : x.2.msgWorker with
  | none =>
    apply hm.invariant _ hi
    intro r l hr he hl
    apply hr.apply he
    cases l with
    | approve w b id told =>
      obtain ⟨rfl, ⟨d, hd, rfl, rfl, rfl⟩, -⟩ := hl
      exact (hok.1 d hd).harmless
    | deliver w id rest => simp [show x.2 = .newMsg w from hl, Event.msgWorker] at hx
    | accept | leave => trivial
  | some w =>
    have hw : x.2 = .newMsg w := by
      cases hv : x.2 <;> simp_all [Event.msgWorker]
    refine (hm.invariant (P := fun r => r.Exact ∧ ∀ id ∈ r.dels w, r.Harmless w id)
      (fun r l hr he hl => ?_) ⟨hi, fun id hid => (hok.2 w hx id hid).harmless⟩).1
    cases l with
    | accept v b n =>
      have hv : x.2 = .newConn v := hl
      simp [hv] at hw
    | leave => exact absurd hw (hl w)
    | approve v b id told =>
      obtain ⟨-, ⟨d, hd, -⟩, -⟩ := hl
      simp [hw, approval] at hd
    | deliver v id rest =>
      obtain rfl : v = w := by
        have hv : x.2 = .newMsg v := hl
        simpa [hv] using hw
      exact ⟨hr.1.apply he (hr.2 id (he ▸ List.mem_cons_self)), harmless_deliver he hr.2⟩

/-- In runs where no entry of `_bev_id` is taken out by a login or a delete-id message, the
counter of a worker is the number of entries, and these are the connections that are alive. -/
theorem connNum_exact (h : Reached R (NoEntryKicked R) s) (w : ℕ) :
    (s.workThread w).connNum = Table.size (s.workThread w).bevId ∧
      ∀ b, b ∈ (s.workThread w).bevId ↔ ∃ conn, s.client b = some (w, conn) := by
  have he : s.registry.Exact := h.registry_invariant Registry.exact_start
    fun s x r hok hi hm => exact_of_moves hok hi hm
  refine ⟨he.count w, fun b => ⟨he.knownLive w b, ?_⟩⟩
  rintro ⟨conn, hc⟩
  exact he.liveKnown w b conn hc

/-- Two connections log in under different ids, and one of them closes. -/
def oneCloses : List (Env × Event) :=
  connect 0 1 ++ connect 0 2 ++ login 0 1 7 ++ login 0 2 8 ++
    [(plainEnv 1, .clientEvent 1 { eof := true })]

theorem oneCloses_exact :
    ∃ s, Reached Wire.runtime (NoEntryKicked Wire.runtime) s ∧ (s.workThread 0).connNum = 1 ∧
      (s.workThread 0).connNum = Table.size (s.workThread 0).bevId := by
  obtain ⟨s, hs, hp⟩ := exists_reached Wire.runtime 1 oneCloses (NoEntryKicked Wire.runtime)
    (fun s => (s.workThread 0).connNum = 1) (by decide +kernel) (by decide +kernel)
  exact ⟨s, hs, hp, (connNum_exact hs 0).1⟩

/-- A second login of an id on the same worker frees the first connection but does not count it
as gone. -/
theorem takeover_miscounts :
    ∃ s, Reached Wire.runtime (fun _ _ => True) s ∧ (s.workThread 0).connNum = 2 ∧
      Table.size (s.workThread 0).bevId = 1 :=
  exists_reached Wire.runtime 1 takeover _ _ (.of_forall (by simp) _) (by decide +kernel)

end Counter

end Server

end EglComet
