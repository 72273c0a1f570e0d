import EglComet.WorkThread.Delivery
import EglComet.WorkThread.PrintedIds
import EglComet.WorkThread.Writes

/-!
How news about an id travel: a change of its session puts a lookup of its
friends into a queue of redis commands, the answer puts notices into the pipes
of the friends' workers, and reading a pipe appends them to the friends'
connections. This module says what every callback does to the four stages.
-/
namespace EglComet

open Protobuf

/-- What a lookup of the friends of `id` announces: a session, or the end of one. -/
def RedisCallback.announces (id : UInt64) : RedisCallback → Option (Option OnlineInfo)
  | .online info => if info.id = id then some (some info) else none
  | .offline info => if info.id = id then some none else none
  | _ => none

theorem RedisCallback.announces_eq_some {c : RedisCallback} {id : UInt64} {k : Option OnlineInfo}
    (h : c.announces id = some k) :
    (∃ info, c = .online info ∧ info.id = id ∧ k = some info) ∨
      ∃ info, c = .offline info ∧ info.id = id ∧ k = none := by
  cases c with
  | login d => simp [RedisCallback.announces] at h
  | trans d => simp [RedisCallback.announces] at h
  | online info =>
    simp only [RedisCallback.announces, Option.ite_none_right_eq_some, Option.some.injEq] at h
    exact Or.inl ⟨info, rfl, h.1, h.2.symm⟩
  | offline info =>
    simp only [RedisCallback.announces, Option.ite_none_right_eq_some, Option.some.injEq] at h
    exact Or.inr ⟨info, rfl, h.1, h.2.symm⟩

theorem RedisCallback.announces_of_ne {c : RedisCallback} {id x : UInt64} {k : Option OnlineInfo}
    (h : c.announces id = some k) (hx : x ≠ id) : c.announces x = none := by
  rcases announces_eq_some h with ⟨info, rfl, rfl, -⟩ | ⟨info, rfl, rfl, -⟩
  · exact if_neg (Ne.symm hx)
  · exact if_neg (Ne.symm hx)

/-- Bytes that carry the status of some id. -/
def Source.presence : Source → Bool
  | .relay d => d.origin = .server
  | .friends _ => true
  | _ => false

/-- Signals that say nothing about the status of an id. -/
def Signal.Discreet : Signal → Prop
  | .command c => ∀ id, c.callback.announces id = none
  | .record d => d.msgType = .trans ∧ d.origin = .client
  | .bytes source => source.presence = false

theorem Signal.discreet_reply (d : LoginData) (isSuccess : Bool) :
    (Signal.bytes (.loginRsp d isSuccess)).Discreet := rfl

/-- Bytes about the status of `id`, if `friends` are the friends of every id. -/
def Sent.about (friends : UInt64 → List Bytes) (id : UInt64) (e : Sent) : Bool :=
  match e.source with
  | .relay d => decide (d.origin = .server ∧ d.fromId = id)
  | .friends info => (friends info.id).any fun str => atoll str = id
  | _ => false

namespace Server

/-- The lookups of the friends of `id` that worker `w` waits for. -/
def lookups (s : Server) (w : ℕ) (id : UInt64) : List (Option OnlineInfo) :=
  (s.workThread w).redis.filterMap fun c => c.callback.announces id

/-- Nothing about presence is queued or sent. -/
structure Hushed (s t : Server) : Prop where
  pipe : ∀ w, ∃ added, (t.workThread w).newMsgFd = (s.workThread w).newMsgFd ++ added ∧
    ∀ d ∈ added, d.msgType = .trans ∧ d.origin = .client
  sent : ∃ added, t.sent = s.sent ++ added ∧ ∀ e ∈ added, e.source.presence = false

/-- Nothing about presence is asked for either. -/
structure Muted (s t : Server) : Prop extends Hushed s t where
  lookups : ∀ w id, t.lookups w id = s.lookups w id

section Muted

variable {s t u : Server}

theorem Hushed.trans (h : Hushed s t) (h' : Hushed t u) : Hushed s u where
  pipe w := exists_append_trans (h.pipe w) (h'.pipe w)
  sent := exists_append_trans h.sent h'.sent

theorem Muted.trans (h : Muted s t) (h' : Muted t u) : Muted s u where
  toHushed := h.toHushed.trans h'.toHushed
  lookups w id := (h'.lookups w id).trans (h.lookups w id)

theorem muted_of_eq (hr : ∀ w, (t.workThread w).redis = (s.workThread w).redis)
    (hq : ∀ w, (t.workThread w).newMsgFd = (s.workThread w).newMsgFd) (hs : t.sent = s.sent) :
    Muted s t where
  lookups w id := by rw [Server.lookups, hr]; rfl
  pipe w := ⟨[], by simp [hq]⟩
  sent := ⟨[], by simp [hs]⟩

theorem Muted.refl (s : Server) : Muted s s := muted_of_eq (fun _ => rfl) (fun _ => rfl) rfl

theorem lookups_redisAsyncCommand (s : Server) (w v : ℕ) (c : RedisCommand) (id : UInt64) :
    (s.redisAsyncCommand w c).lookups v id =
      s.lookups v id ++ if v = w then (c.callback.announces id).toList else [] := by
  rw [lookups, lookups, workThread_redisAsyncCommand, List.filterMap_append]
  split_ifs
  · cases ha : c.callback.announces id <;> simp [ha]
  · rfl

theorem pipe_redisAsyncCommand (s : Server) (w v : ℕ) (c : RedisCommand) :
    ((s.redisAsyncCommand w c).workThread v).newMsgFd = (s.workThread v).newMsgFd := by
  rw [workThread_redisAsyncCommand]

/-- A command that is no lookup of friends. -/
theorem muted_redisAsyncCommand {w : ℕ} {c : RedisCommand}
    (h : ∀ id, c.callback.announces id = none) : Muted s (s.redisAsyncCommand w c) where
  lookups v id := by rw [lookups_redisAsyncCommand, h]; simp
  pipe v := ⟨[], by simp [pipe_redisAsyncCommand]⟩
  sent := ⟨[], by simp⟩

theorem muted_recordSent {o : Owner} {source : Source} {bs : Bytes} (h : source.presence = false) :
    Muted s (s.recordSent o source bs) where
  lookups w id := by simp [Server.lookups]
  pipe w := ⟨[], by simp⟩
  sent := by
    unfold recordSent
    split
    · exact ⟨[_], rfl, by simpa using h⟩
    · exact ⟨[], by simp⟩

theorem lookups_enqueue (s : Server) (j w : ℕ) (d : TransData) (id : UInt64) :
    (s.enqueue j d).lookups w id = s.lookups w id := by
  rw [lookups, lookups, workThread_enqueue]

theorem pipe_enqueue (s : Server) (j w : ℕ) (d : TransData) :
    ((s.enqueue j d).workThread w).newMsgFd =
      (s.workThread w).newMsgFd ++ if w = j then [d] else [] := by
  rw [workThread_enqueue]

theorem muted_enqueue {j : ℕ} {d : TransData} (hm : d.msgType = .trans) (ho : d.origin = .client) :
    Muted s (s.enqueue j d) where
  lookups w id := lookups_enqueue s j w d id
  pipe w := by
    refine ⟨_, pipe_enqueue s j w d, ?_⟩
    split_ifs
    · simp [hm, ho]
    · simp
  sent := ⟨[], by simp [enqueue, modify, emit]⟩

/-- A callback that writes nothing about presence. -/
theorem Writes.muted (h : Writes Signal.Discreet s t) : Muted s t := by
  induction h with
  | refl => exact Muted.refl s
  | tail _ hw ih =>
    apply ih.trans
    cases hw with
    | plain hr hq hs hn => exact muted_of_eq hr hq hs
    | command w c hc => exact muted_redisAsyncCommand hc
    | record j d hd => exact muted_enqueue hd.1 hd.2
    | bytes o source bs hb => exact muted_recordSent hb

theorem muted_modify {w : ℕ} {f : WorkThread → WorkThread}
    (hr : (f (s.workThread w)).redis = (s.workThread w).redis)
    (hq : (f (s.workThread w)).newMsgFd = (s.workThread w).newMsgFd) : Muted s (s.modify w f) :=
  (writes_modify hr hq).muted

end Muted

section Callbacks

variable {s t : Server} {σ : Type} (R : Runtime σ) {env : Env}

theorem muted_bufferEventReadCallback {w conn : ℕ} {b : Addr} {be : BufferEvent}
    (ht : s.bufferEventReadCallback R env w conn b be = some t) : Muted s t := by
  obtain ⟨y, hy, rfl⟩ := Option.map_eq_some_iff.mp ht
  have hm : Writes Signal.Discreet s y.1 := by
    refine readLoop_invariant R (P := Writes Signal.Discreet s) ?_ (Writes.refl s) hy
    intro u input output r hu
    exact hu.trans (((writes_startLogin (fun _ _ => rfl) _).trans writes_refreshHeartbeat).trans
      (writes_startTrans (fun _ _ => rfl) (fun d hd => ⟨d.isTrans, hd⟩) _))
  apply Writes.muted
  exact ((hm.trans (writes_setAnalyseReq w _)).trans (writes_setHeap _)).trans
    (writes_recordSent rfl)

end Callbacks

section Sessions

variable {s t : Server} {w : ℕ} {b : Addr}

/-- The connection at `b` leaves worker `w`, and the friends of the id it carries are looked up. -/
structure Leaves (s : Server) (w : ℕ) (b : Addr) (t : Server) : Prop extends Hushed s t where
  registry : t.registry = s.registry.apply (.leave w b)
  lookups : ∀ v id, t.lookups v id = s.lookups v id ++
    if v = w ∧ id ≠ 0 ∧ (s.workThread w).bevId.lookup b = some id then [none] else []

/-- A login is registered, and the friends of its id are looked up. -/
structure Enters (s : Server) (d : LoginData) (t : Server) : Prop extends Hushed s t where
  registry : t.registry = s.registry.apply (.approve d.workThread d.bev d.id [])
  lookups : ∀ v id, t.lookups v id = s.lookups v id ++
    if v = d.workThread ∧ id = d.id then [some ⟨d.id, d.bev, d.workThread, d.conn⟩] else []

theorem hushed_redisAsyncCommand (c : RedisCommand) : Hushed s (s.redisAsyncCommand w c) where
  pipe v := ⟨[], by simp [pipe_redisAsyncCommand]⟩
  sent := ⟨[], by simp⟩

/-- What a callback does before it asks for the friends of an id that went offline. -/
theorem Muted.leaves {u : Server} (hu : Muted s u)
    (hr : u.registry = s.registry.apply (.leave w b)) :
    s.Leaves w b (u.requestOffline w (((s.workThread w).bevId.lookup b).getD 0)) := by
  generalize hid : ((s.workThread w).bevId.lookup b).getD 0 = x
  refine ⟨?_, by rw [registry_requestOffline, hr], fun v id => ?_⟩
  · unfold requestOffline
    split_ifs
    · exact hu.toHushed.trans (hushed_redisAsyncCommand _)
    · exact hu.toHushed
  · have hlook : (v = w ∧ id ≠ 0 ∧ (s.workThread w).bevId.lookup b = some id) ↔
        (v = w ∧ x ≠ 0 ∧ id = x) := by
      cases hl : (s.workThread w).bevId.lookup b with
      | none =>
        obtain rfl : 0 = x := by simpa [hl] using hid
        simp
      | some y =>
        obtain rfl : y = x := by simpa [hl] using hid
        simp only [Option.some.injEq, eq_comm (a := y)]
        grind
    simp only [hlook]
    unfold requestOffline
    split_ifs with hx hv hv
    · rw [lookups_redisAsyncCommand, hu.lookups, if_pos hv.1, hv.2.2]
      simp [RedisCallback.announces]
    · rw [lookups_redisAsyncCommand, hu.lookups]
      split_ifs with hvw
      · have hne : x ≠ id := fun he => hv ⟨hvw, hx, he.symm⟩
        simp [RedisCallback.announces, hne]
      · rfl
    · exact absurd hv.2.1 hx
    · rw [hu.lookups, List.append_nil]

theorem leaves_bufferEventEventCallback {flags : Flags} (hf : (flags.eof || flags.error) = true) :
    s.Leaves w b (s.bufferEventEventCallback w b flags) := by
  have hr := registry_bufferEventEventCallback (s := s) (w := w) (b := b) hf
  simp only [bufferEventEventCallback, if_pos hf, registry_requestOffline] at hr ⊢
  refine Muted.leaves (Writes.muted ?_) hr
  refine Writes.trans ?_ (writes_bufferEventFree b)
  refine Writes.trans ?_ (writes_modify rfl rfl)
  split_ifs
  · exact (writes_emit _).trans (writes_modify rfl rfl)
  · exact writes_emit _

theorem leaves_expireEntry (w : ℕ) (t : ℤ) (s : Server) (b : Addr) :
    expireEntry w t s b = s ∨ b ∈ (s.workThread w).bevId ∧ s.Leaves w b (expireEntry w t s b) := by
  cases hb : (s.workThread w).bevId.lookup b with
  | none =>
    left
    simp only [expireEntry, hb]
  | some id =>
    cases hs : (s.workThread w).subMap.lookup id with
    | none =>
      left
      simp only [expireEntry, hb, hs]
    | some sub =>
      simp only [expireEntry, hb, hs]
      split_ifs
      · right
        refine ⟨Table.mem_of_lookup hb, ?_⟩
        have hl := Muted.leaves (s := s) (w := w) (b := b)
          (Writes.muted (((writes_emit (.expired w b (s.occupant b) id)).trans
            (writes_bufferEventFree b)).trans (writes_modify (w := w) (f := fun t =>
              { t with
                bevId := t.bevId.erase b, connNum := t.connNum - 1, subMap := t.subMap.erase id })
              rfl rfl))) ?_
        · rwa [hb] at hl
        · rw [registry_modify_of_dels (g := fun d => d.leave b) (directory_leave hb) rfl,
            registry_bufferEventFree, registry_emit]
          rfl
      · exact Or.inl rfl

variable {σ : Type} (R : Runtime σ) {env : Env} {d : LoginData}

/-- A login of an id that has no session on any of the listed workers tells nobody. -/
theorem foldl_notifyDelId_of_none {id : UInt64} {js : List ℕ}
    (h : ∀ j ∈ js, id ∉ (s.workThread j).subMap) : js.foldl (notifyDelId env id) s = s := by
  induction js with
  | nil => rfl
  | cons j js ih =>
    have hj : notifyDelId env id s j = s := by
      simp only [notifyDelId]
      exact if_neg (h j List.mem_cons_self)
    rw [List.foldl_cons, hj]
    exact ih fun i hi => h i (List.mem_cons_of_mem j hi)

theorem lookups_bindLogin (v : ℕ) (id : UInt64) :
    (s.bindLogin env d).lookups v id = s.lookups v id ++
      if v = d.workThread ∧ id = d.id then [some ⟨d.id, d.bev, d.workThread, d.conn⟩] else [] := by
  have hm : Muted s ((s.emit (.registered d.workThread d.bev d.id d.conn (s.occupant d.bev))).modify
      d.workThread fun t =>
        { t with
          bevId := t.bevId.insert d.bev d.id
          subMap := Table.insertNew d.id (({} : Subscriber).setIdBev env.now d.id d.bev)
            t.subMap }) := Writes.muted ((writes_emit _).trans (writes_modify rfl rfl))
  simp only [bindLogin]
  rw [lookups_redisAsyncCommand, hm.lookups]
  by_cases hv : v = d.workThread
  · by_cases hid : id = d.id
    · simp [hv, hid, RedisCallback.announces]
    · simp [hv, hid, RedisCallback.announces, Ne.symm hid]
  · simp [hv]

theorem hushed_bindLogin : Hushed s (s.bindLogin env d) := by
  refine Hushed.trans ?_ (hushed_redisAsyncCommand _)
  exact (Writes.muted ((writes_emit _).trans (writes_modify rfl rfl))).toHushed

/-- After a kick the id has a session only where it had one on another worker. -/
theorem mem_subMap_kick {j : ℕ} {id : UInt64} (h : id ∈ ((s.kick w id).workThread j).subMap) :
    j ≠ w ∧ id ∈ (s.workThread j).subMap := by
  rw [← holder_ne_none, registry_kick, Registry.holder_kick] at h
  have hj : j ≠ w := by
    rintro rfl
    simp at h
  rw [if_neg fun hc => hj hc.1, holder_ne_none] at h
  exact ⟨hj, h⟩

/-- A successful login of an id that has no session on another worker. -/
theorem enters_registerLogin {js : List ℕ}
    (hj : ∀ j ∈ js, j ≠ d.workThread → d.id ∉ (s.workThread j).subMap) :
    s.Enters d (s.registerLogin R env d js) := by
  have hnone : ∀ j ∈ js, d.id ∉ ((s.kick d.workThread d.id).workThread j).subMap := by
    intro j hm hin
    obtain ⟨hne, hold⟩ := mem_subMap_kick hin
    exact hj j hm hne hold
  have hkick : Muted s (s.kick d.workThread d.id) := (writes_kick s d.workThread d.id).muted
  have hmute : ∀ u : Server, Muted (u.bindLogin env d) ((u.bindLogin env d).replyLogin R env d true
      "200 ok") := fun u => (writes_replyLogin R (Signal.discreet_reply d true)).muted
  simp only [registerLogin, foldl_notifyDelId_of_none hnone]
  refine ⟨hkick.toHushed.trans (hushed_bindLogin.trans (hmute _).toHushed), ?_, fun v id => ?_⟩
  · rw [registry_replyLogin, registry_bindLogin, registry_kick]
    rfl
  · rw [(hmute _).lookups, lookups_bindLogin, hkick.lookups]

end Sessions

section Notices

variable {σ : Type} (R : Runtime σ) {s t u : Server} {env : Env}

/-- Some worker has a session of `id`. -/
def online (s : Server) (id : UInt64) : Bool :=
  (List.range s.workThreadNum).any fun w => s.checkIdIsOnline w id

/-- The status byte of a presence frame. -/
def statusByte (status : Bool) : UInt8 := if status then 1 else 0

/-- A notice that says whether the id it is about is online. -/
def Carries (d : TransData) (status : Bool) : Prop :=
  d.dataSize = d.data.length ∧
    ∃ env, d.data = presenceFrame R env d.fromId (statusByte status)

/-- Notices about `id` were queued, all with the same status. -/
structure Notifies (id : UInt64) (status : Bool) (s t : Server) : Prop where
  registry : t.registry = s.registry
  lookups : ∀ w x, t.lookups w x = s.lookups w x
  sent : t.sent = s.sent
  pipe : ∀ w, ∃ added, (t.workThread w).newMsgFd = (s.workThread w).newMsgFd ++ added ∧
    ∀ d ∈ added, d.msgType = .trans ∧ d.origin = .server ∧ d.fromId = id ∧ Carries R d status

theorem Notifies.refl (id : UInt64) (status : Bool) (s : Server) : Notifies R id status s s where
  registry := rfl
  lookups _ _ := rfl
  sent := rfl
  pipe _ := ⟨[], by simp⟩

variable {R}

theorem Notifies.trans {id : UInt64} {status : Bool} (h : Notifies R id status s t)
    (h' : Notifies R id status t u) : Notifies R id status s u where
  registry := h'.registry.trans h.registry
  lookups w x := (h'.lookups w x).trans (h.lookups w x)
  sent := h'.sent.trans h.sent
  pipe w := exists_append_trans (h.pipe w) (h'.pipe w)

theorem online_of_registry_eq (h : t.registry = s.registry) (id : UInt64) :
    t.online id = s.online id := by
  have hnum : t.workThreadNum = s.workThreadNum := congrArg Registry.num h
  simp only [online, checkIdIsOnline, hnum, mem_subMap_of_registry_eq h]

/-- The first worker that has a session of `id`. -/
def firstWorker (s : Server) (id : UInt64) : Option ℕ :=
  (List.range s.workThreadNum).find? fun j => s.checkIdIsOnline j id

theorem firstWorker_of_registry_eq (h : t.registry = s.registry) (id : UInt64) :
    t.firstWorker id = s.firstWorker id := by
  have hnum : t.workThreadNum = s.workThreadNum := congrArg Registry.num h
  simp only [firstWorker, checkIdIsOnline, hnum, mem_subMap_of_registry_eq h]

theorem firstWorker_isSome (s : Server) (id : UInt64) :
    (s.firstWorker id).isSome = s.online id := by
  rw [Bool.eq_iff_iff, firstWorker, online, List.find?_isSome, List.any_eq_true]

/-- The notice about `id` that goes to one friend. -/
def notice (s : Server) (id : UInt64) (frame : Bytes) (toId : UInt64) : TransData :=
  { fromId := id, toId, dataSize := frame.length, data := frame, seq := s.nextSeq,
    origin := .server }

/-- With reliable pipes a notice is queued at the first worker that has the friend. -/
theorem notifyFriend_eq (hw : ∀ n, env.write n = .full) (s : Server) (id : UInt64) (frame : Bytes)
    (toId : UInt64) :
    notifyFriend env id frame s toId = (s.firstWorker toId).map fun j =>
      (s.notice id frame toId, true, ({ s with nextSeq := s.nextSeq + 1 }.setWrites
        (s.writes + 1)).enqueue j (s.notice id frame toId)) := by
  cases hf : s.firstWorker toId with
  | none =>
    rw [firstWorker] at hf
    simp [notifyFriend, hf]
  | some j =>
    rw [firstWorker] at hf
    have hj : toId ∈ (s.workThread j).subMap := of_decide_eq_true (List.find?_some hf :)
    simp only [notifyFriend, hf, Option.map_some, Option.some.injEq]
    rw [notifyNewMsg_eq, if_pos hj, hw]
    rfl

theorem offlineFriend_eq (hw : ∀ n, env.write n = .full) (s : Server) (id : UInt64) (frame : Bytes)
    (str : Bytes) :
    offlineFriend env id frame s str =
      match s.firstWorker (atoll str) with
      | some j => ({ s with nextSeq := s.nextSeq + 1 }.setWrites (s.writes + 1)).enqueue j
          (s.notice id frame (atoll str))
      | none => s := by
  rw [offlineFriend, notifyFriend_eq hw]
  cases s.firstWorker (atoll str) <;> rfl

/-- The notices of the online loop are those of the offline loop; it also notes which friends are
online. -/
theorem onlineFriend_eq (hw : ∀ n, env.write n = .full) (acc : Server × Bytes) (id : UInt64)
    (frame : Bytes) (str : Bytes) :
    onlineFriend env id frame acc str = (offlineFriend env id frame acc.1 str,
      acc.2 ++ [statusByte (acc.1.online (atoll str))]) := by
  rw [onlineFriend, offlineFriend, notifyFriend_eq hw, ← firstWorker_isSome]
  cases acc.1.firstWorker (atoll str) <;> rfl

theorem registry_offlineFriend (env : Env) (id : UInt64) (frame : Bytes) (s : Server)
    (str : Bytes) : (offlineFriend env id frame s str).registry = s.registry :=
  registry_foldl_offlineFriend env id frame [str] s

theorem foldl_onlineFriend_eq (hw : ∀ n, env.write n = .full) (id : UInt64) (frame : Bytes)
    (strs : List Bytes) (acc : Server × Bytes) :
    strs.foldl (onlineFriend env id frame) acc = (strs.foldl (offlineFriend env id frame) acc.1,
      acc.2 ++ strs.map fun str => statusByte (acc.1.online (atoll str))) := by
  induction strs generalizing acc with
  | nil => simp
  | cons str strs ih =>
    rw [List.foldl_cons, onlineFriend_eq hw, ih]
    simp only [online_of_registry_eq (registry_offlineFriend env id frame acc.1 str),
      List.foldl_cons, List.map_cons, List.append_assoc, List.singleton_append]

variable (R)

theorem notifies_offlineFriend (hw : ∀ n, env.write n = .full) (id : UInt64) (status : Bool)
    (s : Server) (str : Bytes) :
    Notifies R id status s
      (offlineFriend env id (presenceFrame R env id (statusByte status)) s str) where
  registry := registry_offlineFriend env id _ s str
  lookups w x := by
    rw [offlineFriend_eq hw]
    split
    · exact lookups_enqueue _ _ w _ x
    · rfl
  sent := by
    rw [offlineFriend_eq hw]
    split <;> rfl
  pipe w := by
    rw [offlineFriend_eq hw]
    split
    · refine ⟨_, pipe_enqueue _ _ w _, ?_⟩
      split_ifs
      · simp only [List.mem_singleton, forall_eq]
        exact ⟨rfl, rfl, rfl, rfl, env, rfl⟩
      · simp
    · exact ⟨[], by simp⟩

/-- A friend that is online gets a notice at the first worker that has it. -/
theorem notified_offlineFriend (hw : ∀ n, env.write n = .full) {id : UInt64} {frame : Bytes}
    {str : Bytes} {w : ℕ} (hf : s.firstWorker (atoll str) = some w) :
    ((offlineFriend env id frame s str).workThread w).newMsgFd =
      (s.workThread w).newMsgFd ++ [s.notice id frame (atoll str)] := by
  rw [offlineFriend_eq hw, hf]
  simp [pipe_enqueue, setWrites]

theorem notifies_foldl (hw : ∀ n, env.write n = .full) (id : UInt64) (status : Bool)
    (strs : List Bytes) (s : Server) :
    Notifies R id status s (strs.foldl
      (offlineFriend env id (presenceFrame R env id (statusByte status))) s) := by
  induction strs generalizing s with
  | nil => exact Notifies.refl R id status s
  | cons str strs ih => exact (notifies_offlineFriend R hw id status s str).trans (ih _)

/-- Every listed friend that is online gets a notice. -/
theorem notified_foldl (hw : ∀ n, env.write n = .full) (id : UInt64) (status : Bool)
    {strs : List Bytes} {str : Bytes} (hs : str ∈ strs) {w : ℕ}
    (hf : s.firstWorker (atoll str) = some w) :
    ∃ added, ((strs.foldl (offlineFriend env id
      (presenceFrame R env id (statusByte status))) s).workThread w).newMsgFd =
        (s.workThread w).newMsgFd ++ added ∧ ∃ d ∈ added, d.toId = atoll str := by
  induction strs generalizing s with
  | nil => simp at hs
  | cons x strs ih =>
    let frame := presenceFrame R env id (statusByte status)
    have hr : (offlineFriend env id frame s x).registry = s.registry :=
      registry_offlineFriend env id frame s x
    rw [List.foldl_cons]
    rcases List.mem_cons.mp hs with rfl | hs
    · obtain ⟨added, hadd, -⟩ :=
        (notifies_foldl R hw id status strs (offlineFriend env id frame s str)).pipe w
      refine ⟨[s.notice id frame (atoll str)] ++ added, ?_, s.notice id frame (atoll str), ?_, rfl⟩
      swap
      · exact List.mem_append_left added (List.mem_singleton_self _)
      rw [hadd, notified_offlineFriend hw hf, List.append_assoc]
    · obtain ⟨xs, hx, -⟩ := (notifies_offlineFriend R hw id status s x).pipe w
      obtain ⟨ys, hy, d, hd, hto⟩ :=
        ih hs ((firstWorker_of_registry_eq hr (atoll str)).trans hf)
      exact ⟨xs ++ ys, by rw [hy, hx, List.append_assoc], d, List.mem_append_right xs hd, hto⟩

end Notices

section Answers

variable {σ : Type} {R : Runtime σ} {s t : Server} {env : Env} {w : ℕ} {cmd : RedisCommand}
  {reply : Option RedisReply}

theorem lookups_takeCommand (hc : (s.workThread w).redis[0]? = some cmd)
    (reply : Option RedisReply) (v : ℕ) (id : UInt64) :
    s.lookups v id = (if v = w then (cmd.callback.announces id).toList else []) ++
      (s.takeCommand w 0 cmd reply).lookups v id := by
  by_cases hv : v = w
  · subst hv
    obtain ⟨rest, hr⟩ : ∃ rest, (s.workThread v).redis = cmd :: rest := by
      cases hl : (s.workThread v).redis with
      | nil => simp [hl] at hc
      | cons c cs =>
        obtain rfl : c = cmd := by simpa [hl] using hc
        exact ⟨cs, rfl⟩
    cases ha : cmd.callback.announces id <;>
      simp [lookups, takeCommand, modify, emit, hr, ha]
  · simp [lookups, takeCommand, modify, emit, hv]

/-- A command that is no lookup of friends leaves the queue. -/
theorem muted_takeCommand (hc : (s.workThread w).redis[0]? = some cmd)
    (ha : ∀ id, cmd.callback.announces id = none) : Muted s (s.takeCommand w 0 cmd reply) where
  lookups v id := by
    rw [lookups_takeCommand hc reply v id, ha]
    simp
  pipe v := ⟨[], by by_cases hv : v = w <;> simp [takeCommand, modify, emit, hv]⟩
  sent := ⟨[], by simp⟩

/-- A presence frame that lists `id`, with the given status. -/
def Tells (R : Runtime σ) (id : UInt64) (status : Bool) (bytes : Bytes) : Prop :=
  ∃ (m : OnlineStatus) (mem : ℕ → UInt8), bytes = packData (m.serialize R) 12 mem ∧
    (∃ str ∈ m.id, atoll str = id) ∧ ∀ (i : ℕ) (str : Bytes), m.id[i]? = some str →
      atoll str = id → (m.status.getD [])[i]? = some (statusByte status)

theorem tells_presenceFrame (R : Runtime σ) (env : Env) (id : UInt64) (status : Bool) :
    Tells R id status (presenceFrame R env id (statusByte status)) := by
  refine ⟨_, env.mem, rfl, ⟨_, List.mem_singleton_self _, atoll_signed id⟩, ?_⟩
  intro i str hi _
  cases i with
  | zero => rfl
  | succ i => simp at hi

theorem Carries.tells {d : TransData} {status : Bool} (h : Carries R d status) :
    Tells R d.fromId status (d.data.take d.dataSize.toNat) := by
  obtain ⟨hsize, env, hd⟩ := h
  have htake : d.data.take d.dataSize.toNat = d.data := by simp [hsize]
  rw [htake, hd]
  exact tells_presenceFrame R env d.fromId status

/-- What follows a lookup of the friends of `id` that announces `k`: notices with that status go to
the friends that are online, unless the session it announces is over, and its connection is shown
which friends are online. -/
structure Spreads (R : Runtime σ) (friends : UInt64 → List Bytes) (id : UInt64)
    (k : Option OnlineInfo) (s t : Server) : Prop where
  registry : t.registry = s.registry
  pipe : ∀ v, ∃ added, (t.workThread v).newMsgFd = (s.workThread v).newMsgFd ++ added ∧
    (∀ d ∈ added, d.msgType = .trans ∧ d.origin = .server ∧ d.fromId = id ∧
      Carries R d k.isSome) ∧
    ((∀ info ∈ k, info.bev ∈ (s.workThread info.workThread).bevId) →
      ∀ str ∈ friends id, s.firstWorker (atoll str) = some v → ∃ d ∈ added, d.toId = atoll str)
  sent : ∃ added, t.sent = s.sent ++ added ∧
    ∀ e ∈ added, ∀ x, e.about friends x = true → Tells R x (s.online x) e.bytes

theorem Spreads.of_take {friends : UInt64 → List Bytes} {id : UInt64} {k : Option OnlineInfo}
    (h : Spreads R friends id k (s.takeCommand w 0 cmd reply) t) : Spreads R friends id k s t where
  registry := h.registry.trans (registry_takeCommand s w 0 cmd reply)
  pipe v := by
    have hr := registry_takeCommand s w 0 cmd reply
    have hq : ((s.takeCommand w 0 cmd reply).workThread v).newMsgFd =
        (s.workThread v).newMsgFd := by
      by_cases hv : v = w <;> simp [takeCommand, modify, emit, hv]
    obtain ⟨added, hadd, hall, htold⟩ := h.pipe v
    simp only [bevId_of_registry_eq hr, firstWorker_of_registry_eq hr] at htold
    exact ⟨added, hq ▸ hadd, hall, htold⟩
  sent := by
    obtain ⟨added, hadd, htells⟩ := h.sent
    simp only [online_of_registry_eq (registry_takeCommand s w 0 cmd reply)] at htells
    exact ⟨added, hadd, htells⟩

/-- Worker `w` gets the answer to its first lookup of the friends of `id`. -/
structure Answered (R : Runtime σ) (friends : UInt64 → List Bytes) (s : Server) (w : ℕ)
    (id : UInt64) (k : Option OnlineInfo) (t : Server) : Prop extends
    Spreads R friends id k s t where
  first : s.lookups w id = k :: t.lookups w id
  lookups : ∀ v x, ¬ (v = w ∧ x = id) → t.lookups v x = s.lookups v x

theorem mapM_map_some (strs : List Bytes) : (strs.map some).mapM id = some strs := by
  induction strs with
  | nil => rfl
  | cons str strs ih => simp [ih]

/-- The list of friends that a connection is shown has the status of each of them. -/
theorem tells_friends {friends : UInt64 → List Bytes} {info : OnlineInfo} {e : Sent} {x : UInt64}
    (he : e.source = .friends info) (hb : e.bytes = packData (OnlineStatus.serialize R
      { id := (friends info.id).map cstr
        status := some ((friends info.id).map fun str => statusByte (s.online (atoll str))) })
      12 env.mem)
    (hx : e.about friends x = true) : Tells R x (s.online x) e.bytes := by
  simp only [Sent.about, he, List.any_eq_true, decide_eq_true_eq] at hx
  obtain ⟨str, hstr, rfl⟩ := hx
  refine ⟨_, env.mem, hb, ⟨cstr str, List.mem_map_of_mem hstr, atoll_cstr str⟩, ?_⟩
  intro i _ hi hid
  rw [List.getElem?_map] at hi
  obtain ⟨other, hother, rfl⟩ := Option.map_eq_some_iff.mp hi
  rw [atoll_cstr] at hid
  simp [hother, hid]

variable {friends : UInt64 → List Bytes} {id : UInt64} {k : Option OnlineInfo}

/-- The notices to a list of friends. -/
theorem notices_foldl (hw : ∀ n, env.write n = .full) (id : UInt64) (status : Bool)
    (strs : List Bytes) (s : Server) (v : ℕ) :
    ∃ added, ((strs.foldl (offlineFriend env id
      (presenceFrame R env id (statusByte status))) s).workThread v).newMsgFd =
        (s.workThread v).newMsgFd ++ added ∧
      (∀ d ∈ added, d.msgType = .trans ∧ d.origin = .server ∧ d.fromId = id ∧
        Carries R d status) ∧
      ∀ str ∈ strs, s.firstWorker (atoll str) = some v → ∃ d ∈ added, d.toId = atoll str := by
  obtain ⟨added, hadd, hall⟩ := (notifies_foldl R hw id status strs s).pipe v
  refine ⟨added, hadd, hall, fun str hstr hf => ?_⟩
  obtain ⟨added', hadd', hd⟩ := notified_foldl R hw id status hstr hf
  obtain rfl : added = added' := List.append_cancel_left (hadd.symm.trans hadd')
  exact hd

theorem spreads_redisOfflineNotify {info : OfflineInfo} (hw : ∀ n, env.write n = .full)
    (he : elements reply = (friends info.id).map some)
    (ht : s.redisOfflineNotify R env info reply = some t) :
    Spreads R friends info.id none s t ∧ ∀ v x, t.lookups v x = s.lookups v x := by
  rw [redisOfflineNotify, he, mapM_map_some] at ht
  obtain rfl := Option.some.inj ht
  have hn := notifies_foldl R hw info.id false (friends info.id) s
  refine ⟨⟨hn.registry, fun v => ?_, [], hn.sent.trans (List.append_nil _).symm, by simp⟩,
    hn.lookups⟩
  obtain ⟨added, hadd, hall, htold⟩ := notices_foldl hw info.id false (friends info.id) s v
  exact ⟨added, hadd, hall, fun _ => htold⟩

theorem spreads_redisOnlineNotify {info : OnlineInfo} (hw : ∀ n, env.write n = .full)
    (he : elements reply = (friends info.id).map some)
    (ht : s.redisOnlineNotify R env info reply = some t) :
    Spreads R friends info.id (some info) s t ∧ ∀ v x, t.lookups v x = s.lookups v x := by
  rw [redisOnlineNotify, he, mapM_map_some] at ht
  split_ifs at ht with hgo
  · let u := (friends info.id).foldl
      (offlineFriend env info.id (presenceFrame R env info.id (statusByte true))) s
    have hn : Notifies R info.id true s u := notifies_foldl R hw info.id true (friends info.id) s
    simp only [Option.map_some, foldl_onlineFriend_eq hw, List.nil_append, Option.some.injEq] at ht
    subst ht
    refine ⟨⟨?_, fun v => ?_, ?_⟩, fun v x => ?_⟩
    · rw [registry_addOutput, registry_emit_of_none rfl]
      exact hn.registry
    · obtain ⟨added, hadd, hall, htold⟩ := notices_foldl hw info.id true (friends info.id) s v
      refine ⟨added, ?_, hall, fun _ => htold⟩
      rw [workThread_addOutput]
      exact hadd
    · refine ⟨_, (sent_addOutput _ _ _ _).trans (congrArg (· ++ _) hn.sent), fun e hm x hx => ?_⟩
      obtain ⟨-, hsrc, hbytes⟩ := mem_entryAt.mp hm
      exact tells_friends hsrc hbytes hx
    · rw [Server.lookups, workThread_addOutput]
      exact hn.lookups v x
  · obtain rfl := Option.some.inj ht
    refine ⟨⟨rfl, fun v => ⟨[], by simp, by simp, fun hlive str hstr _ => ?_⟩, [], by simp⟩,
      fun _ _ => rfl⟩
    refine absurd ⟨?_, hlive info rfl⟩ hgo
    simp [List.ne_nil_of_mem hstr]

/-- A lookup is answered with the friends of its id. -/
theorem answered_redisCallback (hw : ∀ n, env.write n = .full)
    (hc : (s.workThread w).redis[0]? = some cmd) (hk : cmd.callback.announces id = some k)
    (he : elements reply = (friends id).map some)
    (ht : redisCallback R env (s.takeCommand w 0 cmd reply) reply cmd.callback = some t) :
    Answered R friends s w id k t := by
  have htake : ∀ v x, s.lookups v x =
      (if v = w ∧ x = id then [k] else []) ++ (s.takeCommand w 0 cmd reply).lookups v x := by
    intro v x
    rw [lookups_takeCommand hc reply v x]
    congr 1
    by_cases hv : v = w
    · by_cases hx : x = id
      · simp [hv, hx, hk]
      · simp [hv, hx, RedisCallback.announces_of_ne hk hx]
    · simp [hv]
  have hspread : Spreads R friends id k (s.takeCommand w 0 cmd reply) t ∧
      ∀ v x, t.lookups v x = (s.takeCommand w 0 cmd reply).lookups v x := by
    rcases RedisCallback.announces_eq_some hk with ⟨info, hcb, rfl, rfl⟩ | ⟨info, hcb, rfl, rfl⟩
    · rw [hcb] at ht
      exact spreads_redisOnlineNotify hw he ht
    · rw [hcb] at ht
      exact spreads_redisOfflineNotify hw he ht
  obtain ⟨hs, hl⟩ := hspread
  refine ⟨hs.of_take, ?_, fun v x hne => ?_⟩
  · rw [htake, hl]
    simp
  · rw [htake v x, if_neg hne, hl]
    rfl

end Answers

section Forwarding

variable {s t : Server} {w : ℕ} {d : TransData}

/-- What worker `w` appends to an output when it reads a record from its pipe. -/
def forward (s : Server) (w : ℕ) (d : TransData) : List Sent :=
  match ((s.workThread w).subMap.lookup d.toId).map Subscriber.bev with
  | some b => s.entryAt b (.relay d) (d.data.take d.dataSize.toNat)
  | none => []

theorem forward_of_registry_eq (h : t.registry = s.registry) (w : ℕ) (d : TransData) :
    t.forward w d = s.forward w d := by
  simp only [forward, bev_of_registry_eq h, entryAt, occupant, client_eq_of_registry_eq h]

theorem workThread_handleMsg_trans (hm : d.msgType = .trans) :
    (handleMsg w s d).workThread = s.workThread := by
  simp only [handleMsg, hm, deleteTrans, emit]
  split
  · exact workThread_addOutput _ _ _ _
  · rfl

theorem sent_handleMsg_trans (hm : d.msgType = .trans) :
    (handleMsg w s d).sent = s.sent ++ s.forward w d := by
  rw [sent_handleMsg, hm, forward]
  cases (s.workThread w).subMap.lookup d.toId <;> rfl

/-- Worker `w` reads its pipe, in which there is no deletion. -/
structure Empties (s : Server) (w : ℕ) (t : Server) : Prop where
  registry : t.registry = s.registry
  lookups : ∀ v id, t.lookups v id = s.lookups v id
  pipe : ∀ v, (t.workThread v).newMsgFd = if v = w then [] else (s.workThread v).newMsgFd
  sent : t.sent = s.sent ++ (s.workThread w).newMsgFd.flatMap (s.forward w)

theorem empties_newMsgLoop {msgs : List TransData} (hq : (s.workThread w).newMsgFd = msgs)
    (hm : ∀ d ∈ msgs, d.msgType = .trans) : s.Empties w (newMsgLoop w msgs s) := by
  induction msgs generalizing s with
  | nil =>
    refine ⟨rfl, fun _ _ => rfl, fun v => ?_, by simp [hq, newMsgLoop]⟩
    split_ifs with hv
    · rw [hv]
      exact hq
    · rfl
  | cons m ms ih =>
    have hmt : m.msgType = .trans := hm m List.mem_cons_self
    let v := s.modify w fun t => { t with newMsgFd := ms }
    let u := handleMsg w v m
    have hrv : v.registry = s.registry := by
      refine registry_modify_of_eq rfl rfl ?_
      simp [WorkThread.dels, hq, hmt]
    have hru : u.registry = s.registry := (registry_handleMsg_trans hmt).trans hrv
    have hwu : u.workThread = v.workThread := workThread_handleMsg_trans hmt
    have hsu : u.sent = s.sent ++ s.forward w m := by
      rw [sent_handleMsg_trans hmt, forward_of_registry_eq hrv]
      rfl
    have hqu : (u.workThread w).newMsgFd = ms := by
      rw [hwu]
      simp [v, modify]
    obtain ⟨hr, hl, hp, hs⟩ := ih hqu fun d hd => hm d (List.mem_cons_of_mem m hd)
    refine ⟨hr.trans hru, fun i id => (hl i id).trans ?_, fun i => (hp i).trans ?_, hs.trans ?_⟩
    · rw [Server.lookups, hwu]
      by_cases hi : i = w <;> simp [v, modify, hi, Server.lookups]
    · rw [hwu]
      by_cases hi : i = w <;> simp [v, modify, hi]
    · simp only [hqu, hsu, hq, List.flatMap_cons, List.append_assoc]
      congr 3
      funext d
      exact forward_of_registry_eq hru w d

end Forwarding

end Server

end EglComet
