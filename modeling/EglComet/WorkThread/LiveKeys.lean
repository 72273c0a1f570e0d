import EglComet.AnalyseReq.PostBody
import EglComet.WorkThread.Sessions
import EglComet.WorkThread.StepEffects

/-!
The keys of `_bev_id` are the live connections of a worker as long as no login
replaces the session of its own connection. Then every callback frees what is
alive, and the checks of other requests survive it.
-/
namespace EglComet

open Protobuf

/-- An entry that neither frees nor writes to a bufferevent that is gone. -/
def Obs.clean : Obs → Bool
  | .freed _ live => live
  | .useAfterFree _ => false
  | _ => true

/-- The bufferevent whose callback an event runs for an HTTP check. -/
def Event.check : Event → Option Addr
  | .httpRead h _ => some h
  | .httpEvent h _ => some h
  | _ => none

namespace Server

/-- The owner of the HTTP check at an address. -/
def checkAt (s : Server) (a : Addr) : Option Owner :=
  (s.heap.lookup a).bind fun be => if be.owner.connection = none then some be.owner else none

/-- Between two states live bufferevents were freed and written to, apart from what `E` excuses, and
the HTTP checks are still there, apart from the one at `x`. -/
structure Careful (E : Obs → Prop) (x : Option Addr) (s t : Server) : Prop where
  log : ∃ added, t.log = s.log ++ added ∧ ∀ o ∈ added, o.clean = true ∨ E o
  check : ∀ a o, x ≠ some a → s.checkAt a = some o → t.checkAt a = some o

section Rules

variable {E : Obs → Prop} {x : Option Addr} {s t u : Server}

theorem Careful.trans (h : Careful E x s t) (h' : Careful E x t u) : Careful E x s u where
  log := exists_append_trans h.log h'.log
  check a o ha ho := h'.check a o ha (h.check a o ha ho)

theorem careful_of_eq (hl : t.log = s.log) (hh : t.heap = s.heap) : Careful E x s t where
  log := ⟨[], by simp [hl]⟩
  check a o _ ho := by simpa [checkAt, hh] using ho

theorem Careful.refl (s : Server) : Careful E x s s := careful_of_eq rfl rfl

theorem careful_emit {o : Obs} (h : o.clean = true ∨ E o) : Careful E x s (s.emit o) where
  log := ⟨[o], rfl, by simpa using h⟩
  check _ _ _ ho := ho

theorem careful_modify (w : ℕ) (f : WorkThread → WorkThread) : Careful E x s (s.modify w f) :=
  careful_of_eq rfl rfl

theorem careful_setWrites (n : ℕ) : Careful E x s (s.setWrites n) := careful_of_eq rfl rfl

theorem careful_nextSeq : Careful E x s { s with nextSeq := s.nextSeq + 1 } := careful_of_eq rfl rfl

theorem careful_redisAsyncCommand {w : ℕ} {c : RedisCommand} :
    Careful E x s (s.redisAsyncCommand w c) :=
  careful_of_eq rfl rfl

theorem careful_setAnalyseReq {w : ℕ} {a : AnalyseReq} : Careful E x s (s.setAnalyseReq w a) :=
  careful_of_eq rfl rfl

theorem careful_deleteLogin {d : LoginData} : Careful E x s (s.deleteLogin d) :=
  careful_emit (Or.inl rfl)

theorem careful_deleteTrans {d : TransData} : Careful E x s (s.deleteTrans d) :=
  careful_emit (Or.inl rfl)

theorem checkAt_of_client {b : Addr} {c : ℕ × ℕ} (h : s.client b = some c) :
    s.checkAt b = none := by
  obtain ⟨be, hb, hc⟩ := Option.bind_eq_some_iff.mp h
  simp [checkAt, hb, hc]

theorem mem_heap_of_client {b : Addr} {c : ℕ × ℕ} (h : s.client b = some c) : b ∈ s.heap := by
  obtain ⟨be, hb, -⟩ := Option.bind_eq_some_iff.mp h
  exact Table.mem_of_lookup hb

theorem careful_bufferEventFree {b : Addr} (hb : b ∈ s.heap ∨ E (.freed b false))
    (hx : s.checkAt b = none ∨ x = some b) : Careful E x s (s.bufferEventFree b) where
  log := by
    refine ⟨_, log_bufferEventFree s b, ?_⟩
    simp only [List.mem_singleton, forall_eq, Obs.clean, decide_eq_true_eq]
    by_cases hm : b ∈ s.heap
    · exact Or.inl hm
    · simpa [hm] using hb
  check a o ha ho := by
    have hne : a ≠ b := by
      rintro rfl
      rcases hx with hx | hx
      · simp [hx] at ho
      · exact ha hx
    simpa [checkAt, bufferEventFree, setHeap, emit, Table.lookup_erase_eq, hne] using ho

/-- A live connection is freed. -/
theorem careful_free_client {b : Addr} {c : ℕ × ℕ} (h : s.client b = some c) :
    Careful E x s (s.bufferEventFree b) :=
  careful_bufferEventFree (Or.inl (mem_heap_of_client h)) (Or.inl (checkAt_of_client h))

theorem checkAt_insert (s : Server) (b a : Addr) (be : BufferEvent) :
    (s.setHeap (s.heap.insert b be)).checkAt a =
      if a = b then if be.owner.connection = none then some be.owner else none
      else s.checkAt a := by
  simp only [checkAt, setHeap, Table.lookup_insert_eq]
  split_ifs <;> simp_all

theorem careful_insert {b : Addr} {be : BufferEvent} (hx : s.checkAt b = none ∨ x = some b) :
    Careful E x s (s.setHeap (s.heap.insert b be)) where
  log := ⟨[], by simp [setHeap]⟩
  check a o ha ho := by
    rw [checkAt_insert, if_neg]
    · exact ho
    · rintro rfl
      rcases hx with hx | hx
      · simp [hx] at ho
      · exact ha hx

theorem careful_recordSent {o : Owner} {source : Source} {bs : Bytes} :
    Careful E x s (s.recordSent o source bs) := by
  unfold recordSent
  split <;> exact careful_of_eq rfl rfl

theorem careful_addOutput {b : Addr} {source : Source} {bs : Bytes}
    (hb : b ∈ s.heap ∨ E (.useAfterFree b)) : Careful E x s (s.addOutput b source bs) := by
  unfold addOutput
  cases hl : s.heap.lookup b with
  | none =>
    exact careful_emit (hb.imp_left fun hm => absurd hm (Finmap.lookup_eq_none.mp hl))
  | some be =>
    apply Careful.trans _ careful_recordSent
    refine ⟨⟨[], by simp [setHeap]⟩, fun a o _ ho => ?_⟩
    rw [checkAt_insert]
    by_cases hab : a = b
    · subst hab
      rw [if_pos rfl]
      simpa [checkAt, hl] using ho
    · rwa [if_neg hab]

theorem mem_heap_addOutput {a b : Addr} {source : Source} {bs : Bytes} (h : a ∈ s.heap) :
    a ∈ (s.addOutput b source bs).heap := by
  unfold addOutput
  cases s.heap.lookup b with
  | none => exact h
  | some be =>
    rw [heap_recordSent]
    exact Finmap.mem_insert.mpr (Or.inr h)

theorem careful_requestOffline {w : ℕ} {id : UInt64} : Careful E x s (s.requestOffline w id) := by
  unfold requestOffline
  split
  · exact careful_redisAsyncCommand
  · exact Careful.refl s

theorem careful_foldl {α : Type} {f : Server → α → Server} (hf : ∀ s a, Careful E x s (f s a))
    (as : List α) (s : Server) : Careful E x s (as.foldl f s) := by
  induction as generalizing s with
  | nil => exact Careful.refl s
  | cons a as ih => exact (hf s a).trans (ih _)

theorem careful_enqueue {j : ℕ} {d : TransData} : Careful E x s (s.enqueue j d) :=
  (careful_modify j _).trans (careful_emit (Or.inl rfl))

theorem careful_notifyNewMsg {env : Env} {j : ℕ} {d : TransData} :
    Careful E x s (notifyNewMsg env s j d).2 := by
  rw [notifyNewMsg_eq]
  split_ifs
  · exact (careful_setWrites _).trans careful_enqueue
  · exact careful_setWrites _
  · exact Careful.refl s

theorem careful_notifyDelId (env : Env) (id : UInt64) (s : Server) (j : ℕ) :
    Careful E x s (notifyDelId env id s j) := by
  have hn : Careful E x s (notifyNewMsg env { s with nextSeq := s.nextSeq + 1 } j
      { toId := id, msgType := .delId, seq := s.nextSeq, origin := .server }).2 :=
    careful_nextSeq.trans careful_notifyNewMsg
  simp only [notifyDelId]
  split_ifs
  · exact hn
  · exact hn.trans careful_deleteTrans
  · exact Careful.refl s

theorem careful_transmit {env : Env} {d : TransData} : Careful E x s (s.transmit env d) := by
  rw [transmit_eq]
  split
  · exact (careful_setWrites _).trans careful_enqueue
  · exact (careful_setWrites _).trans careful_deleteTrans

theorem careful_notifyFriend {env : Env} {id toId : UInt64} {frame : Bytes}
    {y : TransData × Bool × Server} (h : notifyFriend env id frame s toId = some y) :
    Careful E x s y.2.2 := by
  obtain ⟨j, -, rfl⟩ := Option.map_eq_some_iff.mp h
  exact careful_nextSeq.trans careful_notifyNewMsg

theorem careful_foldl_onlineFriend (env : Env) (id : UInt64) (frame : Bytes) (strs : List Bytes)
    (acc : Server × Bytes) :
    Careful E x acc.1 (strs.foldl (onlineFriend env id frame) acc).1 := by
  induction strs generalizing acc with
  | nil => exact Careful.refl _
  | cons str strs ih =>
    refine Careful.trans ?_ (ih _)
    unfold onlineFriend
    split
    · rename_i d sent t ht
      have hg : Careful E x acc.1 t := careful_notifyFriend ht
      cases sent
      · exact hg.trans careful_deleteTrans
      · exact hg
    · exact Careful.refl _

theorem careful_offlineFriend (env : Env) (id : UInt64) (frame : Bytes) (s : Server) (str : Bytes) :
    Careful E x s (offlineFriend env id frame s str) := by
  unfold offlineFriend
  split
  · rename_i ht
    exact careful_notifyFriend ht
  · exact Careful.refl s

end Rules

section Callbacks

variable {E : Obs → Prop} {x : Option Addr} {s t : Server} {env : Env} {w : ℕ}

theorem careful_bufferEventEventCallback {b : Addr} {flags : Flags} {c : ℕ × ℕ}
    (hb : s.client b = some c) : Careful E x s (s.bufferEventEventCallback w b flags) := by
  simp only [bufferEventEventCallback]
  have he : Careful E x s (s.emit (.closed w b (s.occupant b))) := careful_emit (Or.inl rfl)
  split_ifs
  · exact (((he.trans (careful_modify w _)).trans (careful_modify w _)).trans
      (careful_free_client hb)).trans careful_requestOffline
  · exact ((he.trans (careful_modify w _)).trans (careful_free_client hb)).trans
      careful_requestOffline
  · exact Careful.refl s

/-- The registry after moves without a login knows live connections alone. -/
theorem knownLive_of_moves (hk : s.registry.KnownLive)
    (hm : Registry.Moves (fun r l => r.Fresh l) s.registry t.registry) : t.registry.KnownLive :=
  hm.invariant (fun _ _ hr he hf => hr.apply he hf) hk

theorem careful_expireEntry {now : ℤ} {b : Addr} (hk : s.registry.KnownLive) :
    Careful E x s (expireEntry w now s b) := by
  unfold expireEntry
  split
  · exact Careful.refl s
  · rename_i hb
    obtain ⟨conn, hl⟩ := hk w b (Table.mem_of_lookup hb)
    split
    · exact Careful.refl s
    · simp only
      split_ifs
      · exact (((careful_emit (Or.inl rfl)).trans (careful_free_client hl)).trans
          (careful_modify w _)).trans careful_requestOffline
      · exact Careful.refl s

theorem careful_delExpireClient (hk : s.registry.KnownLive) :
    Careful E x s (s.delExpireClient env w) := by
  unfold delExpireClient
  split
  · exact Careful.refl s
  · rename_i now _
    generalize env.order.toList (s.workThread w).bevId = bs
    induction bs generalizing s with
    | nil => exact Careful.refl s
    | cons b bs ih =>
      refine (careful_expireEntry hk).trans (ih ?_)
      exact knownLive_of_moves hk (expireEntry_moves (fun _ _ => trivial) now s b)

theorem careful_newConnection : Careful E x s (s.newConnection env w) := by
  have hi : Careful E x { s with nextConn := s.nextConn + 1 }
      ({ s with nextConn := s.nextConn + 1 }.setHeap
        (s.heap.insert (env.alloc.next s.heap) { owner := .client w s.nextConn })) := by
    apply careful_insert
    left
    simp [checkAt, Finmap.lookup_eq_none.mpr (env.alloc.fresh s.heap)]
  have hn : Careful E x s { s with nextConn := s.nextConn + 1 } := careful_of_eq rfl rfl
  exact ((hn.trans hi).trans (careful_modify w _)).trans (careful_emit (Or.inl (by rfl)))

theorem careful_newConnLoop (items : List ℤ) (i : ℕ) (hk : s.registry.KnownLive) :
    Careful E x s (newConnLoop env w i items s) := by
  induction items generalizing i s with
  | nil => exact Careful.refl s
  | cons data rest ih =>
    have hp : (s.modify w fun t => { t with newConnFd := rest }).registry = s.registry :=
      registry_modify_of_eq rfl rfl rfl
    rw [← hp] at hk
    refine Careful.trans (t := s.modify w fun t => { t with newConnFd := rest })
      (careful_modify w _) ?_
    simp only [newConnLoop]
    split_ifs
    · refine careful_newConnection.trans (ih _ ?_)
      rw [registry_newConnection]
      exact hk.apply (client_alloc env _) trivial
    · exact careful_modify w _
    · refine (careful_delExpireClient hk).trans (ih _ ?_)
      exact knownLive_of_moves hk (delExpireClient_moves (fun _ _ => trivial) env _)
    · exact ih _ hk
    · exact Careful.refl _

theorem knownLive_handleMsg {d : TransData} (hk : s.registry.KnownLive) :
    (handleMsg w s d).registry.KnownLive := by
  cases hm : d.msgType with
  | trans => rwa [registry_handleMsg_trans hm]
  | delId =>
    rw [registry_handleMsg_delId hm]
    exact hk.kick w d.toId

/-- A record is forwarded without a look at `_bev_id`. -/
theorem careful_handleMsg {d : TransData} (hk : s.registry.KnownLive)
    (hE : ∀ b, E (.useAfterFree b)) : Careful E x s (handleMsg w s d) := by
  simp only [handleMsg]
  refine Careful.trans ?_ careful_deleteTrans
  split
  · split
    · exact careful_addOutput (Or.inr (hE _))
    · exact Careful.refl s
  · split
    · refine Careful.trans ?_ (careful_modify w _)
      split_ifs with hb
      · obtain ⟨conn, hl⟩ := hk w _ hb
        exact careful_free_client hl
      · exact careful_emit (Or.inl rfl)
    · exact Careful.refl s

theorem careful_newMsgLoop (msgs : List TransData) (hk : s.registry.KnownLive)
    (hE : ∀ b, E (.useAfterFree b)) : Careful E x s (newMsgLoop w msgs s) := by
  induction msgs generalizing s with
  | nil => exact Careful.refl s
  | cons d ds ih =>
    have hp : (s.modify w fun t => { t with newMsgFd := ds }).registry.KnownLive := by
      rw [registry_pop]
      exact hk
    exact ((careful_modify w _).trans (careful_handleMsg hp hE)).trans (ih (knownLive_handleMsg hp))

theorem careful_kick {id : UInt64} (hk : s.registry.KnownLive) : Careful E x s (s.kick w id) := by
  simp only [kick]
  split
  · exact Careful.refl s
  · refine Careful.trans ?_ (careful_modify w _)
    split_ifs with hb
    · obtain ⟨conn, hl⟩ := hk w _ hb
      exact (careful_free_client hl).trans (careful_modify w _)
    · exact Careful.refl s

section Checks

variable {σ : Type} (R : Runtime σ) {d : LoginData} {h : Addr}

theorem careful_replyLogin {ok : Bool} {msg : String}
    (hb : d.bev ∈ s.heap ∨ E (.useAfterFree d.bev)) : Careful E x s (s.replyLogin R env d ok msg) :=
  careful_setAnalyseReq.trans (careful_addOutput hb)

theorem careful_registerLogin {js : List ℕ} (hk : s.registry.KnownLive)
    (hb : d.bev ∈ (s.workThread d.workThread).bevId)
    (hf : ((s.workThread d.workThread).subMap.lookup d.id).map Subscriber.bev ≠ some d.bev) :
    Careful E x s (s.registerLogin R env d js) := by
  have hm : d.bev ∈ (s.kick d.workThread d.id).heap := by
    obtain ⟨conn, hl⟩ := hk d.workThread d.bev hb
    have hkl := hk.live_kick_eq (w := d.workThread) (x := d.id) (j := d.workThread) hb
      fun h => hf h.2
    rw [← registry_kick] at hkl
    exact mem_heap_of_client (hkl.trans hl)
  have hbind : ∀ u : Server, Careful E x u (u.bindLogin env d) := fun u =>
    ((careful_emit (Or.inl (by rfl))).trans (careful_modify _ _)).trans careful_redisAsyncCommand
  refine (((careful_kick hk).trans (careful_foldl (careful_notifyDelId env d.id) js _)).trans
    (hbind _)).trans (careful_replyLogin R (Or.inl ?_))
  · change d.bev ∈ (js.foldl (notifyDelId env d.id) (s.kick d.workThread d.id)).heap
    rwa [heap_foldl_notifyDelId]

theorem careful_httpLoginEvent {flags : Flags} (hh : h ∈ s.heap)
    (hd : (flags.eof || flags.error) = true → d.id.toNat ∈ (s.workThread d.workThread).bevId →
      d.bev ∈ s.heap ∨ E (.useAfterFree d.bev)) :
    Careful E (some h) s (s.httpLoginEvent R env h d flags) := by
  simp only [httpLoginEvent]
  split_ifs with hf hi
  · refine ((careful_replyLogin R (hd hf hi)).trans careful_deleteLogin).trans
      (careful_bufferEventFree (Or.inl ?_) (Or.inr rfl))
    exact mem_heap_addOutput hh
  · exact careful_deleteLogin.trans (careful_bufferEventFree (Or.inl hh) (Or.inr rfl))
  · split
    · exact Careful.trans careful_setAnalyseReq (careful_insert (Or.inr rfl))
    · rename_i hn
      exact absurd hh (Finmap.lookup_eq_none.mp hn)
  · exact (Careful.trans careful_setAnalyseReq
      (careful_bufferEventFree (Or.inl hh) (Or.inr rfl))).trans careful_deleteLogin
  · exact Careful.refl s

/-- What happens to a new bufferevent alone does not count. -/
theorem Careful.of_new (hc : Careful E (some h) s t) (hn : h ∉ s.heap) : Careful E x s t where
  log := hc.log
  check a o _ ho := by
    apply hc.check a o _ ho
    rintro ⟨⟩
    simp [checkAt, Finmap.lookup_eq_none.mpr hn] at ho

theorem careful_httpLoginCheck (hb : d.bev ∈ s.heap)
    (hE : env.connect = .failed → ∀ b, b ∉ s.heap → E (.freed b false)) :
    Careful E x s (s.httpLoginCheck R env d) := by
  have hn := env.alloc.fresh s.heap
  have hi : Careful E (some (env.alloc.next s.heap)) s (s.setHeap
      (s.heap.insert (env.alloc.next s.heap) { owner := .httpLogin d false })) :=
    careful_insert (Or.inr rfl)
  refine Careful.of_new ?_ hn
  simp only [httpLoginCheck]
  split
  case h_1 => exact hi
  case h_2 hc =>
    refine ((hi.trans (careful_httpLoginEvent R ?_ fun _ _ => Or.inl ?_)).trans
      (careful_bufferEventFree (Or.inr (hE hc _ hn)) (Or.inr rfl))).trans careful_deleteLogin
    · exact Finmap.mem_insert.mpr (Or.inl rfl)
    · exact Finmap.mem_insert.mpr (Or.inr hb)
  case h_3 =>
    refine (hi.trans (careful_bufferEventFree (Or.inl ?_) (Or.inr rfl))).trans careful_deleteLogin
    exact Finmap.mem_insert.mpr (Or.inl rfl)

theorem careful_redisLoginCallback {reply : Option RedisReply} (hk : s.registry.KnownLive)
    (hE : env.connect = .failed → ∀ b, b ∉ s.heap → E (.freed b false)) :
    Careful E x s (s.redisLoginCallback R env d reply) := by
  have hlive : d.bev ∈ (s.workThread d.workThread).bevId → d.bev ∈ s.heap := by
    intro hb
    obtain ⟨conn, hl⟩ := hk d.workThread d.bev hb
    exact mem_heap_of_client hl
  have ht := redisLoginCallback_outcome R env s d reply
  generalize s.redisLoginCallback R env d reply = t at ht ⊢
  cases ht with
  | gone | repeated => exact careful_deleteLogin
  | asked hb => exact careful_httpLoginCheck R (hlive hb) hE
  | refused hb => exact (careful_replyLogin R (Or.inl (hlive hb))).trans careful_deleteLogin
  | accepted ha => exact (careful_registerLogin R hk ha.1 ha.2.2).trans careful_deleteLogin

/-- A check stays in the heap while its login is registered. -/
theorem mem_heap_registerLogin {js : List ℕ} {o : Owner} (hk : s.registry.KnownLive)
    (ho : s.checkAt h = some o) : h ∈ (s.registerLogin R env d js).heap := by
  have hkick : Careful (fun _ => False) none s (s.kick d.workThread d.id) := careful_kick hk
  have hc := hkick.check h o (by simp) ho
  apply mem_heap_addOutput
  change h ∈ (js.foldl (notifyDelId env d.id) (s.kick d.workThread d.id)).heap
  rw [heap_foldl_notifyDelId]
  obtain ⟨be, hb, -⟩ := Option.bind_eq_some_iff.mp hc
  exact Table.mem_of_lookup hb

theorem careful_httpLoginRead {data : Bytes} {o : Owner} (hk : s.registry.KnownLive)
    (ho : s.checkAt h = some o)
    (hf : d.bev ∈ (s.workThread d.workThread).bevId →
      (analyseLoginData R (s.workThread d.workThread).analyseReq data).1 = true →
        ((s.workThread d.workThread).subMap.lookup d.id).map Subscriber.bev ≠ some d.bev) :
    Careful E (some h) s (s.httpLoginRead R env h d data) := by
  have hh : h ∈ s.heap := by
    obtain ⟨be, hb, -⟩ := Option.bind_eq_some_iff.mp ho
    exact Table.mem_of_lookup hb
  have ht := httpLoginRead_verdict R env s h d data
  generalize s.httpLoginRead R env h d data = t at ht ⊢
  cases ht with
  | gone => exact (careful_bufferEventFree (Or.inl hh) (Or.inr rfl)).trans careful_deleteLogin
  | accepted hb ha a =>
    have hka : (s.setAnalyseReq d.workThread a).registry.KnownLive := by
      rwa [registry_setAnalyseReq]
    have hbid := bevId_of_registry_eq (registry_setAnalyseReq s d.workThread a) (w := d.workThread)
    have hbev :=
      bev_of_registry_eq (registry_setAnalyseReq s d.workThread a) (w := d.workThread) d.id
    refine ((careful_setAnalyseReq.trans (careful_registerLogin R hka ?_ ?_)).trans
      (careful_bufferEventFree (Or.inl (mem_heap_registerLogin R hka ho)) (Or.inr rfl))).trans
        careful_deleteLogin
    · rwa [hbid]
    · rw [hbev]
      exact hf hb ha
  | refused hb hn a =>
    obtain ⟨conn, hl⟩ := hk d.workThread d.bev hb
    refine ((careful_setAnalyseReq.trans
      (careful_replyLogin R (Or.inl (mem_heap_of_client (b := d.bev) hl)))).trans
        (careful_bufferEventFree (Or.inl ?_) (Or.inr rfl))).trans careful_deleteLogin
    exact mem_heap_addOutput hh

theorem careful_redisOnlineNotify {info : OnlineInfo} {reply : Option RedisReply}
    (hk : s.registry.KnownLive) (ht : s.redisOnlineNotify R env info reply = some t) :
    Careful E x s t := by
  simp only [redisOnlineNotify] at ht
  split_ifs at ht with hb
  · obtain ⟨strs, -, rfl⟩ := Option.map_eq_some_iff.mp ht
    have hr := registry_foldl_onlineFriend env info.id (presenceFrame R env info.id 1) strs (s, [])
    obtain ⟨conn, hl⟩ := hk info.workThread info.bev hb.2
    refine ((careful_foldl_onlineFriend env _ _ strs (s, [])).trans
      (careful_emit (Or.inl (by rfl)))).trans (careful_addOutput (Or.inl ?_))
    exact mem_heap_of_client ((client_eq_of_registry_eq hr info.bev).trans hl)
  · obtain rfl := Option.some.inj ht
    exact Careful.refl s

theorem careful_redisOfflineNotify {info : OfflineInfo} {reply : Option RedisReply}
    (ht : s.redisOfflineNotify R env info reply = some t) : Careful E x s t := by
  obtain ⟨strs, -, rfl⟩ := Option.map_eq_some_iff.mp ht
  exact careful_foldl (careful_offlineFriend env _ _) strs s

theorem careful_httpTransEvent {r : Relay} {flags : Flags} (hh : h ∈ s.heap) :
    Careful E (some h) s (s.httpTransEvent R env h r flags) := by
  simp only [httpTransEvent]
  split_ifs with hf hc
  · exact careful_deleteTrans.trans (careful_bufferEventFree (Or.inl hh) (Or.inr rfl))
  · split
    · exact (Careful.trans careful_setAnalyseReq (careful_emit (Or.inl rfl))).trans
        (careful_insert (Or.inr rfl))
    · rename_i hn
      exact absurd hh (Finmap.lookup_eq_none.mp hn)
  · exact (Careful.trans careful_setAnalyseReq
      (careful_bufferEventFree (Or.inl hh) (Or.inr rfl))).trans careful_deleteTrans
  · exact Careful.refl s

theorem careful_httpTransCheck {r : Relay}
    (hE : env.connect = .failed → ∀ b, b ∉ s.heap → E (.freed b false)) :
    Careful E x s (s.httpTransCheck R env r) := by
  have hn := env.alloc.fresh s.heap
  have hi : Careful E (some (env.alloc.next s.heap)) s (s.setHeap
      (s.heap.insert (env.alloc.next s.heap) { owner := .httpTrans r false })) :=
    careful_insert (Or.inr rfl)
  refine Careful.of_new ?_ hn
  simp only [httpTransCheck]
  split
  case h_1 => exact hi
  case h_2 hc =>
    refine ((hi.trans (careful_httpTransEvent R ?_)).trans
      (careful_bufferEventFree (Or.inr (hE hc _ hn)) (Or.inr rfl))).trans careful_deleteTrans
    exact Finmap.mem_insert.mpr (Or.inl rfl)
  case h_3 =>
    refine (hi.trans (careful_bufferEventFree (Or.inl ?_) (Or.inr rfl))).trans careful_deleteTrans
    exact Finmap.mem_insert.mpr (Or.inl rfl)

theorem heap_transmit (env : Env) (s : Server) (r : TransData) :
    (s.transmit env r).heap = s.heap := by
  rw [transmit_eq]
  split <;> rfl

theorem careful_httpTransRead {r : Relay} {data : Bytes} (hh : h ∈ s.heap) :
    Careful E (some h) s (s.httpTransRead R env h r data) := by
  have hr : Careful E (some h) s (s.setAnalyseReq r.workThread
      (analyseRelationData R (s.workThread r.workThread).analyseReq data).2) :=
    careful_setAnalyseReq
  simp only [httpTransRead]
  split_ifs
  · refine ((hr.trans (careful_emit (Or.inl rfl))).trans careful_transmit).trans
      (careful_bufferEventFree (Or.inl ?_) (Or.inr rfl))
    rwa [heap_transmit]
  · exact ((hr.trans (careful_emit (Or.inl rfl))).trans careful_deleteTrans).trans
      (careful_bufferEventFree (Or.inl hh) (Or.inr rfl))

end Checks

section Reads

variable {conn : ℕ} {b : Addr} {id : UInt64}

theorem careful_startLogin {d : Option LoginData} : Careful E x s (startLogin w b conn s d) := by
  cases d with
  | none => exact Careful.refl s
  | some l =>
    exact (careful_nextSeq.trans careful_redisAsyncCommand).trans (careful_emit (Or.inl rfl))

theorem careful_refreshHeartbeat {isHeart : Bool} :
    Careful E x s (refreshHeartbeat env w b id s isHeart) := by
  unfold refreshHeartbeat
  split
  · split
    · exact (careful_modify w _).trans (careful_emit (Or.inl rfl))
    · exact Careful.refl s
  · exact Careful.refl s

theorem careful_startTrans {d : Option TransData} : Careful E x s (startTrans env w b id s d) := by
  cases d with
  | none => exact Careful.refl s
  | some l =>
    have hr : ∀ o : Obs, o.clean = true →
        Careful E x s ({ s with nextSeq := s.nextSeq + 1 }.emit o) := fun o ho =>
      careful_nextSeq.trans (careful_emit (Or.inl ho))
    simp only [startTrans]
    split_ifs
    · exact (hr _ rfl).trans careful_transmit
    · exact (hr _ rfl).trans careful_redisAsyncCommand
    · exact (hr _ rfl).trans careful_deleteTrans

theorem careful_handleRequest {r : Analysed} : Careful E x s (handleRequest env w b conn id s r) :=
  (careful_startLogin.trans careful_refreshHeartbeat).trans careful_startTrans

variable {σ : Type} (R : Runtime σ)

theorem careful_bufferEventReadCallback {be : BufferEvent} (hb : s.client b = some (w, conn))
    (ht : s.bufferEventReadCallback R env w conn b be = some t) : Careful E x s t := by
  obtain ⟨y, hy, rfl⟩ := Option.map_eq_some_iff.mp ht
  obtain ⟨hc, hr⟩ : Careful E x s y.1 ∧ y.1.registry = s.registry := by
    refine readLoop_invariant R (P := fun t => Careful E x s t ∧ t.registry = s.registry) ?_
      ⟨Careful.refl s, rfl⟩ hy
    rintro t input output r ⟨hc, hr⟩
    exact ⟨hc.trans careful_handleRequest, by rw [registry_handleRequest, hr]⟩
  refine Careful.trans ?_ careful_recordSent
  refine (hc.trans careful_setAnalyseReq).trans (careful_insert (Or.inl ?_))
  exact checkAt_of_client ((client_eq_of_registry_eq hr b).trans hb)

end Reads

end Callbacks

section Step

variable {σ : Type} (R : Runtime σ)

/-- The login request whose HTTP check an event reports as failed. -/
def failedLogin (s : Server) (ev : Event) : Option LoginData :=
  match ev with
  | .httpEvent _ flags => if flags.eof || flags.error then s.checkedLogin ev else none
  | _ => none

/-- No login is approved on the connection that already is the session of its id. -/
def FreshLogin (s : Server) (x : Env × Event) : Prop :=
  ∀ d ∈ s.approval R x.2,
    ((s.workThread d.workThread).subMap.lookup d.id).map Subscriber.bev ≠ some d.bev

/-- No login replaces the session of its own connection, and no failed HTTP check finds the id of
its request among the keys when the connection is gone. -/
def KeysKept (s : Server) (x : Env × Event) : Prop :=
  s.FreshLogin R x ∧ ∀ d ∈ s.failedLogin x.2,
    d.id.toNat ∈ (s.workThread d.workThread).bevId → d.bev ∈ (s.workThread d.workThread).bevId

instance (s : Server) (x : Env × Event) : Decidable (s.FreshLogin R x) :=
  inferInstanceAs (Decidable (∀ d ∈ s.approval R x.2, _))

instance (s : Server) (x : Env × Event) : Decidable (s.KeysKept R x) :=
  inferInstanceAs (Decidable ((∀ d ∈ s.approval R x.2, _) ∧ ∀ d ∈ s.failedLogin x.2, _))

variable {R} {E : Obs → Prop} {s t : Server} {x : Env × Event}

theorem FreshLogin.fresh {r : Registry UInt64 Addr} {l : Label UInt64 Addr} (h : s.FreshLogin R x)
    (hl : s.Allowed R x r l) : r.Fresh l := by
  cases l with
  | approve w b id told =>
    obtain ⟨rfl, ⟨d, hd, rfl, rfl, rfl⟩, -⟩ := hl
    exact h d hd
  | accept | leave | deliver => trivial

theorem knownLive_step (h : s.registry.KnownLive) (hf : s.FreshLogin R x)
    (ht : step R s x = some t) : t.registry.KnownLive :=
  (step_moves R ht).invariant (fun _ _ hr he hl => hr.apply he (hf.fresh hl)) h

theorem careful_redisCallback {env : Env} {w i : ℕ} {reply : Option RedisReply} {cmd : RedisCommand}
    (hk : s.registry.KnownLive)
    (hE : env.connect = .failed → ∀ b, b ∉ s.heap → E (.freed b false))
    (ht : redisCallback R env (s.takeCommand w i cmd reply) reply cmd.callback = some t) :
    Careful E none s t := by
  have hku : (s.takeCommand w i cmd reply).registry.KnownLive := by rwa [registry_takeCommand]
  have hu : Careful E none s (s.takeCommand w i cmd reply) :=
    (careful_modify w _).trans (careful_emit (Or.inl rfl))
  apply hu.trans
  cases hcb : cmd.callback with
  | login d =>
    rw [hcb] at ht
    obtain rfl := Option.some.inj ht
    exact careful_redisLoginCallback R hku hE
  | trans d =>
    rw [hcb] at ht
    obtain ⟨r, -, rfl⟩ := Option.map_eq_some_iff.mp ht
    split_ifs
    · exact careful_httpTransCheck R hE
    · exact careful_transmit
  | online info =>
    rw [hcb] at ht
    exact careful_redisOnlineNotify R hku ht
  | offline info =>
    rw [hcb] at ht
    exact careful_redisOfflineNotify R ht

theorem careful_notifyNewConn {y : Option Addr} (env : Env) (fd : ℤ) (s : Server) (j : ℕ) :
    Careful E y s (notifyNewConn env fd s j) := by
  simp only [notifyNewConn]
  split_ifs <;> exact careful_of_eq rfl rfl

/-- One callback, from a state in which the keys are live. -/
theorem careful_step (hk : s.registry.KnownLive) (hf : s.FreshLogin R x)
    (hfree : ∀ w i reply, x.2 = .redisReply w i reply → x.1.connect = .failed →
      ∀ b, b ∉ s.heap → E (.freed b false))
    (huse : ∀ w, x.2 = .newMsg w → ∀ b, E (.useAfterFree b))
    (hstray : ∀ d ∈ s.failedLogin x.2, d.id.toNat ∈ (s.workThread d.workThread).bevId →
      d.bev ∈ s.heap ∨ E (.useAfterFree d.bev))
    (ht : step R s x = some t) : Careful E x.2.check s t := by
  obtain ⟨env, ev⟩ := x
  rcases step_cases R ht with hq | ha
  · cases hq with
    | acceptConn fd =>
      unfold acceptCallback
      split_ifs
      · exact careful_notifyNewConn env fd s _
      · exact Careful.refl s
      · exact Careful.refl s
    | timer => exact careful_foldl (careful_notifyNewConn env (-2)) _ s
    | stop w => exact careful_notifyNewConn env (-1) s w
    | newConn w => exact careful_newConnLoop _ 0 hk
    | newMsg w => exact careful_newMsgLoop _ hk (huse w rfl)
    | clientEvent flags hb => exact careful_bufferEventEventCallback (client_of_lookup hb)
  cases ha with
  | clientRead hb ht => exact careful_bufferEventReadCallback R (client_of_lookup hb) ht
  | @redisReply w i reply cmd _ hc ht => exact careful_redisCallback hk (hfree w i reply rfl) ht
  | loginRead d hb =>
    refine careful_httpLoginRead R hk (o := .httpLogin d true)
      (by simp [checkAt, hb, Owner.connection]) ?_
    intro hm hr
    apply hf d
    simp only [approval, hb]
    exact if_pos ⟨hm, hr⟩
  | transRead d hb => exact careful_httpTransRead R (Table.mem_of_lookup hb)
  | loginEvent d sent hb =>
    refine careful_httpLoginEvent R (Table.mem_of_lookup hb) fun hfl => hstray d ?_
    simp [failedLogin, hfl, checkedLogin, hb, Owner.loginData]
  | transEvent d sent hb => exact careful_httpTransEvent R (Table.mem_of_lookup hb)

/-- An entry about a bufferevent that was alive, or about one that no table knows: a check that
could not be started is freed twice, and a record is forwarded without a look at `_bev_id`. -/
def Justified (s : Server) (x : Env × Event) : Obs → Prop
  | .freed b live => live = true ∨ b ∉ s.heap ∧ ∃ w i reply, x.2 = .redisReply w i reply
  | .useAfterFree _ => ∃ w, x.2 = .newMsg w
  | _ => True

/-- In runs where every step meets the condition, the keys of `_bev_id` are exactly the live client
connections of the worker, and what an event frees or writes to is alive, unless the event did not
look it up in the table. -/
theorem keys_are_live (h : Reached R (KeysKept R) s) :
    (∀ w b, b ∈ (s.workThread w).bevId ↔ ∃ conn, s.client b = some (w, conn)) ∧
      ∀ x t, s.KeysKept R x → step R s x = some t →
        ∀ o ∈ t.log.drop s.log.length, s.Justified x o := by
  have hk : s.registry.KnownLive := h.registry_invariant Registry.knownLive_start
    fun s x r hok hi hm => hm.invariant (fun _ _ hr he hl => hr.apply he (hok.1.fresh hl)) hi
  have hl : s.registry.LiveKnown :=
    h.registry_invariant (by simp [Registry.LiveKnown, Registry.start])
    fun s x r _ hi hm => hm.invariant (fun r l hr _ _ => hr.apply l) hi
  refine ⟨fun w b => ⟨hk w b, ?_⟩, ?_⟩
  · rintro ⟨conn, hc⟩
    exact hl w b conn hc
  intro x t hok ht o ho
  have hc : Careful (s.Justified x) x.2.check s t := by
    refine careful_step hk hok.1 ?_ ?_ ?_ ht
    · intro w i reply hx _ b hb
      exact Or.inr ⟨hb, w, i, reply, hx⟩
    · intro w hx b
      exact ⟨w, hx⟩
    · intro d hd hid
      obtain ⟨conn, hc⟩ := hk d.workThread d.bev (hok.2 d hd hid)
      exact Or.inl (mem_heap_of_client hc)
  obtain ⟨added, hlog, hadd⟩ := hc.log
  rw [hlog, List.drop_left] at ho
  rcases hadd o ho with hclean | hj
  · cases o <;> simp_all [Justified, Obs.clean]
  · exact hj

/-- A connection whose session is taken over is no key any more. -/
theorem takeover_keys_live :
    ∃ s, Reached Wire.runtime (KeysKept Wire.runtime) s ∧ Obs.freed 1 true ∈ s.log ∧
      ∀ b, b ∈ (s.workThread 0).bevId ↔ ∃ conn, s.client b = some (0, conn) := by
  obtain ⟨s, hs, hp⟩ := exists_reached Wire.runtime 1 takeover (KeysKept Wire.runtime)
    (fun s => Obs.freed 1 true ∈ s.log) (by decide +kernel) (by decide +kernel)
  exact ⟨s, hs, hp, (keys_are_live hs).1 0⟩

/-- A complete reply that accepts a check. -/
def grantReply : Bytes := truncatedReply ++ [0x08, 0x00, 0x12, 0x01, 0x78]

/-- A connection that is logged in as 7 asks for 7 again; this time redis has no token, and the HTTP
service accepts. -/
def repeatedLogin : List (Env × Event) :=
  connect 0 1 ++ login 0 1 7 ++
    [(plainEnv 1, .clientRead 1 (loginFrame 7)),
      (plainEnv 2, .redisReply 0 0 (some { type := .nil })),
      (plainEnv 2, .httpEvent 2 { connected := true }), (plainEnv 2, .httpRead 2 grantReply)]

/-- The repeated login frees its own connection, enters it as a key and writes the reply to it. -/
theorem repeatedLogin_keeps_freed_key :
    ∃ s, Reached Wire.runtime (fun _ _ => True) s ∧ 1 ∈ (s.workThread 0).bevId ∧
      s.client 1 = none ∧ Obs.freed 1 true ∈ s.log ∧ Obs.useAfterFree 1 ∈ s.log := by
  apply exists_reached Wire.runtime 1 repeatedLogin
  · exact .of_forall (by simp) _
  · decide +kernel

end Step

end Server

end EglComet
