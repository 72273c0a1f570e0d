import EglComet.WorkThread.Step
import EglComet.Registry.Invariants

/-!
The server refines the registry. Each state of the server has a registry in it;
most operations leave it alone, and every callback is a sequence of moves of the
registry.
-/
namespace EglComet

open Protobuf

def WorkThread.directory (t : WorkThread) : Directory UInt64 Addr where
  holder id := (t.subMap.lookup id).map Subscriber.bev
  names := t.bevId

/-- The delete-id messages in the pipe. -/
def WorkThread.dels (t : WorkThread) : List UInt64 :=
  (t.newMsgFd.filter fun d => d.msgType = .delId).map TransData.toId

def Obs.note : Obs → Option (Note UInt64 Addr)
  | .accepted w b conn => some (.accepted w b conn)
  | .registered w b id _ conn => some (.registered w b id conn)
  | .closed _ _ conn => some (.ended conn)
  | .expired _ _ conn _ => some (.ended conn)
  | .eraseEnd w id => some (.eraseEnd w id)
  | _ => none

namespace Server

def registry (s : Server) : Registry UInt64 Addr where
  num := s.workThreadNum
  dir w := (s.workThread w).directory
  count w := (s.workThread w).connNum
  dels w := (s.workThread w).dels
  live := clientIn s.heap
  log := s.log.filterMap Obs.note

variable {s : Server} {w : ℕ}

section Reading

variable {t : Server}

theorem client_eq_of_registry_eq (h : t.registry = s.registry) (b : Addr) :
    t.client b = s.client b :=
  congrFun (congrArg Registry.live h) b

theorem bevId_of_registry_eq (h : t.registry = s.registry) :
    (t.workThread w).bevId = (s.workThread w).bevId :=
  congrArg Directory.names (congrFun (congrArg Registry.dir h) w)

theorem bev_of_registry_eq (h : t.registry = s.registry) (id : UInt64) :
    ((t.workThread w).subMap.lookup id).map Subscriber.bev =
      ((s.workThread w).subMap.lookup id).map Subscriber.bev :=
  congrFun (congrArg Directory.holder (congrFun (congrArg Registry.dir h) w)) id

theorem mem_subMap_of_registry_eq (h : t.registry = s.registry) {id : UInt64} :
    id ∈ (t.workThread w).subMap ↔ id ∈ (s.workThread w).subMap := by
  rw [← Finmap.lookup_isSome, ← Finmap.lookup_isSome, ← Option.isSome_map (f := Subscriber.bev),
    bev_of_registry_eq h, Option.isSome_map]

theorem client_of_lookup {b : Addr} {be : BufferEvent} (hb : s.heap.lookup b = some be) :
    s.client b = be.owner.connection := by
  simp [client, clientIn, hb]

end Reading

section Frame

theorem registry_emit (s : Server) (o : Obs) :
    (s.emit o).registry = { s.registry with log := s.registry.log ++ o.note.toList } := by
  simp only [registry, emit, List.filterMap_append]
  cases ho : o.note <;> simp [ho]

theorem registry_emit_of_none {o : Obs} (h : o.note = none) : (s.emit o).registry = s.registry := by
  simp [registry_emit, h]

theorem registry_modify (s : Server) (w : ℕ) (f : WorkThread → WorkThread) :
    (s.modify w f).registry =
      { s.registry with
        dir := Function.update s.registry.dir w (f (s.workThread w)).directory
        count := Function.update s.registry.count w (f (s.workThread w)).connNum
        dels := Function.update s.registry.dels w (f (s.workThread w)).dels } := by
  simp only [registry, modify, Registry.mk.injEq, and_true, true_and]
  refine ⟨?_, ?_, ?_⟩ <;>
  · funext j
    by_cases hj : j = w
    · subst hj
      simp
    · simp [hj]

section Modify

variable {f : WorkThread → WorkThread} {g : Directory UInt64 Addr → Directory UInt64 Addr}

/-- A change of a worker that keeps its deletions. -/
theorem registry_modify_of_dels (hd : (f (s.workThread w)).directory = g (s.registry.dir w))
    (hq : (f (s.workThread w)).dels = (s.workThread w).dels) :
    (s.modify w f).registry =
      { s.registry.onDir w g with
        count := Function.update s.registry.count w (f (s.workThread w)).connNum } := by
  rw [registry_modify, hd, hq]
  simp only [registry, Registry.onDir, Function.update_eq_self]

/-- A change of a worker that keeps its counter and its deletions. -/
theorem registry_modify_onDir (hd : (f (s.workThread w)).directory = g (s.registry.dir w))
    (hc : (f (s.workThread w)).connNum = (s.workThread w).connNum)
    (hq : (f (s.workThread w)).dels = (s.workThread w).dels) :
    (s.modify w f).registry = s.registry.onDir w g := by
  rw [registry_modify_of_dels hd hq, hc]
  simp only [registry, Registry.onDir, Function.update_eq_self]

/-- A change of a worker that keeps its tables, its counter and its deletions is not seen. -/
theorem registry_modify_of_eq
    (hd : (f (s.workThread w)).directory = (s.workThread w).directory)
    (hc : (f (s.workThread w)).connNum = (s.workThread w).connNum)
    (hq : (f (s.workThread w)).dels = (s.workThread w).dels) :
    (s.modify w f).registry = s.registry := by
  rw [registry_modify_onDir (g := id) hd hc hq]
  simp only [registry, Registry.onDir, id, Function.update_eq_self]

end Modify

theorem registry_setHeap {heap : Table Addr BufferEvent}
    (h : ∀ b, (s.setHeap heap).client b = s.client b) :
    (s.setHeap heap).registry = s.registry := by
  have hl : clientIn heap = clientIn s.heap := funext h
  simp only [registry, setHeap, hl]

theorem client_setHeap_insert (s : Server) (b c : Addr) (be : BufferEvent) :
    (s.setHeap (s.heap.insert b be)).client c =
      if c = b then be.owner.connection else s.client c := by
  simp only [client, clientIn, setHeap, Table.lookup_insert_eq]
  split_ifs <;> rfl

theorem registry_setHeap_insert {b : Addr} {be : BufferEvent}
    (h : be.owner.connection = s.client b) :
    (s.setHeap (s.heap.insert b be)).registry = s.registry := by
  apply registry_setHeap
  intro c
  rw [client_setHeap_insert]
  split_ifs with hc
  · rw [h, hc]
  · rfl

@[simp] theorem registry_redisAsyncCommand (s : Server) (w : ℕ) (cmd : RedisCommand) :
    (s.redisAsyncCommand w cmd).registry = s.registry :=
  registry_modify_of_eq rfl rfl rfl

@[simp] theorem registry_setAnalyseReq (s : Server) (w : ℕ) (a : AnalyseReq) :
    (s.setAnalyseReq w a).registry = s.registry :=
  registry_modify_of_eq rfl rfl rfl

@[simp] theorem registry_deleteLogin (s : Server) (d : LoginData) :
    (s.deleteLogin d).registry = s.registry :=
  registry_emit_of_none rfl

@[simp] theorem registry_deleteTrans (s : Server) (d : TransData) :
    (s.deleteTrans d).registry = s.registry :=
  registry_emit_of_none rfl

@[simp] theorem registry_recordSent (s : Server) (o : Owner) (source : Source) (bs : Bytes) :
    (s.recordSent o source bs).registry = s.registry := by
  unfold recordSent
  split <;> rfl

@[simp] theorem registry_addOutput (s : Server) (b : Addr) (source : Source) (bs : Bytes) :
    (s.addOutput b source bs).registry = s.registry := by
  unfold addOutput
  cases hb : s.heap.lookup b with
  | none => exact registry_emit_of_none rfl
  | some be =>
    rw [registry_recordSent]
    exact registry_setHeap_insert (client_of_lookup hb).symm

@[simp] theorem registry_requestOffline (s : Server) (w : ℕ) (id : UInt64) :
    (s.requestOffline w id).registry = s.registry := by
  unfold requestOffline
  split <;> simp

theorem registry_bufferEventFree (s : Server) (b : Addr) :
    (s.bufferEventFree b).registry =
      { s.registry with live := Function.update s.registry.live b none } := by
  have hl : clientIn (s.heap.erase b) = Function.update (clientIn s.heap) b none := by
    funext c
    simp only [clientIn, Table.lookup_erase_eq, Function.update_apply]
    split_ifs <;> rfl
  simp [registry, bufferEventFree, setHeap, emit, hl, Obs.note]

/-- Freeing the bufferevent of an HTTP check is not seen. -/
theorem registry_bufferEventFree_of_none {b : Addr} (h : s.client b = none) :
    (s.bufferEventFree b).registry = s.registry := by
  have hl : Function.update (clientIn s.heap) b none = clientIn s.heap := by
    rw [← h]
    exact Function.update_eq_self _ _
  rw [registry_bufferEventFree]
  change { s.registry with live := Function.update (clientIn s.heap) b none } = s.registry
  rw [hl]
  rfl

end Frame

section Notices

theorem registry_notifyNewMsg (env : Env) (s : Server) (j : ℕ) (d : TransData) :
    (notifyNewMsg env s j d).2.registry =
      if d.toId ∈ (s.workThread j).subMap ∧ env.write s.writes = .full ∧ d.msgType = .delId then
        s.registry.push d.toId j
      else s.registry := by
  unfold notifyNewMsg
  by_cases hd : d.toId ∈ (s.workThread j).subMap
  · simp only [hd, ↓reduceIte, writeRetry_eq, true_and]
    cases hw : env.write s.writes with
    | full =>
      simp only [WriteResult.value, ↓reduceIte, true_and]
      rw [registry_emit_of_none rfl, registry_modify]
      cases hm : d.msgType with
      | trans => simp [registry, WorkThread.directory, WorkThread.dels, hm]
      | delId =>
        simp [registry, WorkThread.directory, WorkThread.dels, hm, Registry.push]
    | again => rfl
    | error => rfl
  · simp [hd]

theorem registry_notifyNewMsg_trans {env : Env} {j : ℕ} {d : TransData} (h : d.msgType = .trans) :
    (notifyNewMsg env s j d).2.registry = s.registry := by
  simp [registry_notifyNewMsg, h]

theorem registry_offer {env : Env} {d : TransData} (h : d.msgType = .trans) (js : List ℕ)
    (s : Server) : (offer env d js s).2.registry = s.registry := by
  induction js generalizing s with
  | nil => rfl
  | cons j js ih =>
    simp only [offer]
    split_ifs
    · exact registry_notifyNewMsg_trans h
    · rw [ih, registry_notifyNewMsg_trans h]

theorem registry_transmit {env : Env} {d : TransData} (h : d.msgType = .trans) :
    (s.transmit env d).registry = s.registry := by
  simp only [transmit]
  rw [apply_ite registry, registry_deleteTrans, ite_self]
  exact registry_offer h _ s

theorem registry_notifyDelId (env : Env) (id : UInt64) (s : Server) (j : ℕ) :
    (notifyDelId env id s j).registry =
      if id ∈ (s.workThread j).subMap ∧ env.write s.writes = .full then s.registry.push id j
      else s.registry := by
  unfold notifyDelId
  by_cases hd : id ∈ (s.workThread j).subMap
  · have hr := registry_notifyNewMsg env { s with nextSeq := s.nextSeq + 1 } j
      { toId := id, msgType := .delId, seq := s.nextSeq, origin := .server }
    simp only [hd, ↓reduceIte, true_and, and_true] at hr ⊢
    rw [apply_ite registry, registry_deleteTrans, ite_self, hr]
    rfl
  · simp [hd]

theorem holder_ne_none {s : Server} {j : ℕ} {id : UInt64} :
    (s.registry.dir j).holder id ≠ none ↔ id ∈ (s.workThread j).subMap := by
  simp [registry, WorkThread.directory, Finmap.lookup_eq_none]

/-- The workers that took the message are told; a full pipe is the only way to miss it. -/
theorem registry_foldl_notifyDelId (env : Env) (id : UInt64) (js : List ℕ) (s : Server) :
    ∃ told, (js.foldl (notifyDelId env id) s).registry = s.registry.tell id told ∧
      (∀ j ∈ told, (s.registry.dir j).holder id ≠ none) ∧
      ((∀ n, env.write n = .full) → ∀ j ∈ js, (s.registry.dir j).holder id ≠ none → j ∈ told) := by
  induction js generalizing s with
  | nil => exact ⟨[], rfl, by simp, by simp⟩
  | cons j js ih =>
    obtain ⟨told, hr, ht, hf⟩ := ih (notifyDelId env id s j)
    have hj := registry_notifyDelId env id s j
    split_ifs at hj with hd
    · rw [hj] at hr ht hf
      refine ⟨j :: told, hr, ?_, ?_⟩
      · intro i hi
        rcases List.mem_cons.mp hi with rfl | hi
        · exact holder_ne_none.mpr hd.1
        · exact ht i hi
      · intro hw i hi hh
        rcases List.mem_cons.mp hi with rfl | hi
        · exact List.mem_cons_self
        · exact List.mem_cons_of_mem _ (hf hw i hi hh)
    · rw [hj] at hr ht hf
      refine ⟨told, hr, ht, fun hw i hi hh => ?_⟩
      rcases List.mem_cons.mp hi with rfl | hi
      · exact absurd ⟨holder_ne_none.mp hh, hw _⟩ hd
      · exact hf hw i hi hh

theorem registry_notifyFriend {env : Env} {id toId : UInt64} {frame : Bytes}
    {x : TransData × Bool × Server} (h : notifyFriend env id frame s toId = some x) :
    x.2.2.registry = s.registry := by
  obtain ⟨j, -, rfl⟩ := Option.map_eq_some_iff.mp h
  exact registry_notifyNewMsg_trans rfl

theorem registry_foldl_onlineFriend (env : Env) (id : UInt64) (frame : Bytes) (strs : List Bytes)
    (acc : Server × Bytes) :
    (strs.foldl (onlineFriend env id frame) acc).1.registry = acc.1.registry := by
  induction strs generalizing acc with
  | nil => rfl
  | cons str strs ih =>
    rw [List.foldl_cons, ih]
    unfold onlineFriend
    split
    · rename_i d sent t ht
      rw [← registry_notifyFriend ht]
      cases sent <;> simp
    · rfl

theorem registry_foldl_offlineFriend (env : Env) (id : UInt64) (frame : Bytes) (strs : List Bytes)
    (s : Server) : (strs.foldl (offlineFriend env id frame) s).registry = s.registry := by
  induction strs generalizing s with
  | nil => rfl
  | cons str strs ih =>
    rw [List.foldl_cons, ih]
    unfold offlineFriend
    split
    · rename_i ht
      exact registry_notifyFriend ht
    · rfl

end Notices

section Tables

theorem modify_modify (s : Server) (w : ℕ) (f g : WorkThread → WorkThread) :
    (s.modify w f).modify w g = s.modify w (g ∘ f) := by
  simp [modify]

theorem holder_erase (t : WorkThread) (id : UInt64) :
    (fun y => ((t.subMap.erase id).lookup y).map Subscriber.bev) =
      Function.update t.directory.holder id none := by
  funext y
  simp only [WorkThread.directory, Table.lookup_erase_eq, Function.update_apply]
  split_ifs <;> rfl

theorem directory_remove {t : WorkThread} {id : UInt64} {sub : Subscriber}
    (hs : t.subMap.lookup id = some sub) :
    { t with bevId := t.bevId.erase sub.bev, subMap := t.subMap.erase id }.directory =
      t.directory.remove id := by
  have hh : t.directory.holder id = some sub.bev := by simp [WorkThread.directory, hs]
  simp only [Directory.remove, hh, ← holder_erase]
  rfl

theorem directory_leave {t : WorkThread} {id : UInt64} {b : Addr}
    (hb : t.bevId.lookup b = some id) :
    { t with bevId := t.bevId.erase b, subMap := t.subMap.erase id }.directory =
      t.directory.leave b := by
  have hh : t.directory.names.lookup b = some id := hb
  simp only [Directory.leave, hh, ← holder_erase]
  rfl

theorem directory_bind (t : WorkThread) (id : UInt64) (sub : Subscriber) :
    { t with
      bevId := t.bevId.insert sub.bev id, subMap := Table.insertNew id sub t.subMap }.directory =
        t.directory.bind id sub.bev := by
  simp only [WorkThread.directory, Directory.bind, Directory.mk.injEq, and_true]
  funext y
  simp only [Table.lookup_insertNew, Function.update_apply]
  by_cases hy : y = id
  · subst hy
    cases hs : t.subMap.lookup y with
    | none => simp [Finmap.lookup_eq_none.mp hs]
    | some old => simp [Table.mem_of_lookup hs]
  · simp [hy]

theorem kick_of_lookup {id : UInt64} {sub : Subscriber}
    (hs : (s.workThread w).subMap.lookup id = some sub) :
    s.kick w id =
      (if sub.bev ∈ (s.workThread w).bevId then s.bufferEventFree sub.bev else s).modify w fun t =>
        { t with bevId := t.bevId.erase sub.bev, subMap := t.subMap.erase id } := by
  simp only [kick, hs]
  split_ifs with hk
  · rw [modify_modify]
    rfl
  · simp only [modify, Table.erase_of_notMem hk]

theorem registry_kick (s : Server) (w : ℕ) (id : UInt64) :
    (s.kick w id).registry = s.registry.kick w id := by
  cases hs : (s.workThread w).subMap.lookup id with
  | none =>
    have hh : (s.registry.dir w).holder id = none := by simp [registry, WorkThread.directory, hs]
    simp [kick, hs, Registry.kick, Directory.remove, hh]
  | some sub =>
    have hh : (s.registry.dir w).holder id = some sub.bev := by
      simp [registry, WorkThread.directory, hs]
    rw [kick_of_lookup hs, Registry.kick_of_holder hh]
    by_cases hk : sub.bev ∈ (s.workThread w).bevId
    · have hk' : sub.bev ∈ (s.registry.dir w).names := hk
      rw [if_pos hk, if_pos hk', registry_modify_onDir (directory_remove hs) rfl rfl,
        registry_bufferEventFree]
      rfl
    · have hk' : sub.bev ∉ (s.registry.dir w).names := hk
      rw [if_neg hk, if_neg hk', registry_modify_onDir (directory_remove hs) rfl rfl]
      rfl

theorem registry_bindLogin (env : Env) (s : Server) (d : LoginData) :
    (s.bindLogin env d).registry =
      { s.registry.onDir d.workThread (Directory.bind d.id d.bev) with
        log := s.registry.log ++
          [.registered d.workThread d.bev d.id (s.registry.connAt d.bev)] } := by
  have hd := directory_bind (s.workThread d.workThread) d.id
    (({} : Subscriber).setIdBev env.now d.id d.bev)
  simp only [Subscriber.setIdBev_bev] at hd
  simp only [bindLogin, registry_redisAsyncCommand]
  rw [registry_modify_onDir hd rfl rfl, registry_emit]
  rfl

section Parsing

variable {σ : Type} (R : Runtime σ)

@[simp] theorem registry_replyLogin (env : Env) (s : Server) (d : LoginData) (ok : Bool)
    (msg : String) : (s.replyLogin R env d ok msg).registry = s.registry := by
  simp [replyLogin]

/-- A successful login is an approval. -/
theorem registry_registerLogin (env : Env) (s : Server) (d : LoginData) (js : List ℕ) :
    ∃ told, (s.registerLogin R env d js).registry =
        s.registry.apply (.approve d.workThread d.bev d.id told) ∧
      (∀ j ∈ told, ((s.registry.kick d.workThread d.id).dir j).holder d.id ≠ none) ∧
      ((∀ n, env.write n = .full) → ∀ j ∈ js, j ≠ d.workThread →
        (s.registry.dir j).holder d.id ≠ none → j ∈ told) := by
  obtain ⟨told, hr, ht, hf⟩ := registry_foldl_notifyDelId env d.id js (s.kick d.workThread d.id)
  rw [registry_kick] at hr ht hf
  refine ⟨told, ?_, ht, fun hw j hj hne hh => hf hw j hj ?_⟩
  · rw [registerLogin, registry_replyLogin, registry_bindLogin, hr]
    rfl
  · rw [Registry.holder_kick, if_neg fun h => hne h.1]
    exact hh

end Parsing

end Tables

section Http

variable {σ : Type} (R : Runtime σ)

theorem client_alloc (env : Env) (s : Server) : s.client (env.alloc.next s.heap) = none := by
  simp [client, clientIn, Finmap.lookup_eq_none.mpr (env.alloc.fresh s.heap)]

/-- Placing the bufferevent of an HTTP check is not seen. -/
theorem registry_alloc (env : Env) (s : Server) (o : Owner) (ho : o.connection = none) :
    (s.setHeap (s.heap.insert (env.alloc.next s.heap) { owner := o })).registry = s.registry :=
  registry_setHeap_insert (ho.trans (client_alloc env s).symm)

theorem registry_free_of_eq {t : Server} {h : Addr} (ht : t.registry = s.registry)
    (hc : s.client h = none) : (t.bufferEventFree h).registry = s.registry := by
  rw [registry_bufferEventFree_of_none ((client_eq_of_registry_eq ht h).trans hc), ht]

theorem registry_httpLoginEvent {env : Env} {h : Addr} {d : LoginData} {flags : Flags}
    (hc : s.client h = none) : (s.httpLoginEvent R env h d flags).registry = s.registry := by
  simp only [httpLoginEvent]
  split_ifs
  · exact registry_free_of_eq (by simp) hc
  · exact registry_free_of_eq (by simp) hc
  · split
    · rw [registry_setHeap_insert, registry_setAnalyseReq]
      exact hc.symm
    · rw [registry_emit_of_none rfl, registry_setAnalyseReq]
  · rw [registry_deleteLogin]
    exact registry_free_of_eq (by simp) hc
  · rfl

theorem registry_httpTransEvent {env : Env} {h : Addr} {d : Relay} {flags : Flags}
    (hc : s.client h = none) : (s.httpTransEvent R env h d flags).registry = s.registry := by
  simp only [httpTransEvent]
  split_ifs
  · exact registry_free_of_eq (by simp) hc
  · split
    · refine (registry_setHeap_insert (s := emit _ _) ?_).trans ?_
      · exact hc.symm
      · rw [registry_emit_of_none rfl, registry_setAnalyseReq]
    · rw [registry_emit_of_none rfl, registry_setAnalyseReq]
  · rw [registry_deleteTrans]
    exact registry_free_of_eq (by simp) hc
  · rfl

theorem registry_httpLoginCheck (env : Env) (s : Server) (d : LoginData) :
    (s.httpLoginCheck R env d).registry = s.registry := by
  have hc := client_alloc env s
  have hi := registry_alloc env s (.httpLogin d false) rfl
  simp only [httpLoginCheck]
  split
  · exact hi
  · rw [registry_deleteLogin]
    apply registry_free_of_eq _ hc
    rw [registry_httpLoginEvent R ((client_eq_of_registry_eq hi _).trans hc), hi]
  · rw [registry_deleteLogin]
    exact registry_free_of_eq hi hc

theorem registry_httpTransCheck (env : Env) (s : Server) (d : Relay) :
    (s.httpTransCheck R env d).registry = s.registry := by
  have hc := client_alloc env s
  have hi := registry_alloc env s (.httpTrans d false) rfl
  simp only [httpTransCheck]
  split
  · exact hi
  · rw [registry_deleteTrans]
    apply registry_free_of_eq _ hc
    rw [registry_httpTransEvent R ((client_eq_of_registry_eq hi _).trans hc), hi]
  · rw [registry_deleteTrans]
    exact registry_free_of_eq hi hc

end Http

end Server

end EglComet
