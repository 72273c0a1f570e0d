import EglComet.WorkThread.Dispatch

/-!
The history of the bytes appended to the outputs of clients. Most operations
leave it alone; login replies, forwarded records and friend lists add one entry
for the connection that lives at the address they write to.
-/
namespace EglComet

open Protobuf

namespace Server

section Frame

@[simp] theorem sent_emit (s : Server) (o : Obs) : (s.emit o).sent = s.sent := rfl

@[simp] theorem sent_modify (s : Server) (w : ℕ) (f : WorkThread → WorkThread) :
    (s.modify w f).sent = s.sent := rfl

@[simp] theorem sent_setHeap (s : Server) (heap : Table Addr BufferEvent) :
    (s.setHeap heap).sent = s.sent := rfl

@[simp] theorem sent_bufferEventFree (s : Server) (b : Addr) :
    (s.bufferEventFree b).sent = s.sent :=
  rfl

@[simp] theorem sent_redisAsyncCommand (s : Server) (w : ℕ) (cmd : RedisCommand) :
    (s.redisAsyncCommand w cmd).sent = s.sent := rfl

@[simp] theorem sent_setAnalyseReq (s : Server) (w : ℕ) (a : AnalyseReq) :
    (s.setAnalyseReq w a).sent = s.sent := rfl

@[simp] theorem sent_deleteLogin (s : Server) (d : LoginData) :
    (s.deleteLogin d).sent = s.sent := rfl

@[simp] theorem sent_deleteTrans (s : Server) (d : TransData) :
    (s.deleteTrans d).sent = s.sent := rfl

@[simp] theorem sent_takeCommand (s : Server) (w i : ℕ) (cmd : RedisCommand)
    (reply : Option RedisReply) : (s.takeCommand w i cmd reply).sent = s.sent := rfl

@[simp] theorem sent_requestOffline (s : Server) (w : ℕ) (id : UInt64) :
    (s.requestOffline w id).sent = s.sent := by
  unfold requestOffline
  split <;> rfl

@[simp] theorem sent_kick (s : Server) (w : ℕ) (id : UInt64) : (s.kick w id).sent = s.sent := by
  simp only [kick]
  split
  · rfl
  · split <;> rfl

@[simp] theorem sent_bindLogin (env : Env) (s : Server) (d : LoginData) :
    (s.bindLogin env d).sent = s.sent := rfl

end Frame

section Pipes

@[simp] theorem sent_notifyNewMsg (env : Env) (s : Server) (j : ℕ) (d : TransData) :
    (notifyNewMsg env s j d).2.sent = s.sent := by
  simp only [notifyNewMsg]
  split_ifs <;> rfl

@[simp] theorem sent_notifyDelId (env : Env) (id : UInt64) (s : Server) (j : ℕ) :
    (notifyDelId env id s j).sent = s.sent := by
  simp only [notifyDelId]
  split_ifs <;> simp

@[simp] theorem sent_foldl_notifyDelId (env : Env) (id : UInt64) (js : List ℕ) (s : Server) :
    (js.foldl (notifyDelId env id) s).sent = s.sent := by
  induction js generalizing s with
  | nil => rfl
  | cons j js ih => rw [List.foldl_cons, ih, sent_notifyDelId]

@[simp] theorem sent_transmit (env : Env) (s : Server) (d : TransData) :
    (s.transmit env d).sent = s.sent := by
  rw [transmit_eq]
  split <;> rfl

@[simp] theorem heap_notifyNewMsg (env : Env) (s : Server) (j : ℕ) (d : TransData) :
    (notifyNewMsg env s j d).2.heap = s.heap := by
  simp only [notifyNewMsg]
  split_ifs <;> rfl

@[simp] theorem heap_notifyDelId (env : Env) (id : UInt64) (s : Server) (j : ℕ) :
    (notifyDelId env id s j).heap = s.heap := by
  simp only [notifyDelId]
  split_ifs
  · exact heap_notifyNewMsg env _ j _
  · exact heap_notifyNewMsg env _ j _
  · rfl

@[simp] theorem heap_foldl_notifyDelId (env : Env) (id : UInt64) (js : List ℕ) (s : Server) :
    (js.foldl (notifyDelId env id) s).heap = s.heap := by
  induction js generalizing s with
  | nil => rfl
  | cons j js ih => rw [List.foldl_cons, ih, heap_notifyDelId]

end Pipes

theorem heap_recordSent (s : Server) (o : Owner) (source : Source) (bs : Bytes) :
    (s.recordSent o source bs).heap = s.heap := by
  unfold recordSent
  split <;> rfl

/-- The entry of bytes appended at an address, for the connection that lives there. -/
def entryAt (s : Server) (b : Addr) (source : Source) (bs : Bytes) : List Sent :=
  ((s.occupant b).map fun conn => ⟨conn, source, bs⟩).toList

theorem sent_addOutput (s : Server) (b : Addr) (source : Source) (bs : Bytes) :
    (s.addOutput b source bs).sent = s.sent ++ s.entryAt b source bs := by
  unfold addOutput entryAt occupant
  cases hb : s.heap.lookup b with
  | none => simp [client, clientIn, hb]
  | some be =>
    rw [client_of_lookup hb]
    simp only [recordSent]
    cases be.owner.connection with
    | none => simp
    | some c => rfl

theorem entryAt_of_heap_eq {s t : Server} (h : t.heap = s.heap) (b : Addr) (source : Source)
    (bs : Bytes) : t.entryAt b source bs = s.entryAt b source bs := by
  simp only [entryAt, occupant, client, h]

theorem mem_entryAt {s : Server} {b : Addr} {source : Source} {bs : Bytes} {e : Sent} :
    e ∈ s.entryAt b source bs ↔ s.occupant b = some e.conn ∧ e.source = source ∧ e.bytes = bs := by
  obtain ⟨conn, src, bytes⟩ := e
  cases ho : s.occupant b with
  | none => simp [entryAt, ho]
  | some n =>
    simp only [entryAt, ho, Option.map_some, Option.toList_some, List.mem_singleton, Sent.mk.injEq,
      Option.some.injEq]
    tauto

theorem length_entryAt (s : Server) (b : Addr) (source : Source) (bs : Bytes) :
    (s.entryAt b source bs).length ≤ 1 := by
  cases h : s.occupant b <;> simp [entryAt, h]

/-- A forwarded record is one entry for the connection of its recipient. -/
theorem sent_handleMsg (w : ℕ) (s : Server) (d : TransData) :
    (handleMsg w s d).sent = s.sent ++
      match d.msgType, (s.workThread w).subMap.lookup d.toId with
      | .trans, some sub => s.entryAt sub.bev (.relay d) (d.data.take d.dataSize.toNat)
      | _, _ => [] := by
  cases hm : d.msgType with
  | trans =>
    cases hs : (s.workThread w).subMap.lookup d.toId with
    | none => simp [handleMsg, hm, hs]
    | some sub => simp [handleMsg, hm, hs, sent_addOutput]
  | delId =>
    cases hs : (s.workThread w).subMap.lookup d.toId with
    | none => simp [handleMsg, hm, hs]
    | some sub =>
      simp only [handleMsg, hm, hs]
      split_ifs <;> simp

section Logins

variable {σ : Type} (R : Runtime σ)

theorem sent_replyLogin (env : Env) (s : Server) (d : LoginData) (isSuccess : Bool)
    (msg : String) : ∃ bs, (s.replyLogin R env d isSuccess msg).sent =
      s.sent ++ s.entryAt d.bev (.loginRsp d isSuccess) bs := by
  simp only [replyLogin, sent_addOutput, sent_setAnalyseReq]
  exact ⟨_, rfl⟩

theorem sent_registerLogin (env : Env) (s : Server) (d : LoginData) (js : List ℕ) :
    ∃ bs, (s.registerLogin R env d js).sent =
      s.sent ++ (s.kick d.workThread d.id).entryAt d.bev (.loginRsp d true) bs := by
  obtain ⟨bs, hs⟩ := sent_replyLogin R env
    ((js.foldl (notifyDelId env d.id) (s.kick d.workThread d.id)).bindLogin env d) d true "200 ok"
  refine ⟨bs, ?_⟩
  rw [registerLogin, hs, sent_bindLogin, sent_foldl_notifyDelId, sent_kick]
  congr 1
  apply entryAt_of_heap_eq
  exact heap_foldl_notifyDelId env d.id js _

/-- A failed HTTP check is answered only if the id happens to be a key of `_bev_id`. -/
theorem sent_httpLoginEvent (env : Env) (s : Server) (h : Addr) (d : LoginData) (flags : Flags) :
    ∃ bs, (s.httpLoginEvent R env h d flags).sent = s.sent ++
      if (flags.eof || flags.error) = true ∧ d.id.toNat ∈ (s.workThread d.workThread).bevId then
        s.entryAt d.bev (.loginRsp d false) bs
      else [] := by
  obtain ⟨bs, hs⟩ := sent_replyLogin R env s d false "http server error"
  refine ⟨bs, ?_⟩
  simp only [httpLoginEvent]
  by_cases hf : (flags.eof || flags.error) = true
  · by_cases hi : d.id.toNat ∈ (s.workThread d.workThread).bevId
    · rw [if_pos hf, if_pos hi, if_pos ⟨hf, hi⟩]
      exact hs
    · rw [if_pos hf, if_neg hi, if_neg fun hc => hi hc.2, List.append_nil]
      rfl
  · have hn : ¬ ((flags.eof || flags.error) = true ∧
        d.id.toNat ∈ (s.workThread d.workThread).bevId) := fun hc => hf hc.1
    rw [if_neg hf, if_neg hn, List.append_nil]
    split_ifs
    · split <;> rfl
    · rfl
    · rfl

end Logins

end Server

end EglComet
