import EglComet.WorkThread.Effects
import Mathlib.Logic.Relation

/-!
The callbacks as sequences of writes. Whatever else a callback changes, what
leaves it are commands to redis, records put into pipes and bytes appended to
the output of clients; this module says for every callback which of these it
can produce, and leaves the tables, the heap and the history aside.
-/
namespace EglComet

open Protobuf

/-- Something that leaves a callback. -/
inductive Signal where
  | command (c : RedisCommand)
  | record (d : TransData)
  | bytes (source : Source)

namespace Server

/-- One write: of a signal that satisfies `P`, or of something else. -/
inductive Write (P : Signal → Prop) (s : Server) : Server → Prop where
  | plain {t : Server} (hr : ∀ w, (t.workThread w).redis = (s.workThread w).redis)
      (hq : ∀ w, (t.workThread w).newMsgFd = (s.workThread w).newMsgFd) (hs : t.sent = s.sent)
      (hn : s.nextSeq ≤ t.nextSeq) : Write P s t
  | command (w : ℕ) (c : RedisCommand) (h : P (.command c)) : Write P s (s.redisAsyncCommand w c)
  | record (j : ℕ) (d : TransData) (h : P (.record d)) : Write P s (s.enqueue j d)
  | bytes (o : Owner) (source : Source) (bs : Bytes) (h : P (.bytes source)) :
      Write P s (s.recordSent o source bs)

def Writes (P : Signal → Prop) : Server → Server → Prop := Relation.ReflTransGen (Write P)

/-- Everything but what concerns the relays of clients is allowed. -/
structure Permissive (P : Signal → Prop) : Prop where
  token : ∀ d, P (.command (tokenCommand d))
  online : ∀ id info, P (.command (friendsCommand id (.online info)))
  offline : ∀ id info, P (.command (friendsCommand id (.offline info)))
  notice : ∀ d : TransData, d.origin = .server → P (.record d)
  reply : ∀ d isSuccess, P (.bytes (.loginRsp d isSuccess))
  list : ∀ info, P (.bytes (.friends info))

section Primitives

variable {P : Signal → Prop} {s t u : Server} {w : ℕ}

theorem Writes.refl (s : Server) : Writes P s s := Relation.ReflTransGen.refl

theorem Writes.trans (h : Writes P s t) (h' : Writes P t u) : Writes P s u :=
  Relation.ReflTransGen.trans h h'

theorem Write.writes (h : Write P s t) : Writes P s t := Relation.ReflTransGen.single h

theorem writes_of_eq (hr : ∀ w, (t.workThread w).redis = (s.workThread w).redis)
    (hq : ∀ w, (t.workThread w).newMsgFd = (s.workThread w).newMsgFd) (hs : t.sent = s.sent)
    (hn : s.nextSeq ≤ t.nextSeq) : Writes P s t := (Write.plain hr hq hs hn).writes

theorem writes_emit (o : Obs) : Writes P s (s.emit o) :=
  writes_of_eq (fun _ => rfl) (fun _ => rfl) rfl le_rfl

theorem writes_setHeap (heap : Table Addr BufferEvent) : Writes P s (s.setHeap heap) :=
  writes_of_eq (fun _ => rfl) (fun _ => rfl) rfl le_rfl

theorem writes_bufferEventFree (b : Addr) : Writes P s (s.bufferEventFree b) :=
  writes_of_eq (fun _ => rfl) (fun _ => rfl) rfl le_rfl

theorem writes_deleteLogin (d : LoginData) : Writes P s (s.deleteLogin d) := writes_emit _

theorem writes_deleteTrans (d : TransData) : Writes P s (s.deleteTrans d) := writes_emit _

theorem writes_setWrites (n : ℕ) : Writes P s (s.setWrites n) :=
  writes_of_eq (fun _ => rfl) (fun _ => rfl) rfl le_rfl

theorem writes_nextSeq : Writes P s { s with nextSeq := s.nextSeq + 1 } :=
  writes_of_eq (fun _ => rfl) (fun _ => rfl) rfl (Nat.le_succ _)

theorem writes_modify {f : WorkThread → WorkThread}
    (hr : (f (s.workThread w)).redis = (s.workThread w).redis)
    (hq : (f (s.workThread w)).newMsgFd = (s.workThread w).newMsgFd) :
    Writes P s (s.modify w f) := by
  have hv : ∀ v, (s.modify w f).workThread v =
      if v = w then f (s.workThread w) else s.workThread v := fun v => Function.update_apply _ _ _ _
  apply writes_of_eq
  · intro v
    rw [hv]
    split_ifs with h
    · rw [h, hr]
    · rfl
  · intro v
    rw [hv]
    split_ifs with h
    · rw [h, hq]
    · rfl
  · rfl
  · exact le_rfl

theorem writes_setAnalyseReq (w : ℕ) (a : AnalyseReq) : Writes P s (s.setAnalyseReq w a) :=
  writes_modify rfl rfl

theorem writes_redisAsyncCommand {c : RedisCommand} (h : P (.command c)) :
    Writes P s (s.redisAsyncCommand w c) := (Write.command w c h).writes

theorem writes_enqueue {j : ℕ} {d : TransData} (h : P (.record d)) : Writes P s (s.enqueue j d) :=
  (Write.record j d h).writes

theorem writes_recordSent {o : Owner} {source : Source} {bs : Bytes} (h : P (.bytes source)) :
    Writes P s (s.recordSent o source bs) := (Write.bytes o source bs h).writes

theorem writes_addOutput {b : Addr} {source : Source} {bs : Bytes} (h : P (.bytes source)) :
    Writes P s (s.addOutput b source bs) := by
  unfold addOutput
  split
  · exact (writes_setHeap _).trans (writes_recordSent h)
  · exact writes_emit _

/-- Without commands and records the queues stay as they are. -/
theorem Writes.queues (h : Writes P s t) (hc : ∀ c, ¬ P (.command c)) (hd : ∀ d, ¬ P (.record d)) :
    (∀ w, (t.workThread w).redis = (s.workThread w).redis) ∧
      (∀ w, (t.workThread w).newMsgFd = (s.workThread w).newMsgFd) ∧ s.nextSeq ≤ t.nextSeq := by
  induction h with
  | refl => exact ⟨fun _ => rfl, fun _ => rfl, le_rfl⟩
  | tail _ hw ih =>
    cases hw with
    | plain hr hq _ hn =>
      exact ⟨fun w => (hr w).trans (ih.1 w), fun w => (hq w).trans (ih.2.1 w), ih.2.2.trans hn⟩
    | command w c h => exact absurd h (hc c)
    | record j d h => exact absurd h (hd d)
    | bytes o source bs h =>
      unfold recordSent
      split <;> exact ih

theorem writes_foldl {α : Type} {f : Server → α → Server} (hf : ∀ s a, Writes P s (f s a))
    (as : List α) (s : Server) : Writes P s (as.foldl f s) := by
  induction as generalizing s with
  | nil => exact Writes.refl s
  | cons a as ih => exact (hf s a).trans (ih (f s a))

end Primitives

section Pipes

variable {P : Signal → Prop} {s t : Server} {env : Env}

theorem writes_notifyNewMsg {j : ℕ} {d : TransData} (h : P (.record d)) :
    Writes P s (notifyNewMsg env s j d).2 := by
  rw [notifyNewMsg_eq]
  split_ifs
  · exact (writes_setWrites _).trans (writes_enqueue h)
  · exact writes_setWrites _
  · exact Writes.refl s

theorem writes_transmit {d : TransData} (h : P (.record d)) : Writes P s (s.transmit env d) := by
  rw [transmit_eq]
  split
  · exact (writes_setWrites _).trans (writes_enqueue h)
  · exact (writes_setWrites _).trans (writes_deleteTrans _)

theorem writes_notifyDelId (hP : Permissive P) (id : UInt64) (s : Server) (j : ℕ) :
    Writes P s (notifyDelId env id s j) := by
  simp only [notifyDelId]
  split_ifs
  · exact writes_nextSeq.trans (writes_notifyNewMsg (hP.notice _ rfl))
  · exact (writes_nextSeq.trans (writes_notifyNewMsg (hP.notice _ rfl))).trans
      (writes_deleteTrans _)
  · exact Writes.refl s

theorem writes_offlineFriend (hP : Permissive P) (id : UInt64) (frame : Bytes) (s : Server)
    (str : Bytes) : Writes P s (offlineFriend env id frame s str) := by
  unfold offlineFriend
  cases hf : notifyFriend env id frame s (atoll str) with
  | none => exact Writes.refl s
  | some y =>
    obtain ⟨j, -, rfl⟩ := Option.map_eq_some_iff.mp hf
    exact writes_nextSeq.trans (writes_notifyNewMsg (hP.notice _ rfl))

theorem writes_onlineFriend (hP : Permissive P) (id : UInt64) (frame : Bytes)
    (acc : Server × Bytes) (str : Bytes) :
    Writes P acc.1 (onlineFriend env id frame acc str).1 := by
  unfold onlineFriend
  cases hf : notifyFriend env id frame acc.1 (atoll str) with
  | none => exact Writes.refl acc.1
  | some y =>
    obtain ⟨j, -, rfl⟩ := Option.map_eq_some_iff.mp hf
    simp only
    split_ifs
    · exact writes_nextSeq.trans (writes_notifyNewMsg (hP.notice _ rfl))
    · exact (writes_nextSeq.trans (writes_notifyNewMsg (hP.notice _ rfl))).trans
        (writes_deleteTrans _)

theorem writes_foldl_onlineFriend (hP : Permissive P) (id : UInt64) (frame : Bytes)
    (strs : List Bytes) (acc : Server × Bytes) :
    Writes P acc.1 (strs.foldl (onlineFriend env id frame) acc).1 := by
  induction strs generalizing acc with
  | nil => exact Writes.refl acc.1
  | cons str strs ih => exact (writes_onlineFriend hP id frame acc str).trans (ih _)

theorem writes_startLogin {w conn : ℕ} {b : Addr} (h : ∀ d, P (.command (tokenCommand d)))
    (d : Option LoginData) : Writes P s (startLogin w b conn s d) := by
  cases d with
  | none => exact Writes.refl s
  | some l => exact (writes_nextSeq.trans (writes_redisAsyncCommand (h _))).trans (writes_emit _)

theorem writes_refreshHeartbeat {w : ℕ} {b : Addr} {id : UInt64} {isHeart : Bool} :
    Writes P s (refreshHeartbeat env w b id s isHeart) := by
  unfold refreshHeartbeat
  split
  · split
    · exact (writes_modify rfl rfl).trans (writes_emit _)
    · exact Writes.refl s
  · exact Writes.refl s

theorem writes_startTrans {w : ℕ} {b : Addr} {id : UInt64}
    (hc : ∀ d, P (.command (relationCommand d)))
    (hd : ∀ d : Relay, d.origin = .client → P (.record d.toTransData)) (d : Option TransData) :
    Writes P s (startTrans env w b id s d) := by
  cases d with
  | none => exact Writes.refl s
  | some l =>
    have hr : ∀ o : Obs, Writes P s ({ s with nextSeq := s.nextSeq + 1 }.emit o) := fun o =>
      writes_nextSeq.trans (writes_emit o)
    simp only [startTrans]
    split_ifs
    · exact (hr _).trans (writes_transmit (hd (stampRelay w s.nextSeq l) rfl))
    · exact (hr _).trans (writes_redisAsyncCommand (hc _))
    · exact (hr _).trans (writes_deleteTrans _)

end Pipes

section Tables

variable {P : Signal → Prop} {s t : Server} {env : Env} {w : ℕ}

/-- A record that was read from a pipe is sent on, or deletes a session. -/
theorem writes_handleMsg {d : TransData} (h : P (.bytes (.relay d))) :
    Writes P s (handleMsg w s d) := by
  simp only [handleMsg]
  refine Writes.trans ?_ (writes_deleteTrans d)
  split
  · split
    · exact writes_addOutput h
    · exact Writes.refl s
  · split
    · refine Writes.trans ?_ (writes_modify rfl rfl)
      split_ifs
      · exact writes_bufferEventFree _
      · exact writes_emit _
    · exact Writes.refl s

theorem writes_requestOffline (hP : Permissive P) (id : UInt64) :
    Writes P s (s.requestOffline w id) := by
  unfold requestOffline
  split_ifs
  · exact writes_redisAsyncCommand (hP.offline _ _)
  · exact Writes.refl s

theorem writes_kick (s : Server) (w : ℕ) (id : UInt64) : Writes P s (s.kick w id) := by
  simp only [kick]
  split
  · exact Writes.refl s
  · split_ifs
    · exact ((writes_bufferEventFree _).trans (writes_modify rfl rfl)).trans
        (writes_modify rfl rfl)
    · exact writes_modify rfl rfl

theorem writes_bufferEventEventCallback (hP : Permissive P) {b : Addr} {flags : Flags} :
    Writes P s (s.bufferEventEventCallback w b flags) := by
  simp only [bufferEventEventCallback]
  split_ifs
  · exact ((((writes_emit _).trans (writes_modify rfl rfl)).trans (writes_modify rfl rfl)).trans
      (writes_bufferEventFree b)).trans (writes_requestOffline hP _)
  · exact (((writes_emit _).trans (writes_modify rfl rfl)).trans
      (writes_bufferEventFree b)).trans (writes_requestOffline hP _)
  · exact Writes.refl s

theorem writes_expireEntry (hP : Permissive P) (now : ℤ) (s : Server) (b : Addr) :
    Writes P s (expireEntry w now s b) := by
  unfold expireEntry
  split
  · exact Writes.refl s
  · split
    · exact Writes.refl s
    · simp only
      split_ifs
      · exact (((writes_emit _).trans (writes_bufferEventFree b)).trans
          (writes_modify rfl rfl)).trans (writes_requestOffline hP _)
      · exact Writes.refl s

theorem writes_delExpireClient (hP : Permissive P) (s : Server) :
    Writes P s (s.delExpireClient env w) := by
  unfold delExpireClient
  split
  · exact Writes.refl s
  · exact writes_foldl (fun u b => writes_expireEntry hP _ u b) _ s

theorem writes_newConnection (s : Server) : Writes P s (s.newConnection env w) := by
  have hi : Writes P s ({ s with nextConn := s.nextConn + 1 }.setHeap
      (s.heap.insert (env.alloc.next s.heap) { owner := .client w s.nextConn })) :=
    writes_of_eq (fun _ => rfl) (fun _ => rfl) rfl le_rfl
  exact (hi.trans (writes_modify rfl rfl)).trans (writes_emit _)

theorem writes_newConnLoop (hP : Permissive P) (items : List ℤ) (i : ℕ) (s : Server) :
    Writes P s (newConnLoop env w i items s) := by
  induction items generalizing i s with
  | nil => exact Writes.refl s
  | cons data rest ih =>
    have hp : Writes P s (s.modify w fun t => { t with newConnFd := rest }) :=
      writes_modify rfl rfl
    simp only [newConnLoop]
    split_ifs
    · exact (hp.trans (writes_newConnection _)).trans (ih _ _)
    · exact hp.trans (writes_modify rfl rfl)
    · exact (hp.trans (writes_delExpireClient hP _)).trans (ih _ _)
    · exact hp.trans (ih _ _)
    · exact hp

theorem writes_notifyNewConn (env : Env) (fd : ℤ) (s : Server) (j : ℕ) :
    Writes P s (notifyNewConn env fd s j) := by
  simp only [notifyNewConn]
  split_ifs
  · exact (writes_setWrites _).trans (writes_modify rfl rfl)
  · exact writes_setWrites _

theorem writes_checkExpireClient : Writes P s (s.checkExpireClient env) :=
  writes_foldl (writes_notifyNewConn env (-2)) _ s

theorem writes_acceptCallback {fd : ℤ} : Writes P s (s.acceptCallback env fd) := by
  unfold acceptCallback
  split_ifs
  · exact writes_notifyNewConn env fd s _
  · exact Writes.refl s
  · exact Writes.refl s

end Tables

section Checks

variable {σ : Type} (R : Runtime σ) {P : Signal → Prop} {s t : Server} {env : Env} {h : Addr}

theorem writes_replyLogin {d : LoginData} {isSuccess : Bool} {msg : String}
    (hr : P (.bytes (.loginRsp d isSuccess))) : Writes P s (s.replyLogin R env d isSuccess msg) :=
  (writes_setAnalyseReq _ _).trans (writes_addOutput hr)

theorem writes_httpLoginEvent {d : LoginData} {flags : Flags}
    (hr : P (.bytes (.loginRsp d false))) : Writes P s (s.httpLoginEvent R env h d flags) := by
  simp only [httpLoginEvent]
  split_ifs
  · exact ((writes_replyLogin R hr).trans (writes_deleteLogin d)).trans (writes_bufferEventFree h)
  · exact (writes_deleteLogin d).trans (writes_bufferEventFree h)
  · split
    · exact (writes_setAnalyseReq _ _).trans (writes_setHeap _)
    · exact (writes_setAnalyseReq _ _).trans (writes_emit _)
  · exact ((writes_setAnalyseReq _ _).trans (writes_bufferEventFree h)).trans
      (writes_deleteLogin d)
  · exact Writes.refl s

theorem writes_httpLoginCheck {d : LoginData} (hr : P (.bytes (.loginRsp d false))) :
    Writes P s (s.httpLoginCheck R env d) := by
  simp only [httpLoginCheck]
  split
  · exact writes_setHeap _
  · exact (((writes_setHeap _).trans (writes_httpLoginEvent R hr)).trans
      (writes_bufferEventFree _)).trans (writes_deleteLogin d)
  · exact ((writes_setHeap _).trans (writes_bufferEventFree _)).trans (writes_deleteLogin d)

theorem writes_httpTransEvent {d : Relay} {flags : Flags} :
    Writes P s (s.httpTransEvent R env h d flags) := by
  simp only [httpTransEvent]
  split_ifs
  · exact (writes_deleteTrans _).trans (writes_bufferEventFree h)
  · split
    · exact ((writes_setAnalyseReq _ _).trans (writes_emit _)).trans (writes_setHeap _)
    · exact (writes_setAnalyseReq _ _).trans (writes_emit _)
  · exact ((writes_setAnalyseReq _ _).trans (writes_bufferEventFree h)).trans
      (writes_deleteTrans _)
  · exact Writes.refl s

theorem writes_httpTransCheck {d : Relay} : Writes P s (s.httpTransCheck R env d) := by
  simp only [httpTransCheck]
  split
  · exact writes_setHeap _
  · exact (((writes_setHeap _).trans (writes_httpTransEvent R)).trans
      (writes_bufferEventFree _)).trans (writes_deleteTrans _)
  · exact ((writes_setHeap _).trans (writes_bufferEventFree _)).trans (writes_deleteTrans _)

theorem writes_httpTransRead {d : Relay} {data : Bytes} (hd : P (.record d.toTransData)) :
    Writes P s (s.httpTransRead R env h d data) := by
  simp only [httpTransRead]
  refine Writes.trans ?_ (writes_bufferEventFree h)
  split_ifs
  · exact ((writes_setAnalyseReq _ _).trans (writes_emit _)).trans (writes_transmit hd)
  · exact ((writes_setAnalyseReq _ _).trans (writes_emit _)).trans (writes_deleteTrans _)

variable (hP : Permissive P)
include hP

theorem writes_registerLogin {d : LoginData} {js : List ℕ} :
    Writes P s (s.registerLogin R env d js) := by
  have hbind : ∀ u : Server, Writes P u (u.bindLogin env d) := fun u =>
    ((writes_emit _).trans (writes_modify rfl rfl)).trans
      (writes_redisAsyncCommand (hP.online _ _))
  exact (((writes_kick s d.workThread d.id).trans (writes_foldl (writes_notifyDelId hP d.id) js
    _)).trans (hbind _)).trans (writes_replyLogin R (hP.reply d true))

theorem writes_redisLoginCallback {d : LoginData} {reply : Option RedisReply} :
    Writes P s (s.redisLoginCallback R env d reply) := by
  have ht := redisLoginCallback_outcome R env s d reply
  generalize s.redisLoginCallback R env d reply = t at ht ⊢
  cases ht with
  | gone | repeated => exact writes_deleteLogin d
  | asked => exact writes_httpLoginCheck R (hP.reply d false)
  | refused => exact (writes_replyLogin R (hP.reply d false)).trans (writes_deleteLogin d)
  | accepted => exact (writes_registerLogin R hP).trans (writes_deleteLogin d)

theorem writes_httpLoginRead {d : LoginData} {data : Bytes} :
    Writes P s (s.httpLoginRead R env h d data) := by
  have ht := httpLoginRead_verdict R env s h d data
  generalize s.httpLoginRead R env h d data = t at ht ⊢
  cases ht with
  | gone => exact (writes_bufferEventFree h).trans (writes_deleteLogin d)
  | accepted =>
    exact (((writes_setAnalyseReq _ _).trans (writes_registerLogin R hP)).trans
      (writes_bufferEventFree h)).trans (writes_deleteLogin d)
  | refused =>
    exact (((writes_setAnalyseReq _ _).trans (writes_replyLogin R (hP.reply d false))).trans
      (writes_bufferEventFree h)).trans (writes_deleteLogin d)

theorem writes_redisOnlineNotify {info : OnlineInfo} {reply : Option RedisReply}
    (ht : s.redisOnlineNotify R env info reply = some t) : Writes P s t := by
  simp only [redisOnlineNotify] at ht
  split_ifs at ht
  · obtain ⟨strs, -, rfl⟩ := Option.map_eq_some_iff.mp ht
    exact ((writes_foldl_onlineFriend hP info.id _ strs (s, [])).trans (writes_emit _)).trans
      (writes_addOutput (hP.list info))
  · obtain rfl := Option.some.inj ht
    exact Writes.refl s

theorem writes_redisOfflineNotify {info : OfflineInfo} {reply : Option RedisReply}
    (ht : s.redisOfflineNotify R env info reply = some t) : Writes P s t := by
  obtain ⟨strs, -, rfl⟩ := Option.map_eq_some_iff.mp ht
  exact writes_foldl (writes_offlineFriend hP info.id _) strs s

end Checks

end Server

end EglComet
