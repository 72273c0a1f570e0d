import EglComet.Library.Holdings
import EglComet.WorkThread.Isolation
import EglComet.WorkThread.LiveKeys
import EglComet.WorkThread.Presence

/-!
Who has to release a request record. A record waits for redis, is the argument
of the callbacks of an HTTP bufferevent, is in the pipe of a worker, is in the
hands of the running callback, or has been deleted. Every callback passes its
records on one by one, as long as no connect fails at once, no offline notice
is refused by a pipe and no login frees a bufferevent that its worker does not
own.
-/
namespace EglComet

open Protobuf Holdings

/-- The number of the record that an entry of the history deletes. -/
def Obs.released : Obs → Option ℕ
  | .deletedLogin n => some n
  | .deletedTrans d => some d.seq
  | _ => none

/-- Who has a record. -/
inductive Holder where
  | hand
  | released
  | redis (w : ℕ)
  | http (h : Addr)
  | queue (w : ℕ)
  deriving DecidableEq, Repr

namespace Server

/-- The number of the record that the callbacks of the HTTP bufferevent at an address are given. -/
def checkNumber (s : Server) (a : Addr) : Option ℕ :=
  (s.heap.lookup a).bind fun be => be.owner.number

/-- Where the records are while the running callback has those of a list. -/
def books (s : Server) (hand : List ℕ) : Holdings Holder where
  next := s.nextSeq
  count
    | .hand, n => hand.count n
    | .released, n => s.log.countP fun o => o.released = some n
    | .redis w, n => (s.workThread w).redis.countP fun c => c.callback.number = some n
    | .http h, n => if s.checkNumber h = some n then 1 else 0
    | .queue w, n => (s.workThread w).newMsgFd.countP fun d => d.seq = n

section Books

variable {s t : Server} {hand : List ℕ} {n : ℕ}

theorem books_congr (hn : t.nextSeq = s.nextSeq)
    (hl : ∀ n, (t.log.countP fun o => o.released = some n) =
      s.log.countP fun o => o.released = some n)
    (hw : ∀ w, (t.workThread w).redis = (s.workThread w).redis ∧
      (t.workThread w).newMsgFd = (s.workThread w).newMsgFd)
    (hh : ∀ a, t.checkNumber a = s.checkNumber a) : t.books hand = s.books hand := by
  apply eq_of_count hn
  intro p m
  cases p with
  | hand => rfl
  | released => exact hl m
  | redis w => simp only [books, (hw w).1]
  | http h => simp only [books, hh]
  | queue w => simp only [books, (hw w).2]

/-- A change of worker `w` is seen in its commands and in its pipe. -/
theorem count_modify (s : Server) (w : ℕ) (f : WorkThread → WorkThread) (hand : List ℕ)
    (q : Holder) (m : ℕ) :
    ((s.modify w f).books hand).count q m =
      if q = .redis w then (f (s.workThread w)).redis.countP fun c => c.callback.number = some m
      else if q = .queue w then (f (s.workThread w)).newMsgFd.countP fun d => d.seq = m
      else (s.books hand).count q m := by
  cases q with
  | redis v =>
    by_cases hv : v = w
    · subst hv
      simp [books, modify]
    · simp [books, modify, hv]
  | queue v =>
    by_cases hv : v = w
    · subst hv
      simp [books, modify]
    · simp [books, modify, hv]
  | hand | released | http => rfl

theorem books_modify_of_count {w : ℕ} {f : WorkThread → WorkThread}
    (hr : ∀ m, ((f (s.workThread w)).redis.countP fun c => c.callback.number = some m) =
      (s.workThread w).redis.countP fun c => c.callback.number = some m)
    (hq : (f (s.workThread w)).newMsgFd = (s.workThread w).newMsgFd) :
    (s.modify w f).books hand = s.books hand := by
  refine eq_of_count rfl fun q m => ?_
  rw [count_modify]
  split_ifs with hqr hqq
  · rw [hr, hqr]
    rfl
  · rw [hq, hqq]
    rfl
  · rfl

theorem books_modify {w : ℕ} {f : WorkThread → WorkThread}
    (hr : (f (s.workThread w)).redis = (s.workThread w).redis)
    (hq : (f (s.workThread w)).newMsgFd = (s.workThread w).newMsgFd) :
    (s.modify w f).books hand = s.books hand :=
  books_modify_of_count (fun _ => by rw [hr]) hq

theorem books_emit {o : Obs} (ho : o.released = none) : (s.emit o).books hand = s.books hand := by
  apply books_congr
  · rfl
  · intro n
    simp [emit, ho]
  · exact fun _ => ⟨rfl, rfl⟩
  · exact fun _ => rfl

@[simp] theorem books_setWrites (s : Server) (n : ℕ) (hand : List ℕ) :
    (s.setWrites n).books hand = s.books hand := rfl

@[simp] theorem books_setAnalyseReq (s : Server) (w : ℕ) (a : AnalyseReq) (hand : List ℕ) :
    (s.setAnalyseReq w a).books hand = s.books hand := books_modify rfl rfl

theorem checkNumber_insert (s : Server) (b a : Addr) (be : BufferEvent) :
    (s.setHeap (s.heap.insert b be)).checkNumber a =
      if a = b then be.owner.number else s.checkNumber a := by
  simp only [checkNumber, setHeap, Table.lookup_insert_eq]
  split_ifs <;> rfl

theorem books_insert {b : Addr} {be : BufferEvent} (hb : be.owner.number = s.checkNumber b) :
    (s.setHeap (s.heap.insert b be)).books hand = s.books hand := by
  apply books_congr
  · rfl
  · exact fun _ => rfl
  · exact fun _ => ⟨rfl, rfl⟩
  · intro a
    rw [checkNumber_insert]
    split_ifs with ha
    · rw [hb, ha]
    · rfl

@[simp] theorem books_recordSent (s : Server) (o : Owner) (source : Source) (bs : Bytes)
    (hand : List ℕ) : (s.recordSent o source bs).books hand = s.books hand := by
  unfold recordSent
  split <;> rfl

@[simp] theorem books_addOutput (s : Server) (b : Addr) (source : Source) (bs : Bytes)
    (hand : List ℕ) : (s.addOutput b source bs).books hand = s.books hand := by
  unfold addOutput
  cases hb : s.heap.lookup b with
  | none => exact books_emit rfl
  | some be =>
    rw [books_recordSent]
    apply books_insert
    simp [checkNumber, hb]

theorem books_redisAsyncCommand {w : ℕ} {c : RedisCommand} (hc : c.callback.number = none) :
    (s.redisAsyncCommand w c).books hand = s.books hand := by
  apply books_modify_of_count
  · intro m
    simp [hc]
  · rfl

@[simp] theorem books_requestOffline (s : Server) (w : ℕ) (id : UInt64) (hand : List ℕ) :
    (s.requestOffline w id).books hand = s.books hand := by
  unfold requestOffline
  split_ifs
  · exact books_redisAsyncCommand rfl
  · rfl

theorem checkNumber_of_client {b : Addr} {c : ℕ × ℕ} (h : s.client b = some c) :
    s.checkNumber b = none := by
  obtain ⟨be, hb, hc⟩ := Option.bind_eq_some_iff.mp h
  cases ho : be.owner with
  | client w conn => simp [checkNumber, hb, ho, Owner.number]
  | httpLogin | httpTrans => simp [ho, Owner.connection] at hc

theorem checkNumber_bufferEventFree (s : Server) (b a : Addr) :
    (s.bufferEventFree b).checkNumber a = if a = b then none else s.checkNumber a := by
  simp only [checkNumber, bufferEventFree, setHeap, emit, Table.lookup_erase_eq]
  split_ifs <;> rfl

theorem countP_released_emit (s : Server) (o : Obs) (n : ℕ) :
    ((s.emit o).log.countP fun o => o.released = some n) =
      (s.log.countP fun o => o.released = some n) + if o.released = some n then 1 else 0 := by
  simp only [emit, List.countP_append, List.countP_singleton, decide_eq_true_eq]

/-- A bufferevent without a record is freed. -/
theorem books_bufferEventFree {b : Addr} (hb : s.checkNumber b = none) :
    (s.bufferEventFree b).books hand = s.books hand := by
  apply books_congr
  · rfl
  · intro n
    simp [bufferEventFree, setHeap, emit, Obs.released]
  · exact fun _ => ⟨rfl, rfl⟩
  · intro a
    rw [checkNumber_bufferEventFree]
    split_ifs with ha
    · rw [ha, hb]
    · rfl

end Books

section Paths

variable {s t : Server} {hand : List ℕ} {n : ℕ}

/-- A record is made by the running callback. -/
theorem path_make (s : Server) (hand : List ℕ) :
    Path (s.books hand) ({ s with nextSeq := s.nextSeq + 1 }.books (s.nextSeq :: hand)) := by
  apply Path.of_step
  apply Step.make Holder.hand
  · rfl
  · intro q m
    cases q with
    | hand => simp only [books, List.count_cons, one, true_and, beq_iff_eq, eq_comm (a := m)]
    | released | redis | http | queue => rfl

/-- A record leaves the hands of the running callback. -/
theorem path_of_hand {p : Holder} (hp : p ≠ .hand) (hn : t.nextSeq = s.nextSeq)
    (hc : ∀ q m, q ≠ .hand → (t.books hand).count q m = (s.books hand).count q m + one p n q m) :
    Path (s.books (n :: hand)) (t.books hand) := by
  apply Path.of_step
  apply Step.move n Holder.hand p hn
  intro q m
  by_cases hq : q = .hand
  · subst hq
    simp only [books, List.count_cons, one, true_and, beq_iff_eq, eq_comm (a := m), Ne.symm hp,
      false_and, if_false, add_zero]
  · have hs : (s.books (n :: hand)).count q m = (s.books hand).count q m := by
      cases q with
      | hand => exact absurd rfl hq
      | released | redis | http | queue => rfl
    have hz : one Holder.hand n q m = 0 := if_neg fun h => hq h.1
    rw [hc q m hq, hs, hz, add_zero]

/-- A record comes into the hands of the running callback. -/
theorem path_to_hand {p : Holder} (hp : p ≠ .hand) (hn : t.nextSeq = s.nextSeq)
    (hc : ∀ q m, q ≠ .hand → (s.books hand).count q m = (t.books hand).count q m + one p n q m) :
    Path (s.books hand) (t.books (n :: hand)) := by
  apply Path.of_step
  apply Step.move n p Holder.hand hn
  intro q m
  by_cases hq : q = .hand
  · subst hq
    simp only [books, List.count_cons, one, true_and, beq_iff_eq, eq_comm (a := m), Ne.symm hp,
      false_and, if_false, add_zero]
  · have ht : (t.books (n :: hand)).count q m = (t.books hand).count q m := by
      cases q with
      | hand => exact absurd rfl hq
      | released | redis | http | queue => rfl
    have hz : one Holder.hand n q m = 0 := if_neg fun h => hq h.1
    rw [hc q m hq, ht, hz, add_zero]

/-- A record is put into the commands or the pipe of worker `w`. -/
theorem path_of_hand_modify {w : ℕ} {f : WorkThread → WorkThread} {p : Holder}
    (hp : p = .redis w ∨ p = .queue w)
    (hr : ∀ m, ((f (s.workThread w)).redis.countP fun c => c.callback.number = some m) =
      ((s.workThread w).redis.countP fun c => c.callback.number = some m) + one p n (.redis w) m)
    (hq : ∀ m, ((f (s.workThread w)).newMsgFd.countP fun d => d.seq = m) =
      ((s.workThread w).newMsgFd.countP fun d => d.seq = m) + one p n (.queue w) m) :
    Path (s.books (n :: hand)) ((s.modify w f).books hand) := by
  apply path_of_hand (p := p)
  · rcases hp with rfl | rfl <;> simp
  · rfl
  · intro q m _
    rw [count_modify]
    split_ifs with hqr hqq
    · rw [hr, hqr]
      rfl
    · rw [hq, hqq]
      rfl
    · have hne : q ≠ p := by
        rcases hp with rfl | rfl <;> assumption
      rw [one, if_neg fun h => hne h.1, add_zero]

/-- A record is taken from the commands or the pipe of worker `w`. -/
theorem path_to_hand_modify {w : ℕ} {f : WorkThread → WorkThread} {p : Holder}
    (hp : p = .redis w ∨ p = .queue w)
    (hr : ∀ m, ((s.workThread w).redis.countP fun c => c.callback.number = some m) =
      ((f (s.workThread w)).redis.countP fun c => c.callback.number = some m) +
        one p n (.redis w) m)
    (hq : ∀ m, ((s.workThread w).newMsgFd.countP fun d => d.seq = m) =
      ((f (s.workThread w)).newMsgFd.countP fun d => d.seq = m) + one p n (.queue w) m) :
    Path (s.books hand) ((s.modify w f).books (n :: hand)) := by
  apply path_to_hand (p := p)
  · rcases hp with rfl | rfl <;> simp
  · rfl
  · intro q m _
    rw [count_modify]
    split_ifs with hqr hqq
    · rw [hqr]
      exact hr m
    · rw [hqq]
      exact hq m
    · have hne : q ≠ p := by
        rcases hp with rfl | rfl <;> assumption
      rw [one, if_neg fun h => hne h.1, add_zero]

theorem path_release {o : Obs} (ho : o.released = some n) :
    Path (s.books (n :: hand)) ((s.emit o).books hand) := by
  apply path_of_hand (p := .released)
  · simp
  · rfl
  · intro q m hq
    cases q with
    | hand => exact absurd rfl hq
    | released =>
      simp only [books, countP_released_emit, ho, one, true_and, Option.some.injEq,
        eq_comm (a := m)]
    | redis | http | queue => rfl

theorem path_deleteLogin (s : Server) (d : LoginData) (hand : List ℕ) :
    Path (s.books (d.seq :: hand)) ((s.deleteLogin d).books hand) := path_release rfl

theorem path_deleteTrans (s : Server) (d : TransData) (hand : List ℕ) :
    Path (s.books (d.seq :: hand)) ((s.deleteTrans d).books hand) := path_release rfl

theorem path_redisAsyncCommand {w : ℕ} {c : RedisCommand} (hc : c.callback.number = some n) :
    Path (s.books (n :: hand)) ((s.redisAsyncCommand w c).books hand) := by
  apply path_of_hand_modify (p := .redis w)
  · exact Or.inl rfl
  · intro m
    simp [one, hc, eq_comm (a := m), List.countP_singleton]
  · intro m
    simp [one]

theorem path_enqueue (s : Server) (j : ℕ) (d : TransData) (hand : List ℕ) :
    Path (s.books (d.seq :: hand)) ((s.enqueue j d).books hand) := by
  rw [enqueue, books_emit rfl]
  apply path_of_hand_modify (p := .queue j)
  · exact Or.inr rfl
  · intro m
    simp [one]
  · intro m
    simp [one, eq_comm (a := m), List.countP_singleton]

/-- A new bufferevent is given a record. -/
theorem path_insert {h : Addr} {be : BufferEvent} (hn : be.owner.number = some n)
    (hh : s.checkNumber h = none) :
    Path (s.books (n :: hand)) ((s.setHeap (s.heap.insert h be)).books hand) := by
  apply path_of_hand (p := .http h)
  · simp
  · rfl
  · intro q m hq
    cases q with
    | hand => exact absurd rfl hq
    | http a =>
      simp only [books, checkNumber_insert, one, Holder.http.injEq]
      by_cases ha : a = h
      · subst ha
        simp [hn, hh, eq_comm (a := m)]
      · simp [ha]
    | released | redis | queue => rfl

/-- A bufferevent is freed by the callback that was given its record. -/
theorem path_bufferEventFree {h : Addr} (hn : s.checkNumber h = some n) :
    Path (s.books hand) ((s.bufferEventFree h).books (n :: hand)) := by
  apply path_to_hand (p := .http h)
  · simp
  · rfl
  · intro q m hq
    cases q with
    | hand => exact absurd rfl hq
    | http a =>
      simp only [books, checkNumber_bufferEventFree, one, Holder.http.injEq]
      by_cases ha : a = h
      · subst ha
        simp [hn, eq_comm (a := m)]
      · simp [ha]
    | released => simp [books, bufferEventFree, setHeap, emit, Obs.released, one]
    | redis | queue => rfl

/-- Taking a command takes the record of its callback, if that has one. -/
theorem countP_eraseIdx_command {cs : List RedisCommand} {i : ℕ} {cmd : RedisCommand}
    (hc : cs[i]? = some cmd) (m : ℕ) :
    (cs.countP fun c => c.callback.number = some m) =
      ((cs.eraseIdx i).countP fun c => c.callback.number = some m) +
        if cmd.callback.number = some m then 1 else 0 := by
  obtain ⟨hi, hget⟩ := List.getElem?_eq_some_iff.mp hc
  have hperm := (List.getElem_cons_eraseIdx_perm hi).countP_eq
    fun c => decide (c.callback.number = some m)
  rw [hget, List.countP_cons] at hperm
  simpa using hperm.symm

theorem path_takeCommand {w i : ℕ} {cmd : RedisCommand} (reply : Option RedisReply)
    (hc : (s.workThread w).redis[i]? = some cmd) (hn : cmd.callback.number = some n) :
    Path (s.books hand) ((s.takeCommand w i cmd reply).books (n :: hand)) := by
  rw [takeCommand, books_emit rfl]
  apply path_to_hand_modify (p := .redis w)
  · exact Or.inl rfl
  · intro m
    rw [countP_eraseIdx_command hc, hn]
    simp [one, eq_comm (a := m)]
  · intro m
    simp [one]

/-- A command that waits for a friend list holds no record. -/
theorem books_takeCommand {w i : ℕ} {cmd : RedisCommand} (reply : Option RedisReply)
    (hc : (s.workThread w).redis[i]? = some cmd) (hn : cmd.callback.number = none) :
    (s.takeCommand w i cmd reply).books hand = s.books hand := by
  rw [takeCommand, books_emit rfl]
  apply books_modify_of_count
  · intro m
    rw [countP_eraseIdx_command hc, hn]
    simp
  · rfl

theorem path_pop {w : ℕ} {d : TransData} {ds : List TransData}
    (hq : (s.workThread w).newMsgFd = d :: ds) :
    Path (s.books hand)
      ((s.modify w fun t => { t with newMsgFd := ds }).books (d.seq :: hand)) := by
  apply path_to_hand_modify (p := .queue w)
  · exact Or.inr rfl
  · intro m
    simp [one]
  · intro m
    simp [one, hq, List.countP_cons, eq_comm (a := m)]

end Paths

section Pipes

variable {s t : Server} {env : Env} {hand : List ℕ}

theorem path_foldl {α : Type} {f : Server → α → Server}
    (hf : ∀ s a, Path (s.books hand) ((f s a).books hand)) (as : List α) (s : Server) :
    Path (s.books hand) ((as.foldl f s).books hand) := by
  induction as generalizing s with
  | nil => exact Path.of_eq rfl
  | cons a as ih => exact (hf s a).trans (ih (f s a))

/-- A pipe takes a record, or leaves it to the caller. -/
theorem path_notifyNewMsg (env : Env) (s : Server) (j : ℕ) (d : TransData) (hand : List ℕ) :
    Path (s.books (d.seq :: hand)) ((notifyNewMsg env s j d).2.books
      (if (notifyNewMsg env s j d).1 then hand else d.seq :: hand)) := by
  rw [notifyNewMsg_eq]
  by_cases hm : d.toId ∈ (s.workThread j).subMap
  · by_cases hv : (env.write s.writes).value = 8
    · rw [if_pos hm, if_pos hv]
      exact path_enqueue (s.setWrites (s.writes + 1)) j d hand
    · rw [if_pos hm, if_neg hv]
      exact Path.of_eq rfl
  · rw [if_neg hm]
    exact Path.of_eq rfl

/-- A caller that deletes what it could not hand over. -/
theorem path_notifyNewMsg_delete (env : Env) (s : Server) (j : ℕ) (d : TransData)
    (hand : List ℕ) :
    Path (s.books (d.seq :: hand)) ((if (notifyNewMsg env s j d).1 then (notifyNewMsg env s j d).2
      else (notifyNewMsg env s j d).2.deleteTrans d).books hand) := by
  have hp := path_notifyNewMsg env s j d hand
  cases hr : (notifyNewMsg env s j d).1 with
  | true =>
    rw [hr] at hp
    exact hp
  | false =>
    rw [hr] at hp
    exact hp.trans (path_deleteTrans _ d hand)

theorem path_notifyDelId (env : Env) (id : UInt64) (s : Server) (j : ℕ) (hand : List ℕ) :
    Path (s.books hand) ((notifyDelId env id s j).books hand) := by
  simp only [notifyDelId]
  split_ifs with hm hr
  · have hp := path_notifyNewMsg_delete env { s with nextSeq := s.nextSeq + 1 } j
      { toId := id, msgType := .delId, seq := s.nextSeq, origin := .server } hand
    rw [if_pos hr] at hp
    exact (path_make s hand).trans hp
  · have hp := path_notifyNewMsg_delete env { s with nextSeq := s.nextSeq + 1 } j
      { toId := id, msgType := .delId, seq := s.nextSeq, origin := .server } hand
    rw [if_neg hr] at hp
    exact (path_make s hand).trans hp
  · exact Path.of_eq rfl

theorem path_transmit (env : Env) (s : Server) (d : TransData) (hand : List ℕ) :
    Path (s.books (d.seq :: hand)) ((s.transmit env d).books hand) := by
  rw [transmit_eq]
  split
  · exact path_enqueue (s.setWrites _) _ d hand
  · exact path_deleteTrans (s.setWrites _) d hand

theorem path_startLogin {w : ℕ} {b : Addr} {conn : ℕ} (s : Server) (d : Option LoginData) :
    Path (s.books hand) ((startLogin w b conn s d).books hand) := by
  cases d with
  | none => exact Path.of_eq rfl
  | some l =>
    simp only [startLogin]
    rw [books_emit rfl]
    exact (path_make s hand).trans (path_redisAsyncCommand rfl)

theorem books_refreshHeartbeat (env : Env) (w : ℕ) (b : Addr) (id : UInt64) (s : Server)
    (isHeart : Bool) (hand : List ℕ) :
    (refreshHeartbeat env w b id s isHeart).books hand = s.books hand := by
  unfold refreshHeartbeat
  split
  · split
    · rw [books_emit rfl, books_modify rfl rfl]
    · rfl
  · rfl

theorem path_startTrans {w : ℕ} {b : Addr} {id : UInt64} (s : Server) (d : Option TransData) :
    Path (s.books hand) ((startTrans env w b id s d).books hand) := by
  cases d with
  | none => exact Path.of_eq rfl
  | some l =>
    have hm : ∀ o : Obs, o.released = none → Path (s.books hand)
        (({ s with nextSeq := s.nextSeq + 1 }.emit o).books (s.nextSeq :: hand)) := by
      intro o ho
      rw [books_emit ho]
      exact path_make s hand
    simp only [startTrans]
    split_ifs
    · exact (hm _ rfl).trans (path_transmit env _ (stampRelay w s.nextSeq l).toTransData hand)
    · exact (hm _ rfl).trans (path_redisAsyncCommand rfl)
    · exact (hm _ rfl).trans (path_deleteTrans _ (stampRelay w s.nextSeq l).toTransData hand)

theorem path_handleRequest {w : ℕ} {b : Addr} {conn : ℕ} {id : UInt64} (s : Server)
    (r : Analysed) : Path (s.books hand) ((handleRequest env w b conn id s r).books hand) := by
  have hl : Path (s.books hand) ((startLogin w b conn s r.req.loginData).books hand) :=
    path_startLogin s r.req.loginData
  have hr := books_refreshHeartbeat env w b id (startLogin w b conn s r.req.loginData)
    r.req.isHeart hand
  rw [← hr] at hl
  exact hl.trans (path_startTrans _ r.req.transData)

end Pipes

section Tables

variable {s t : Server} {env : Env} {w : ℕ} {hand : List ℕ}

theorem checkNumber_eq_of_books (h : t.books hand = s.books hand) (a : Addr) :
    t.checkNumber a = s.checkNumber a := by
  have hc : ∀ n, (t.checkNumber a = some n) = (s.checkNumber a = some n) := by
    intro n
    have hn := congrArg (fun h : Holdings Holder => h.count (.http a) n) h
    simp only [books] at hn
    by_cases ht : t.checkNumber a = some n
    · by_cases hs : s.checkNumber a = some n
      · rw [ht, hs]
      · rw [if_pos ht, if_neg hs] at hn
        cases hn
    · by_cases hs : s.checkNumber a = some n
      · rw [if_neg ht, if_pos hs] at hn
        cases hn
      · exact propext ⟨fun h => absurd h ht, fun h => absurd h hs⟩
  exact Option.ext fun n => by rw [hc]

theorem books_kick {id : UInt64} (hk : s.registry.KnownLive) :
    (s.kick w id).books hand = s.books hand := by
  simp only [kick]
  split
  · rfl
  · rename_i sub _
    split_ifs with hb
    · obtain ⟨conn, hl⟩ := hk w _ hb
      rw [books_modify rfl rfl, books_modify rfl rfl]
      exact books_bufferEventFree (checkNumber_of_client (b := sub.bev) hl)
    · exact books_modify rfl rfl

theorem books_bufferEventEventCallback {b : Addr} {flags : Flags} {c : ℕ × ℕ}
    (hb : s.client b = some c) :
    (s.bufferEventEventCallback w b flags).books hand = s.books hand := by
  simp only [bufferEventEventCallback]
  split_ifs
  · rw [books_requestOffline, books_bufferEventFree, books_modify rfl rfl, books_modify rfl rfl,
      books_emit rfl]
    exact checkNumber_of_client hb
  · rw [books_requestOffline, books_bufferEventFree, books_modify rfl rfl, books_emit rfl]
    exact checkNumber_of_client hb
  · rfl

theorem books_expireEntry {now : ℤ} {b : Addr} (hk : s.registry.KnownLive) :
    (expireEntry w now s b).books hand = s.books hand := by
  unfold expireEntry
  split
  · rfl
  · rename_i hb
    obtain ⟨conn, hl⟩ := hk w b (Table.mem_of_lookup hb)
    split
    · rfl
    · simp only
      split_ifs
      · rw [books_requestOffline, books_modify rfl rfl, books_bufferEventFree, books_emit rfl]
        exact checkNumber_of_client hl
      · rfl

theorem books_delExpireClient (hk : s.registry.KnownLive) :
    (s.delExpireClient env w).books hand = s.books hand := by
  unfold delExpireClient
  split
  · rfl
  · rename_i now _
    generalize env.order.toList (s.workThread w).bevId = bs
    induction bs generalizing s with
    | nil => rfl
    | cons b bs ih =>
      rw [List.foldl_cons, ih, books_expireEntry hk]
      exact knownLive_of_moves hk (expireEntry_moves (fun _ _ => trivial) now s b)

theorem books_newConnection : (s.newConnection env w).books hand = s.books hand := by
  have hnew : s.checkNumber (env.alloc.next s.heap) = none := by
    simp [checkNumber, Finmap.lookup_eq_none.mpr (env.alloc.fresh s.heap)]
  have hi : ({ s with nextConn := s.nextConn + 1 }.setHeap
      (s.heap.insert (env.alloc.next s.heap) { owner := .client w s.nextConn })).books hand =
        s.books hand := books_insert (s := { s with nextConn := s.nextConn + 1 }) hnew.symm
  simp only [newConnection]
  rw [books_emit rfl, books_modify rfl rfl, hi]

theorem books_newConnLoop (items : List ℤ) (i : ℕ) (hk : s.registry.KnownLive) :
    (newConnLoop env w i items s).books hand = s.books hand := by
  induction items generalizing i s with
  | nil => rfl
  | cons data rest ih =>
    have hp : (s.modify w fun t => { t with newConnFd := rest }).registry = s.registry :=
      registry_modify_of_eq rfl rfl rfl
    have hb : (s.modify w fun t => { t with newConnFd := rest }).books hand = s.books hand :=
      books_modify rfl rfl
    rw [← hp] at hk
    simp only [newConnLoop]
    split_ifs
    · rw [ih, books_newConnection, hb]
      rw [registry_newConnection]
      exact hk.apply (client_alloc env _) trivial
    · rw [books_modify rfl rfl, hb]
    · rw [ih, books_delExpireClient hk, hb]
      exact knownLive_of_moves hk (delExpireClient_moves (fun _ _ => trivial) env _)
    · rw [ih _ hk, hb]
    · exact hb

/-- A record that was read from a pipe is deleted when it has been handled. -/
theorem path_handleMsg {d : TransData} (hk : s.registry.KnownLive) :
    Path (s.books (d.seq :: hand)) ((handleMsg w s d).books hand) := by
  have hrel : ∀ u : Server, u.books (d.seq :: hand) = s.books (d.seq :: hand) →
      Path (s.books (d.seq :: hand)) ((u.deleteTrans d).books hand) := by
    intro u hu
    rw [← hu]
    exact path_deleteTrans u d hand
  simp only [handleMsg]
  split
  · split
    · exact hrel _ (books_addOutput _ _ _ _ _)
    · exact hrel s rfl
  · split
    · apply hrel
      rw [books_modify rfl rfl]
      split_ifs with hb
      · obtain ⟨conn, hl⟩ := hk w _ hb
        exact books_bufferEventFree (checkNumber_of_client hl)
      · exact books_emit rfl
    · exact hrel s rfl

theorem path_newMsgLoop (msgs : List TransData) (hk : s.registry.KnownLive)
    (hq : (s.workThread w).newMsgFd = msgs) :
    Path (s.books hand) ((newMsgLoop w msgs s).books hand) := by
  induction msgs generalizing s with
  | nil => exact Path.of_eq rfl
  | cons d ds ih =>
    have hp : (s.modify w fun t => { t with newMsgFd := ds }).registry.KnownLive := by
      rw [registry_pop]
      exact hk
    apply ((path_pop hq).trans (path_handleMsg hp)).trans
    apply ih (knownLive_handleMsg hp)
    rw [newMsgFd_handleMsg]
    simp [modify]

theorem books_notifyNewConn (env : Env) (fd : ℤ) (s : Server) (j : ℕ) (hand : List ℕ) :
    (notifyNewConn env fd s j).books hand = s.books hand := by
  simp only [notifyNewConn]
  split_ifs
  · exact books_modify rfl rfl
  · rfl

end Tables

section Checks

variable {σ : Type} (R : Runtime σ) {s t : Server} {env : Env} {d : LoginData} {h : Addr}
  {hand : List ℕ}

@[simp] theorem books_replyLogin (env : Env) (s : Server) (d : LoginData) (ok : Bool)
    (msg : String) (hand : List ℕ) : (s.replyLogin R env d ok msg).books hand = s.books hand := by
  simp only [replyLogin, books_addOutput, books_setAnalyseReq]

theorem books_bindLogin (env : Env) (s : Server) (d : LoginData) (hand : List ℕ) :
    (s.bindLogin env d).books hand = s.books hand := by
  simp only [bindLogin]
  rw [books_redisAsyncCommand rfl, books_modify rfl rfl, books_emit rfl]

theorem path_registerLogin {js : List ℕ} (hk : s.registry.KnownLive) :
    Path (s.books hand) ((s.registerLogin R env d js).books hand) := by
  have hp := path_foldl (fun u j => path_notifyDelId env d.id u j hand) js
    (s.kick d.workThread d.id)
  rw [books_kick hk] at hp
  simp only [registerLogin]
  rw [books_replyLogin, books_bindLogin]
  exact hp

theorem checkNumber_registerLogin {js : List ℕ} (hk : s.registry.KnownLive) (a : Addr) :
    (s.registerLogin R env d js).checkNumber a = s.checkNumber a := by
  have hkeep : (s.kick d.workThread d.id).books [] = s.books [] := books_kick hk
  have hkick := checkNumber_eq_of_books hkeep a
  have hreply := checkNumber_eq_of_books (books_replyLogin R env
    ((js.foldl (notifyDelId env d.id) (s.kick d.workThread d.id)).bindLogin env d) d true
      "200 ok" []) a
  have hbind := checkNumber_eq_of_books (books_bindLogin env
    (js.foldl (notifyDelId env d.id) (s.kick d.workThread d.id)) d []) a
  have hfold : (js.foldl (notifyDelId env d.id) (s.kick d.workThread d.id)).checkNumber a =
      (s.kick d.workThread d.id).checkNumber a := by
    rw [checkNumber, heap_foldl_notifyDelId]
    rfl
  rw [registerLogin, hreply, hbind, hfold, hkick]

/-- The record of a check that ends is deleted. -/
theorem path_free_delete (hn : s.checkNumber h = some d.seq) :
    Path (s.books hand) (((s.bufferEventFree h).deleteLogin d).books hand) :=
  (path_bufferEventFree hn).trans (path_deleteLogin _ d hand)

/-- The order in which a bufferevent is freed and something is recorded does not matter. -/
theorem books_free_emit (s : Server) (o : Obs) (h : Addr) (hand : List ℕ) :
    ((s.emit o).bufferEventFree h).books hand = ((s.bufferEventFree h).emit o).books hand := by
  apply books_congr
  · rfl
  · intro n
    change (((s.emit o).emit (.freed h (decide (h ∈ s.heap)))).log.countP _) =
      ((s.emit (.freed h (decide (h ∈ s.heap)))).emit o).log.countP _
    rw [countP_released_emit, countP_released_emit, countP_released_emit, countP_released_emit]
    exact Nat.add_right_comm _ _ _
  · exact fun _ => ⟨rfl, rfl⟩
  · exact fun _ => rfl

theorem path_httpLoginEvent {flags : Flags} (hn : s.checkNumber h = some d.seq) :
    Path (s.books hand) ((s.httpLoginEvent R env h d flags).books hand) := by
  simp only [httpLoginEvent]
  split_ifs
  · have hr := books_replyLogin R env s d false "http server error"
    rw [deleteLogin, books_free_emit, ← hr hand]
    apply path_free_delete
    rw [checkNumber_eq_of_books (hr hand), hn]
  · rw [deleteLogin, books_free_emit]
    exact path_free_delete hn
  · split
    · rename_i be hb
      apply Path.of_eq
      rw [books_insert, books_setAnalyseReq]
      exact hn.symm
    · apply Path.of_eq
      rw [books_emit rfl, books_setAnalyseReq]
  · have hfree : ∀ a : AnalyseReq, Path (s.books hand)
        ((((s.setAnalyseReq d.workThread a).bufferEventFree h).deleteLogin d).books hand) := by
      intro a
      rw [← books_setAnalyseReq s d.workThread a hand]
      exact path_free_delete hn
    exact hfree _
  · exact Path.of_eq rfl

theorem checkNumber_alloc (env : Env) (s : Server) :
    s.checkNumber (env.alloc.next s.heap) = none := by
  simp [checkNumber, Finmap.lookup_eq_none.mpr (env.alloc.fresh s.heap)]

theorem path_httpLoginCheck (hc : env.connect ≠ .failed) :
    Path (s.books (d.seq :: hand)) ((s.httpLoginCheck R env d).books hand) := by
  have hi : Path (s.books (d.seq :: hand)) ((s.setHeap (s.heap.insert (env.alloc.next s.heap)
      { owner := .httpLogin d false })).books hand) := path_insert rfl (checkNumber_alloc env s)
  simp only [httpLoginCheck]
  split
  case h_1 => exact hi
  case h_2 hfailed => exact absurd hfailed hc
  case h_3 => exact hi.trans (path_free_delete (by simp [checkNumber, setHeap, Owner.number]))

theorem path_redisLoginCallback {reply : Option RedisReply} (hk : s.registry.KnownLive)
    (hc : env.connect ≠ .failed) :
    Path (s.books (d.seq :: hand)) ((s.redisLoginCallback R env d reply).books hand) := by
  have ht := redisLoginCallback_outcome R env s d reply
  generalize s.redisLoginCallback R env d reply = t at ht ⊢
  cases ht with
  | gone | repeated => exact path_deleteLogin s d hand
  | asked => exact path_httpLoginCheck R hc
  | refused =>
    have hp := path_deleteLogin (s.replyLogin R env d false "wrong id or token") d hand
    rw [books_replyLogin] at hp
    exact hp
  | accepted => exact (path_registerLogin R hk).trans (path_deleteLogin _ d hand)

theorem path_httpLoginRead {data : Bytes} (hk : s.registry.KnownLive)
    (hn : s.checkNumber h = some d.seq) :
    Path (s.books hand) ((s.httpLoginRead R env h d data).books hand) := by
  have ht := httpLoginRead_verdict R env s h d data
  generalize s.httpLoginRead R env h d data = t at ht ⊢
  cases ht with
  | gone => exact path_free_delete hn
  | accepted hb ha a =>
    have hka : (s.setAnalyseReq d.workThread a).registry.KnownLive := by
      rw [registry_setAnalyseReq]
      exact hk
    rw [← books_setAnalyseReq s d.workThread a]
    apply (path_registerLogin R hka).trans
    apply path_free_delete
    rw [checkNumber_registerLogin R hka]
    exact hn
  | refused hb hno a =>
    have hr := books_replyLogin R env (s.setAnalyseReq d.workThread a) d false "wrong id or token"
    have hs := books_setAnalyseReq s d.workThread a
    rw [← hs hand, ← hr hand]
    apply path_free_delete
    rw [checkNumber_eq_of_books (hr hand), checkNumber_eq_of_books (hs hand), hn]

variable {r : Relay}

theorem path_httpTransEvent {flags : Flags} (hn : s.checkNumber h = some r.seq) :
    Path (s.books hand) ((s.httpTransEvent R env h r flags).books hand) := by
  have hfree : ∀ u : Server, u.books hand = s.books hand →
      Path (s.books hand) (((u.bufferEventFree h).deleteTrans r.toTransData).books hand) := by
    intro u hu
    rw [← hu]
    apply (path_bufferEventFree (n := r.seq) _).trans (path_deleteTrans _ r.toTransData hand)
    rw [checkNumber_eq_of_books hu, hn]
  simp only [httpTransEvent]
  split_ifs
  · rw [deleteTrans, books_free_emit]
    exact hfree s rfl
  · split
    · rename_i be hb
      apply Path.of_eq
      refine (books_insert (s := emit _ _) ?_).trans ?_
      · exact hn.symm
      · rw [books_emit rfl, books_setAnalyseReq]
    · apply Path.of_eq
      rw [books_emit rfl, books_setAnalyseReq]
  · exact hfree _ (books_setAnalyseReq _ _ _ _)
  · exact Path.of_eq rfl

theorem path_httpTransCheck (hc : env.connect ≠ .failed) :
    Path (s.books (r.seq :: hand)) ((s.httpTransCheck R env r).books hand) := by
  have hi : Path (s.books (r.seq :: hand)) ((s.setHeap (s.heap.insert (env.alloc.next s.heap)
      { owner := .httpTrans r false })).books hand) := path_insert rfl (checkNumber_alloc env s)
  simp only [httpTransCheck]
  split
  case h_1 => exact hi
  case h_2 hfailed => exact absurd hfailed hc
  case h_3 =>
    apply hi.trans
    apply (path_bufferEventFree (n := r.seq) _).trans (path_deleteTrans _ r.toTransData hand)
    simp [checkNumber, setHeap, Owner.number]

/-- The order in which a bufferevent is freed and its record is transmitted does not matter. -/
theorem books_free_transmit (env : Env) (s : Server) (d : TransData) (h : Addr) (hand : List ℕ) :
    ((s.transmit env d).bufferEventFree h).books hand =
      ((s.bufferEventFree h).transmit env d).books hand := by
  have htaker : taker env (s.bufferEventFree h).workThread d.toId
      (List.range (s.bufferEventFree h).workThreadNum) (s.bufferEventFree h).writes =
        taker env s.workThread d.toId (List.range s.workThreadNum) s.writes := rfl
  rw [transmit_eq, transmit_eq, htaker]
  generalize taker env s.workThread d.toId (List.range s.workThreadNum) s.writes = taken
  obtain ⟨_ | j, n⟩ := taken
  · exact books_free_emit (s.setWrites n) (.deletedTrans d) h hand
  · exact books_free_emit ((s.setWrites n).modify j fun t =>
      { t with newMsgFd := t.newMsgFd ++ [d] }) (.enqueued j d) h hand

theorem path_httpTransRead {data : Bytes} (hn : s.checkNumber h = some r.seq) :
    Path (s.books hand) ((s.httpTransRead R env h r data).books hand) := by
  have hbooks : ∀ (a : AnalyseReq) (b : Bool), ((s.setAnalyseReq r.workThread a).emit
      (.relationAnswer r data b)).books hand = s.books hand := by
    intro a b
    rw [books_emit rfl, books_setAnalyseReq]
  have hfree : ∀ u : Server, u.books hand = s.books hand →
      Path (s.books hand) ((u.bufferEventFree h).books (r.seq :: hand)) := by
    intro u hu
    rw [← hu]
    apply path_bufferEventFree
    rw [checkNumber_eq_of_books hu, hn]
  simp only [httpTransRead]
  split_ifs
  · rw [books_free_transmit]
    exact (hfree _ (hbooks _ _)).trans (path_transmit env _ r.toTransData hand)
  · rw [deleteTrans, books_free_emit]
    exact (hfree _ (hbooks _ _)).trans (path_deleteTrans _ r.toTransData hand)

end Checks

section Notices

variable {σ : Type} (R : Runtime σ) {s t : Server} {env : Env} {hand : List ℕ}

theorem path_onlineFriend (env : Env) (id : UInt64) (frame : Bytes) (acc : Server × Bytes)
    (str : Bytes) :
    Path (acc.1.books hand) ((onlineFriend env id frame acc str).1.books hand) := by
  unfold onlineFriend
  cases hf : notifyFriend env id frame acc.1 (atoll str) with
  | none => exact Path.of_eq rfl
  | some y =>
    obtain ⟨j, -, rfl⟩ := Option.map_eq_some_iff.mp hf
    exact (path_make acc.1 hand).trans
      (path_notifyNewMsg_delete env _ j (acc.1.notice id frame (atoll str)) hand)

theorem path_foldl_onlineFriend (env : Env) (id : UInt64) (frame : Bytes) (strs : List Bytes)
    (acc : Server × Bytes) :
    Path (acc.1.books hand) ((strs.foldl (onlineFriend env id frame) acc).1.books hand) := by
  induction strs generalizing acc with
  | nil => exact Path.of_eq rfl
  | cons str strs ih => exact (path_onlineFriend env id frame acc str).trans (ih _)

/-- `redis_offline_notify` does not look at the result of the hand-off. -/
theorem path_offlineFriend (hw : ∀ n, env.write n = .full) (id : UInt64) (frame : Bytes)
    (s : Server) (str : Bytes) :
    Path (s.books hand) ((offlineFriend env id frame s str).books hand) := by
  rw [offlineFriend_eq hw]
  cases s.firstWorker (atoll str) with
  | none => exact Path.of_eq rfl
  | some j =>
    have hq := path_enqueue ({ s with nextSeq := s.nextSeq + 1 }.setWrites (s.writes + 1)) j
      (s.notice id frame (atoll str)) hand
    exact (path_make s hand).trans hq

/-- A notice that its pipe refuses has no holder afterwards. -/
theorem offlineFriend_leaks {j : ℕ} {str : Bytes} (hs : (s.books []).Sound)
    (hj : s.firstWorker (atoll str) = some j) (hw : (env.write s.writes).value ≠ 8)
    (id : UInt64) (frame : Bytes) :
    s.nextSeq < (offlineFriend env id frame s str).nextSeq ∧
      ¬ ((offlineFriend env id frame s str).books []).Kept s.nextSeq := by
  have hm : (s.notice id frame (atoll str)).toId ∈ (s.workThread j).subMap := by
    have hfound := List.find?_some hj
    exact of_decide_eq_true hfound
  have hnew : notifyNewMsg env { s with nextSeq := s.nextSeq + 1 } j
      (s.notice id frame (atoll str)) =
        (false, { s with nextSeq := s.nextSeq + 1 }.setWrites (s.writes + 1)) := by
    rw [notifyNewMsg_eq]
    exact (if_pos hm).trans (if_neg hw)
  have he : offlineFriend env id frame s str =
      { s with nextSeq := s.nextSeq + 1 }.setWrites (s.writes + 1) := by
    change (List.range s.workThreadNum).find? _ = some j at hj
    simp only [offlineFriend, notifyFriend, hj, Option.map_some]
    exact congrArg Prod.snd hnew
  rw [he]
  refine ⟨Nat.lt_succ_self _, ?_⟩
  rintro ⟨p, hp⟩
  have hone := hp p
  rw [if_pos rfl] at hone
  have hzero := hs.fresh s.nextSeq le_rfl p
  have hsame : (({ s with nextSeq := s.nextSeq + 1 }.setWrites (s.writes + 1)).books []).count p
      s.nextSeq = (s.books []).count p s.nextSeq := by
    cases p <;> rfl
  omega

theorem path_redisOnlineNotify {info : OnlineInfo} {reply : Option RedisReply}
    (ht : s.redisOnlineNotify R env info reply = some t) :
    Path (s.books hand) (t.books hand) := by
  simp only [redisOnlineNotify] at ht
  split_ifs at ht
  · obtain ⟨strs, -, rfl⟩ := Option.map_eq_some_iff.mp ht
    rw [books_addOutput, books_emit rfl]
    exact path_foldl_onlineFriend env info.id _ strs (s, [])
  · obtain rfl := Option.some.inj ht
    exact Path.of_eq rfl

theorem path_redisOfflineNotify {info : OfflineInfo} {reply : Option RedisReply}
    (hw : ∀ n, env.write n = .full) (ht : s.redisOfflineNotify R env info reply = some t) :
    Path (s.books hand) (t.books hand) := by
  obtain ⟨strs, -, rfl⟩ := Option.map_eq_some_iff.mp ht
  exact path_foldl (path_offlineFriend hw info.id _) strs s

theorem path_bufferEventReadCallback {w conn : ℕ} {b : Addr} {input output : Bytes}
    (hb : s.client b = some (w, conn))
    (ht : s.bufferEventReadCallback R env w conn b ⟨.client w conn, input, output⟩ = some t) :
    Path (s.books hand) (t.books hand) := by
  obtain ⟨y, hy, rfl⟩ := Option.map_eq_some_iff.mp ht
  obtain ⟨hp, hr⟩ : Path (s.books hand) (y.1.books hand) ∧ y.1.registry = s.registry := by
    apply readLoop_invariant R
      (P := fun t => Path (s.books hand) (t.books hand) ∧ t.registry = s.registry) _
      ⟨Path.of_eq rfl, rfl⟩ hy
    rintro t input output r ⟨hp, hr⟩
    exact ⟨hp.trans (path_handleRequest t r), by rw [registry_handleRequest, hr]⟩
  have hn : (y.1.setAnalyseReq w y.2.1).checkNumber b = none :=
    checkNumber_of_client ((client_eq_of_registry_eq hr b).trans hb)
  rw [books_recordSent]
  have hi : ((y.1.setAnalyseReq w y.2.1).setHeap (y.1.heap.insert b
      { owner := .client w conn, input := y.2.2.1, output := y.2.2.2 })).books hand =
        (y.1.setAnalyseReq w y.2.1).books hand :=
    books_insert (s := y.1.setAnalyseReq w y.2.1) hn.symm
  rw [hi, books_setAnalyseReq]
  exact hp

end Notices

section Step

variable {σ : Type} (R : Runtime σ)

/-- The reply is for a lookup that starts offline notices. -/
def answersOffline (s : Server) : Event → Bool
  | .redisReply w i _ => ((s.workThread w).redis[i]?).any fun c =>
      match c.callback with
      | .offline _ => true
      | _ => false
  | _ => false

/-- No connect fails at once, and every offline notice is taken by the pipe it is written to. -/
def HandsOver (s : Server) (x : Env × Event) : Prop :=
  x.1.connect ≠ .failed ∧ (s.answersOffline x.2 = true → ∀ n, x.1.write n = .full)

variable {R} {s t : Server} {x : Env × Event}

theorem path_redisCallback {env : Env} {w i : ℕ} {reply : Option RedisReply} {cmd : RedisCommand}
    (hk : s.registry.KnownLive) (hok : s.HandsOver (env, .redisReply w i reply))
    (hc : (s.workThread w).redis[i]? = some cmd)
    (ht : redisCallback R env (s.takeCommand w i cmd reply) reply cmd.callback = some t) :
    Path (s.books []) (t.books []) := by
  have hku : (s.takeCommand w i cmd reply).registry.KnownLive := by
    rw [registry_takeCommand]
    exact hk
  cases hcb : cmd.callback with
  | login d =>
    rw [hcb] at ht
    obtain rfl := Option.some.inj ht
    apply (path_takeCommand reply hc (n := d.seq) (by rw [hcb]; rfl)).trans
    exact path_redisLoginCallback R hku hok.1
  | trans d =>
    rw [hcb] at ht
    obtain ⟨r, -, rfl⟩ := Option.map_eq_some_iff.mp ht
    apply (path_takeCommand reply hc (n := d.seq) (by rw [hcb]; rfl)).trans
    split_ifs
    · exact path_httpTransCheck R hok.1
    · exact path_transmit env _ d.toTransData []
  | online info =>
    rw [hcb] at ht
    rw [← books_takeCommand reply hc (by rw [hcb]; rfl)]
    exact path_redisOnlineNotify R ht
  | offline info =>
    rw [hcb] at ht
    rw [← books_takeCommand reply hc (by rw [hcb]; rfl)]
    apply path_redisOfflineNotify R _ ht
    apply hok.2
    simp [answersOffline, hc, hcb]

/-- One callback, from a state in which the keys are live. -/
theorem path_step (hk : s.registry.KnownLive) (hok : s.HandsOver x)
    (ht : step R s x = some t) : Path (s.books []) (t.books []) := by
  obtain ⟨env, ev⟩ := x
  rcases step_cases R ht with hq | ha
  · cases hq with
    | acceptConn fd =>
      unfold acceptCallback
      split_ifs
      · exact Path.of_eq (books_notifyNewConn env fd s _ [])
      · exact Path.of_eq rfl
      · exact Path.of_eq rfl
    | timer =>
      exact path_foldl (fun u j => Path.of_eq (books_notifyNewConn env (-2) u j [])) _ s
    | stop w => exact Path.of_eq (books_notifyNewConn env (-1) s w [])
    | newConn w => exact Path.of_eq (books_newConnLoop _ 0 hk)
    | newMsg w => exact path_newMsgLoop _ hk rfl
    | clientEvent flags hb =>
      exact Path.of_eq (books_bufferEventEventCallback (client_of_lookup hb))
  cases ha with
  | clientRead hb ht => exact path_bufferEventReadCallback R (client_of_lookup hb) ht
  | redisReply hc ht => exact path_redisCallback hk hok hc ht
  | loginRead d hb => exact path_httpLoginRead R hk (by simp [checkNumber, hb, Owner.number])
  | transRead d hb => exact path_httpTransRead R (by simp [checkNumber, hb, Owner.number])
  | loginEvent d sent hb =>
    exact path_httpLoginEvent R (by simp [checkNumber, hb, Owner.number])
  | transEvent d sent hb =>
    exact path_httpTransEvent R (by simp [checkNumber, hb, Owner.number])

theorem sound_books_started (h : s.Started) : (s.books []).Sound := by
  obtain ⟨num, cap, ping, url, heart, rfl⟩ := h
  constructor
  · intro n hn
    cases hn
  · intro n _ q
    cases q <;> simp [books, start, checkNumber]

/-- A step that frees what is dead is one whose connect fails at once. -/
theorem freed_live_step (hk : s.registry.KnownLive) (hf : s.FreshLogin R x)
    (hc : x.1.connect ≠ .failed) (ht : step R s x = some t)
    (h : ∀ b live, Obs.freed b live ∈ s.log → live = true) :
    ∀ b live, Obs.freed b live ∈ t.log → live = true := by
  have hcare : Careful (fun o => ∃ b, o = .useAfterFree b) x.2.check s t := by
    apply careful_step hk hf _ (fun _ _ b => ⟨b, rfl⟩) (fun d _ _ => Or.inr ⟨d.bev, rfl⟩) ht
    intro w i reply _ hno
    simp [hc] at hno
  obtain ⟨added, hl, hadd⟩ := hcare.log
  intro b live hm
  rw [hl] at hm
  rcases List.mem_append.mp hm with hold | hnew
  · exact h b live hold
  · rcases hadd _ hnew with hclean | ⟨a, ha⟩
    · exact hclean
    · cases ha

/-- What the runs keep that release every record once: the keys are live, every record has one
holder or was deleted once, no bufferevent was freed twice, and no parser keeps a record. -/
structure Released (s : Server) : Prop where
  knownLive : s.registry.KnownLive
  sound : (s.books []).Sound
  freed : ∀ b live, Obs.freed b live ∈ s.log → live = true
  unmixed : s.Unmixed

theorem released_started (h : s.Started) : s.Released where
  knownLive := registry_started h ▸ Registry.knownLive_start _
  sound := sound_books_started h
  freed := by
    obtain ⟨num, cap, ping, url, heart, rfl⟩ := h
    intro b live hm
    cases hm
  unmixed := unmixed_started h

theorem Released.step (h : s.Released) (hf : s.FreshLogin R x) (hok : s.HandsOver x)
    (ht : step R s x = some t) : t.Released where
  knownLive := knownLive_step h.knownLive hf ht
  sound := h.sound.path (path_step h.knownLive hok ht)
  freed := freed_live_step h.knownLive hf hok.1 ht h.freed
  unmixed := h.unmixed.step ht

end Step

end Server

end EglComet
