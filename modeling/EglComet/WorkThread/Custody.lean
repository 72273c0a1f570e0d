import EglComet.WorkThread.Isolation
import EglComet.WorkThread.Records

/-!
Where the record of a client is. It waits for redis, for the HTTP service or in
the pipe of one worker, or it is finished: it has been sent or deleted. A
callback takes it from one place and leaves it in at most one other.
-/
namespace EglComet

open Protobuf MachineInt

/-- The number of the record of a client that an entry of the history deletes. -/
def Obs.disposed : Obs → Option ℕ
  | .deletedTrans d => d.number
  | _ => none

/-- An item neither holds record `n` nor is its answer or its deletion. -/
def Item.Spares (n : ℕ) (i : Item) : Prop :=
  i.number ≠ some n ∧ (∀ e, i = .sent e → e.source.number ≠ some n) ∧
    ∀ o, i = .obs o → o.disposed ≠ some n

theorem Item.spares_sent {n : ℕ} {e : Sent} (h : e.source.number ≠ some n) :
    (Item.sent e).Spares n := by
  simpa [Item.Spares, Item.number] using h

theorem Item.spares_deletion {n : ℕ} {d : TransData} (h : d.number ≠ some n) :
    (Item.obs (.deletedTrans d)).Spares n := by
  simpa [Item.Spares, Item.number, Obs.disposed] using h

theorem tolerant_spares (n : ℕ) : Tolerant (Item.Spares n) where
  obs o ho := by
    cases o with
    | enqueued w d =>
      have hd : d.origin = .server := by simpa [Obs.minor] using ho
      simp [Item.Spares, Item.number, Obs.disposed, TransData.number, hd]
    | deletedTrans d =>
      have hd : d.origin = .server := by simpa [Obs.minor] using ho
      exact Item.spares_deletion (by simp [TransData.number, hd])
    | accepted | loginRead | heartbeat | relayRead | redisAnswer | relationRequest | relationAnswer
    | registered | friendList | closed | expired | freed | useAfterFree | eraseEnd
    | deletedLogin => simp [Item.Spares, Item.number, Obs.disposed]
  offline w id := by simp [Item.Spares, Item.number, RedisCallback.number]
  client w conn := by simp [Item.Spares, Item.number, Owner.number]
  sent e he := Item.spares_sent (by simp [he])

/-- What may be added when at most the answer to record `n` is sent. -/
theorem tolerant_number (n : ℕ) : Tolerant fun i => i.number ≠ some n where
  obs o ho := ((tolerant_spares n).obs o ho).1
  offline w id := ((tolerant_spares n).offline w id).1
  client w conn := ((tolerant_spares n).client w conn).1
  sent e _ := by simp [Item.number]

namespace Server

/-- How often record `n` is in a place; and, without one, how often it is finished: how often it was
sent or answered, but once if it was deleted. -/
def tally (s : Server) (n : ℕ) : Option Place → ℕ
  | some p => s.copies n p
  | none => max (s.sent.countP fun e => e.source.number = some n)
      (min 1 (s.log.countP fun o => o.disposed = some n))

theorem countP_sent_le (s : Server) (n : ℕ) :
    (s.sent.countP fun e => e.source.number = some n) ≤ s.tally n none := le_max_left _ _

theorem tally_pos_of_sent {s : Server} {n : ℕ} {e : Sent} (he : e ∈ s.sent)
    (hn : e.source.number = some n) : 0 < s.tally n none :=
  (List.countP_pos_iff.mpr ⟨e, he, decide_eq_true hn⟩).trans_le (s.countP_sent_le n)

theorem tally_pos_of_deleted {s : Server} {n : ℕ} {d : TransData} (h : .deletedTrans d ∈ s.log)
    (hn : d.number = some n) : 0 < s.tally n none := by
  have hpos : 0 < s.log.countP fun o => o.disposed = some n :=
    List.countP_pos_iff.mpr ⟨_, h, decide_eq_true hn⟩
  simp only [tally]
  omega

/-- Record `n` is nowhere. -/
def InHand (s : Server) (n : ℕ) : Prop := ∀ q, s.tally n q = 0

/-- Record `n` is in one place at most, or is finished and was sent at most once. -/
def Once (s : Server) (n : ℕ) : Prop := ∃ o, ∀ q, s.tally n q ≤ if q = o then 1 else 0

/-- Between two states record `n` was left in no new place. -/
def Keeps (n : ℕ) (s t : Server) : Prop := ∀ q, t.tally n q ≤ s.tally n q

/-- Between two states record `n` was left at most once, in place `o`. -/
def Adds (n : ℕ) (o : Option Place) (s t : Server) : Prop :=
  ∀ q, t.tally n q ≤ s.tally n q + if q = o then 1 else 0

/-- Every record is in one place at most, and a number not given out yet is nowhere. -/
structure Custody (s : Server) : Prop where
  once : ∀ n, s.Once n
  fresh : ∀ n, s.nextSeq ≤ n → s.InHand n

section Moves

variable {n : ℕ} {o : Option Place} {s t u : Server}

theorem Keeps.adds (h : Keeps n s t) (h' : Adds n o t u) : Adds n o s u :=
  fun q => (h' q).trans (Nat.add_le_add_right (h q) _)

theorem Adds.keeps (h : Adds n o s t) (h' : Keeps n t u) : Adds n o s u :=
  fun q => (h' q).trans (h q)

theorem Keeps.adds_self (h : Keeps n s t) (o : Option Place) : Adds n o s t :=
  fun q => (h q).trans (Nat.le_add_right _ _)

theorem Keeps.refl (n : ℕ) (s : Server) : Keeps n s s := fun _ => le_rfl

theorem InHand.keeps (h : s.InHand n) (hk : Keeps n s t) : t.InHand n :=
  fun q => Nat.eq_zero_of_le_zero ((hk q).trans (h q).le)

theorem InHand.adds (h : s.InHand n) (ha : Adds n o s t) : t.Once n :=
  ⟨o, fun q => by simpa [h q] using ha q⟩

theorem InHand.once (h : s.InHand n) : s.Once n := h.adds ((Keeps.refl n s).adds_self none)

theorem Once.keeps (h : s.Once n) (hk : Keeps n s t) : t.Once n := by
  obtain ⟨o, ho⟩ := h
  exact ⟨o, fun q => (hk q).trans (ho q)⟩

/-- The place that has a record is the only one. -/
theorem Once.elsewhere (h : s.Once n) {p : Option Place} (hp : 0 < s.tally n p) :
    ∀ q, s.tally n q ≤ if q = p then 1 else 0 := by
  obtain ⟨o, ho⟩ := h
  have hpo : p = o := by
    by_contra hne
    have hle := ho p
    rw [if_neg hne] at hle
    omega
  exact hpo ▸ ho

/-- A record that is taken from its place is in hand. -/
theorem Once.take (h : s.Once n) (hk : Keeps n s t) {p : Option Place}
    (hp : t.tally n p < s.tally n p) : t.InHand n := by
  have hone := h.elsewhere (Nat.zero_lt_of_lt hp)
  intro q
  have hq := hone q
  have hkq := hk q
  split_ifs at hq with hqp
  · subst hqp
    omega
  · omega

/-- A record that is somewhere has a number that was given out. -/
theorem Custody.lt_nextSeq (h : s.Custody) {p : Option Place} (hp : 0 < s.tally n p) :
    n < s.nextSeq := by
  by_contra hn
  have hz := h.fresh n (not_lt.mp hn) p
  omega

theorem keeps_of_grows (hg : Grows (Item.Spares n) s t) : Keeps n s t := by
  intro q
  cases q with
  | some p =>
    rcases hg.copies n p with hle | ⟨i, hi, hn⟩
    · exact hle
    · exact absurd hn hi.1
  | none =>
    obtain ⟨added, hs, hadd⟩ := hg.sent
    obtain ⟨entries, hl, hentry⟩ := hg.log
    have hsent : added.countP (fun e => e.source.number = some n) = 0 := by
      rw [List.countP_eq_zero]
      intro e he
      simpa using (hadd e he).2.1 e rfl
    have hlog : entries.countP (fun o => o.disposed = some n) = 0 := by
      rw [List.countP_eq_zero]
      intro o ho
      simpa using (hentry o ho).2.2 o rfl
    simp only [tally, hs, hl, List.countP_append, hsent, hlog]
    exact le_rfl

/-- A change that concerns one record at most, which was somewhere, and spares the others. -/
theorem Custody.moves (h : s.Custody) {m : Option ℕ}
    (hother : ∀ n, m ≠ some n → Grows (Item.Spares n) s t)
    (hself : ∀ n, m = some n → t.Once n ∧ ∃ p, 0 < s.tally n p) : t.Custody := by
  have hseq : s.nextSeq ≤ t.nextSeq := by
    obtain ⟨n, hn⟩ : ∃ n, m ≠ some n := by
      cases m with
      | none => exact ⟨0, by simp⟩
      | some k => exact ⟨k + 1, by simp⟩
    exact (hother n hn).nextSeq
  constructor
  · intro n
    by_cases hn : m = some n
    · exact (hself n hn).1
    · exact (h.once n).keeps (keeps_of_grows (hother n hn))
  · intro n hle
    by_cases hn : m = some n
    · obtain ⟨-, p, hp⟩ := hself n hn
      have hlt := h.lt_nextSeq hp
      omega
    · exact (h.fresh n (hseq.trans hle)).keeps (keeps_of_grows (hother n hn))

/-- One entry in the history of what was sent is one place. -/
theorem adds_of_sent (hg : Grows (fun i => i.number ≠ some n) s t)
    (hs : ∃ l, t.sent = s.sent ++ l ∧ l.length ≤ 1) : Adds n none s t := by
  intro q
  cases q with
  | some p =>
    rcases hg.copies n p with hle | ⟨i, hi, hn⟩
    · exact hle.trans (Nat.le_add_right _ _)
    · exact absurd hn hi
  | none =>
    obtain ⟨l, hl, hlen⟩ := hs
    have hone : l.countP (fun e => e.source.number = some n) ≤ 1 :=
      List.countP_le_length.trans hlen
    simp only [tally, hl, List.countP_append, ↓reduceIte]
    omega

/-- A deletion finishes one record. -/
theorem adds_deleteTrans (n : ℕ) (s : Server) (d : TransData) :
    Adds n none s (s.deleteTrans d) := by
  apply adds_of_sent (grows_deleteTrans (by simp [Item.number]))
  exact ⟨[], by simp [deleteTrans, emit], by simp⟩

/-- A record that is deleted again stays finished. -/
theorem keeps_deleteTrans {d : TransData} (h : .deletedTrans d ∈ s.log) :
    Keeps n s (s.deleteTrans d) := by
  by_cases hn : d.number = some n
  · intro q
    cases q with
    | some p => exact le_rfl
    | none =>
      have hpos := tally_pos_of_deleted h hn
      simp only [tally, deleteTrans, emit] at hpos ⊢
      omega
  · exact keeps_of_grows (grows_deleteTrans (Item.spares_deletion hn))

theorem keeps_emit {o : Obs} (ho : o.disposed = none) : Keeps n s (s.emit o) := by
  intro q
  cases q with
  | some p => exact le_rfl
  | none => simp [tally, emit, ho]

/-- A worker that gets at most one more record in the place `p` of its own. -/
theorem adds_modify {w : ℕ} {f : WorkThread → WorkThread} {p : Place}
    (hr : (f (s.workThread w)).redis.countP (fun c => c.callback.number = some n) ≤
      s.copies n (.redis w) + if p = .redis w then 1 else 0)
    (hq : (f (s.workThread w)).newMsgFd.countP (fun d => d.number = some n) ≤
      s.copies n (.queue w) + if p = .queue w then 1 else 0) :
    Adds n (some p) s (s.modify w f) := by
  intro q
  match q with
  | none => exact Nat.le_add_right _ _
  | some (.http h) => exact Nat.le_add_right _ _
  | some (.redis v) =>
    simp only [tally, (copies_modify s n v w f).1, Option.some.injEq, eq_comm (b := p)]
    by_cases hv : v = w
    · subst hv
      rwa [if_pos rfl]
    · rw [if_neg hv]
      exact Nat.le_add_right _ _
  | some (.queue v) =>
    simp only [tally, (copies_modify s n v w f).2, Option.some.injEq, eq_comm (b := p)]
    by_cases hv : v = w
    · subst hv
      rwa [if_pos rfl]
    · rw [if_neg hv]
      exact Nat.le_add_right _ _

theorem adds_redisAsyncCommand (n : ℕ) (s : Server) (w : ℕ) (c : RedisCommand) :
    Adds n (some (.redis w)) s (s.redisAsyncCommand w c) := by
  apply adds_modify
  · rw [List.countP_append, if_pos rfl]
    exact Nat.add_le_add_left List.countP_le_length _
  · exact Nat.le_add_right _ _

theorem adds_enqueue (n : ℕ) (s : Server) (j : ℕ) (d : TransData) :
    Adds n (some (.queue j)) s (s.enqueue j d) := by
  refine Adds.keeps (t := s.modify j fun t => { t with newMsgFd := t.newMsgFd ++ [d] }) ?_
    (keeps_emit rfl)
  apply adds_modify
  · exact Nat.le_add_right _ _
  · rw [List.countP_append, if_pos rfl]
    exact Nat.add_le_add_left List.countP_le_length _

theorem adds_transmit (n : ℕ) (env : Env) (s : Server) (d : TransData) :
    ∃ o, Adds n o s (s.transmit env d) := by
  rw [transmit_eq]
  split
  · rename_i j m _
    refine ⟨some (.queue j), ?_⟩
    exact (keeps_of_grows (grows_setWrites m)).adds (adds_enqueue n _ j d)
  · exact ⟨none, (keeps_of_grows (grows_setWrites _)).adds (adds_deleteTrans n _ d)⟩

theorem adds_insert (n : ℕ) (s : Server) (h : Addr) (be : BufferEvent) :
    Adds n (some (.http h)) s (s.setHeap (s.heap.insert h be)) := by
  intro q
  match q with
  | none => exact Nat.le_add_right _ _
  | some (.redis v) => exact Nat.le_add_right _ _
  | some (.queue v) => exact Nat.le_add_right _ _
  | some (.http a) =>
    simp only [tally, copies, setHeap, Table.lookup_insert_eq, Option.some.injEq, Place.http.injEq]
    split_ifs
    · exact List.countP_le_length.trans (Nat.le_add_left _ _)
    · exact le_rfl

/-- A check that goes on keeps its record where it is. -/
theorem keeps_replace {h : Addr} {be be' : BufferEvent} (hb : s.heap.lookup h = some be)
    (ho : be'.owner.number = be.owner.number) : Keeps n s (s.setHeap (s.heap.insert h be')) := by
  intro q
  match q with
  | none => exact le_rfl
  | some (.redis v) => exact le_rfl
  | some (.queue v) => exact le_rfl
  | some (.http a) =>
    simp only [tally, copies, setHeap, Table.lookup_insert_eq]
    split_ifs with ha
    · subst ha
      simp [hb, ho]
    · exact le_rfl

/-- A check that ends, with its record in hand. -/
theorem Once.take_free (hs : s.Once n) {h : Addr} {be : BufferEvent}
    (hb : s.heap.lookup h = some be) (hn : be.owner.number = some n) (hk : Keeps n s t) :
    (t.bufferEventFree h).InHand n := by
  have hfree := keeps_of_grows (grows_bufferEventFree (tolerant_spares n) (s := t) (b := h))
  apply hs.take (fun q => (hfree q).trans (hk q)) (p := some (.http h))
  simp [tally, copies, bufferEventFree, setHeap, hb, hn]

/-- A check that ends, with its record left in at most one other place. -/
theorem Once.free (hs : s.Once n) {h : Addr} {be : BufferEvent} (hb : s.heap.lookup h = some be)
    (hn : be.owner.number = some n) (ha : Adds n o s t) : (t.bufferEventFree h).Once n := by
  have hone := hs.elsewhere (p := some (.http h)) (by simp [tally, copies, hb, hn])
  refine ⟨o, fun q => ?_⟩
  have hk := keeps_of_grows (grows_bufferEventFree (tolerant_spares n) (s := t) (b := h)) q
  by_cases hq : q = some (.http h)
  · have hz : (t.bufferEventFree h).tally n q = 0 := by
      subst hq
      simp [tally, copies, bufferEventFree, setHeap]
    omega
  · have hz := hone q
    rw [if_neg hq] at hz
    have haq := ha q
    omega

end Moves

section Takes

variable {n w : ℕ} {s : Server}

/-- The record that an answered command waited for is in hand when its callback runs. -/
theorem Once.takeCommand (h : s.Once n) {i : ℕ} {cmd : RedisCommand} (reply : Option RedisReply)
    (hc : (s.workThread w).redis[i]? = some cmd) (hn : cmd.callback.number = some n) :
    (s.takeCommand w i cmd reply).InHand n := by
  apply h.take (p := some (.redis w)) (keeps_of_grows (grows_takeCommand (tolerant_spares n) hc
    (by simp [Item.Spares, Item.number])))
  obtain ⟨hi, hget⟩ := List.getElem?_eq_some_iff.mp hc
  have hperm := (List.getElem_cons_eraseIdx_perm hi).countP_eq
    fun c => decide (c.callback.number = some n)
  rw [hget, List.countP_cons_of_pos (by simpa using hn)] at hperm
  change ((s.modify w fun t => { t with redis := t.redis.eraseIdx i }).copies n (.redis w)) < _
  rw [(copies_modify s n w w _).1, if_pos rfl]
  exact Nat.lt_of_succ_le hperm.le

/-- The record at the head of a pipe is in hand when it was read. -/
theorem Once.pop (h : s.Once n) {d : TransData} {ds : List TransData}
    (hq : (s.workThread w).newMsgFd = d :: ds) (hn : d.number = some n) :
    (s.modify w fun t => { t with newMsgFd := ds }).InHand n := by
  apply h.take (p := some (.queue w))
    (keeps_of_grows (grows_pop (by simp [Item.Spares, Item.number]) hq))
  change ((s.modify w fun t => { t with newMsgFd := ds }).copies n (.queue w)) < _
  rw [(copies_modify s n w w _).2, if_pos rfl]
  simp [tally, copies, hq, hn]

end Takes

section Callbacks

variable {n : ℕ} {s t : Server} {env : Env}

theorem adds_handleMsg (n w : ℕ) (s : Server) (d : TransData) :
    Adds n none s (handleMsg w s d) := by
  apply adds_of_sent (grows_handleMsg (tolerant_number n) (fun _ => by simp [Item.number])
    (by simp [Item.number]))
  refine ⟨_, sent_handleMsg w s d, ?_⟩
  split
  · exact length_entryAt _ _ _ _
  · simp

theorem Custody.newMsgLoop {w : ℕ} (msgs : List TransData) (h : s.Custody)
    (hq : (s.workThread w).newMsgFd = msgs) : (newMsgLoop w msgs s).Custody := by
  induction msgs generalizing s with
  | nil => exact h
  | cons d ds ih =>
    apply ih
    · apply h.moves (m := d.number)
      · intro n hn
        exact (grows_pop (by simp [Item.Spares, Item.number]) hq).trans
          (grows_handleMsg (tolerant_spares n) (fun _ => Item.spares_sent hn)
            (Item.spares_deletion hn))
      · intro n hn
        refine ⟨((h.once n).pop hq hn).adds (adds_handleMsg n w _ d), some (.queue w), ?_⟩
        simp [tally, copies, hq, hn]
    · rw [newMsgFd_handleMsg]
      simp [modify]

section Logins

variable {σ : Type} (R : Runtime σ) {d : LoginData} {h : Addr}

theorem adds_replyLogin (n : ℕ) (env : Env) (s : Server) (d : LoginData) (ok : Bool)
    (msg : String) : Adds n none s (s.replyLogin R env d ok msg) := by
  apply adds_of_sent (grows_replyLogin R (tolerant_number n) fun _ _ _ => by simp [Item.number])
  obtain ⟨bs, hs⟩ := sent_replyLogin R env s d ok msg
  exact ⟨_, hs, length_entryAt _ _ _ _⟩

theorem adds_registerLogin (n : ℕ) (env : Env) (s : Server) (d : LoginData) (js : List ℕ) :
    Adds n none s (s.registerLogin R env d js) := by
  apply adds_of_sent (grows_registerLogin R (tolerant_number n) _)
  · obtain ⟨bs, hs⟩ := sent_registerLogin R env s d js
    exact ⟨_, hs, length_entryAt _ _ _ _⟩
  · constructor <;> simp [Item.number, RedisCallback.number]

theorem keeps_deleteLogin (n : ℕ) (s : Server) (d : LoginData) : Keeps n s (s.deleteLogin d) :=
  keeps_of_grows (grows_deleteLogin (tolerant_spares n))

theorem keeps_bufferEventFree (n : ℕ) (s : Server) (b : Addr) : Keeps n s (s.bufferEventFree b) :=
  keeps_of_grows (grows_bufferEventFree (tolerant_spares n))

theorem keeps_setAnalyseReq (n w : ℕ) (s : Server) (a : AnalyseReq) :
    Keeps n s (s.setAnalyseReq w a) := by
  have hg : Grows (fun i => i = .parser w) s (s.setAnalyseReq w a) :=
    grows_setAnalyseReq (Or.inr rfl)
  apply keeps_of_grows (hg.mono _)
  rintro _ rfl
  simp [Item.Spares, Item.number]

/-- Filling the parser leaves the bufferevents alone. -/
theorem lookup_setAnalyseReq (w : ℕ) (s : Server) (a : AnalyseReq) (h : Addr) :
    (s.setAnalyseReq w a).heap.lookup h = s.heap.lookup h := rfl

/-- An HTTP check of a login keeps its record until it ends. -/
theorem Once.httpLoginEvent (hs : s.Once n) {be : BufferEvent} (hb : s.heap.lookup h = some be)
    (hd : be.owner.number = some n) (hn : d.seq = n) (env : Env) (flags : Flags) :
    (s.httpLoginEvent R env h d flags).Once n := by
  simp only [Server.httpLoginEvent]
  split_ifs
  · exact hs.free hb hd ((adds_replyLogin R n env s d false _).keeps (keeps_deleteLogin n _ d))
  · exact hs.free hb hd ((keeps_deleteLogin n s d).adds_self none)
  · have hk := hs.keeps (keeps_setAnalyseReq n d.workThread s
      (getLoginPostData R (s.workThread d.workThread).analyseReq (signed d.id) d.token
        (s.workThread d.workThread).httpUrl).2)
    rw [lookup_setAnalyseReq, hb]
    exact hk.keeps (keeps_replace hb ((congrArg some hn).trans hd.symm))
  · exact (hs.free hb hd ((keeps_setAnalyseReq n d.workThread s _).adds_self none)).keeps
      (keeps_deleteLogin n _ d)
  · exact hs

theorem InHand.httpLoginCheck (hs : s.InHand n) (hn : d.seq = n) (env : Env) :
    (s.httpLoginCheck R env d).Once n := by
  have hi := hs.adds (adds_insert n s (env.alloc.next s.heap) { owner := .httpLogin d false })
  simp only [Server.httpLoginCheck]
  split
  · exact hi
  · have he := hi.httpLoginEvent R (Finmap.lookup_insert _) (congrArg some hn) hn env
      { error := true }
    exact (he.keeps (keeps_bufferEventFree n _ _)).keeps (keeps_deleteLogin n _ d)
  · exact (hi.keeps (keeps_bufferEventFree n _ _)).keeps (keeps_deleteLogin n _ d)

theorem InHand.redisLoginCallback (hs : s.InHand n) (hn : d.seq = n) (env : Env)
    (reply : Option RedisReply) : (s.redisLoginCallback R env d reply).Once n := by
  have ht := redisLoginCallback_outcome R env s d reply
  generalize s.redisLoginCallback R env d reply = t at ht ⊢
  cases ht with
  | gone | repeated => exact hs.once.keeps (keeps_deleteLogin n s d)
  | asked => exact hs.httpLoginCheck R hn env
  | refused => exact (hs.adds (adds_replyLogin R n env s d false _)).keeps (keeps_deleteLogin n _ d)
  | accepted => exact (hs.adds (adds_registerLogin R n env s d _)).keeps (keeps_deleteLogin n _ d)

theorem Once.httpLoginRead (hs : s.Once n) {be : BufferEvent} (hb : s.heap.lookup h = some be)
    (hd : be.owner.number = some n) (env : Env) (data : Bytes) :
    (s.httpLoginRead R env h d data).Once n := by
  have ht := httpLoginRead_verdict R env s h d data
  generalize s.httpLoginRead R env h d data = t at ht ⊢
  cases ht with
  | gone => exact (hs.free hb hd ((Keeps.refl n s).adds_self none)).keeps (keeps_deleteLogin n _ d)
  | accepted _ _ a =>
    exact (hs.free hb hd ((keeps_setAnalyseReq n _ s a).adds
      (adds_registerLogin R n env _ d _))).keeps (keeps_deleteLogin n _ d)
  | refused _ _ a =>
    exact (hs.free hb hd ((keeps_setAnalyseReq n _ s a).adds
      (adds_replyLogin R n env _ d false _))).keeps (keeps_deleteLogin n _ d)

end Logins

section Relays

variable {σ : Type} (R : Runtime σ) {d : Relay} {h : Addr}

theorem Once.httpTransEvent (hs : s.Once n) {be : BufferEvent} (hb : s.heap.lookup h = some be)
    (hd : be.owner.number = some n) (hn : d.seq = n) (env : Env) (flags : Flags) :
    (s.httpTransEvent R env h d flags).Once n := by
  simp only [Server.httpTransEvent]
  split_ifs
  · exact hs.free hb hd (adds_deleteTrans n s _)
  · have hk := hs.keeps (keeps_setAnalyseReq n d.workThread s
      (getRelationPostData R (s.workThread d.workThread).analyseReq (signed d.fromId)
        (signed d.toId) (s.workThread d.workThread).httpUrl).2)
    rw [lookup_setAnalyseReq, hb]
    exact (hk.keeps (keeps_emit rfl)).keeps (keeps_replace hb ((congrArg some hn).trans hd.symm))
  · exact (hs.take_free hb hd (keeps_setAnalyseReq n d.workThread s _)).adds
      (adds_deleteTrans n _ _)
  · exact hs

theorem InHand.httpTransCheck (hs : s.InHand n) (hn : d.seq = n) (env : Env) :
    (s.httpTransCheck R env d).Once n := by
  have hi := hs.adds (adds_insert n s (env.alloc.next s.heap) { owner := .httpTrans d false })
  simp only [Server.httpTransCheck]
  split
  · exact hi
  · have he := hi.httpTransEvent R (Finmap.lookup_insert _) (congrArg some hn) hn env
      { error := true }
    refine (he.keeps (keeps_bufferEventFree n _ _)).keeps (keeps_deleteTrans ?_)
    simp [Server.httpTransEvent, bufferEventFree, setHeap, deleteTrans, emit]
  · exact (hi.take_free (Finmap.lookup_insert _) (congrArg some hn) (Keeps.refl n _)).adds
      (adds_deleteTrans n _ _)

theorem Once.httpTransRead (hs : s.Once n) {be : BufferEvent} (hb : s.heap.lookup h = some be)
    (hd : be.owner.number = some n) (env : Env) (data : Bytes) :
    (s.httpTransRead R env h d data).Once n := by
  have hk : Keeps n s ((s.setAnalyseReq d.workThread
      (analyseRelationData R (s.workThread d.workThread).analyseReq data).2).emit
        (.relationAnswer d data
          (analyseRelationData R (s.workThread d.workThread).analyseReq data).1)) :=
    fun q => (keeps_emit rfl q).trans (keeps_setAnalyseReq n d.workThread s _ q)
  simp only [Server.httpTransRead]
  generalize (s.setAnalyseReq d.workThread _).emit _ = u at hk ⊢
  split_ifs
  · obtain ⟨o, ho⟩ := adds_transmit n env u d.toTransData
    exact hs.free hb hd (hk.adds ho)
  · exact hs.free hb hd (hk.adds (adds_deleteTrans n u _))

theorem InHand.redisTransCallback (hs : s.InHand n) (hn : d.seq = n) (env : Env)
    {reply : Option RedisReply} (ht : s.redisTransCallback R env d reply = some t) : t.Once n := by
  obtain ⟨r, -, rfl⟩ := Option.map_eq_some_iff.mp ht
  split_ifs
  · exact hs.httpTransCheck R hn env
  · obtain ⟨o, ho⟩ := adds_transmit n env s d.toTransData
    exact hs.adds ho

end Relays

section Reads

variable {w conn : ℕ} {b : Addr} {id : UInt64}

/-- Reading a frame gives its record the next number and leaves it in one place at most. -/
theorem Custody.read (h : s.Custody) (hseq : t.nextSeq = s.nextSeq + 1)
    (hother : ∀ n, n ≠ s.nextSeq → Grows (Item.Spares n) s t) {o : Option Place}
    (hself : Adds s.nextSeq o s t) : t.Custody := by
  constructor
  · intro n
    by_cases hn : n = s.nextSeq
    · subst hn
      exact (h.fresh _ le_rfl).adds hself
    · exact (h.once n).keeps (keeps_of_grows (hother n hn))
  · intro n hle
    exact (h.fresh n (by omega)).keeps (keeps_of_grows (hother n (by omega)))

theorem Custody.startLogin (h : s.Custody) (d : Option LoginData) :
    (startLogin w b conn s d).Custody := by
  cases d with
  | none => exact h
  | some l =>
    refine h.read rfl ?_ (o := some (.redis w)) ?_
    · intro n hn
      apply grows_startLogin
      rintro _ ⟨⟩
      constructor
      · simp [Item.Spares, Item.number, RedisCallback.number, stampLogin, hn.symm]
      · simp [Item.Spares, Item.number, Obs.disposed]
    · exact (adds_redisAsyncCommand _ _ w _).keeps (keeps_emit rfl)

theorem nextSeq_transmit (env : Env) (s : Server) (d : TransData) :
    (s.transmit env d).nextSeq = s.nextSeq := by
  rw [transmit_eq]
  split <;> rfl

theorem Custody.startTrans (h : s.Custody) (d : Option TransData) :
    (startTrans env w b id s d).Custody := by
  cases d with
  | none => exact h
  | some l =>
    have hother : ∀ n, n ≠ s.nextSeq →
        Grows (Item.Spares n) s (Server.startTrans env w b id s (some l)) := by
      intro n hn
      apply grows_startTrans <;> rintro _ ⟨⟩
      · simp [Item.Spares, Item.number, Obs.disposed]
      · simp [Item.Spares, Item.number, RedisCallback.number, stampRelay, hn.symm]
      · simp [Item.Spares, Item.number, Obs.disposed, TransData.number, stampRelay, hn.symm]
      · exact Item.spares_deletion (by simpa [TransData.number, stampRelay] using hn.symm)
    have hread : ∀ o : Obs, o.disposed = none →
        Keeps s.nextSeq s ({ s with nextSeq := s.nextSeq + 1 }.emit o) :=
      fun _ ho => keeps_emit (s := { s with nextSeq := s.nextSeq + 1 }) ho
    revert hother
    simp only [Server.startTrans]
    intro hother
    split_ifs at hother ⊢
    · obtain ⟨o, ho⟩ := adds_transmit s.nextSeq env ({ s with nextSeq := s.nextSeq + 1 }.emit
        (.relayRead w b (((s.workThread w).bevId.lookup b).getD 0) (stampRelay w s.nextSeq l)))
          (stampRelay w s.nextSeq l).toTransData
      exact h.read (nextSeq_transmit env _ _) hother ((hread _ rfl).adds ho)
    · exact h.read rfl hother ((hread _ rfl).adds (adds_redisAsyncCommand _ _ w _))
    · exact h.read rfl hother ((hread _ rfl).adds (adds_deleteTrans _ _ _))

theorem Custody.refreshHeartbeat {isHeart : Bool} (h : s.Custody) :
    (refreshHeartbeat env w b id s isHeart).Custody := by
  apply h.moves (m := none)
  · intro n _
    apply grows_refreshHeartbeat
    intro _ _ _ _
    simp [Item.Spares, Item.number, Obs.disposed]
  · simp

theorem Custody.handleRequest {r : Analysed} (h : s.Custody) :
    (handleRequest env w b conn id s r).Custody :=
  ((h.startLogin _).refreshHeartbeat).startTrans _

end Reads

end Callbacks

section Step

variable {σ : Type} {R : Runtime σ} {s t : Server} {x : Env × Event}

/-- The number of the record whose check an event goes on with. -/
def checkedNumber (s : Server) (ev : Event) : Option ℕ :=
  match ev with
  | .redisReply w i _ => (s.workThread w).redis[i]?.bind fun c => c.callback.number
  | .httpRead h _ => (s.heap.lookup h).bind fun be => be.owner.number
  | .httpEvent h _ => (s.heap.lookup h).bind fun be => be.owner.number
  | _ => none

theorem checkedNumber_login {ev : Event} {d : LoginData} (h : d ∈ s.checkedLogin ev) :
    s.checkedNumber ev = some d.seq := by
  cases ev with
  | redisReply w i reply =>
    obtain ⟨c, hc, hd⟩ := Option.bind_eq_some_iff.mp h
    simp [checkedNumber, hc, RedisCallback.number_of_loginData hd]
  | httpRead a chunk =>
    obtain ⟨be, hb, hd⟩ := Option.bind_eq_some_iff.mp h
    simp [checkedNumber, hb, Owner.number_of_loginData hd]
  | httpEvent a flags =>
    obtain ⟨be, hb, hd⟩ := Option.bind_eq_some_iff.mp h
    simp [checkedNumber, hb, Owner.number_of_loginData hd]
  | acceptConn | timer | stop | newConn | newMsg | clientRead | clientEvent =>
    simp [checkedLogin] at h

theorem checkedNumber_relay {ev : Event} {d : Relay} (h : d ∈ s.checkedRelay ev) :
    s.checkedNumber ev = some d.seq := by
  cases ev with
  | redisReply w i reply =>
    obtain ⟨c, hc, hd⟩ := Option.bind_eq_some_iff.mp h
    simp [checkedNumber, hc, RedisCallback.number_of_transData hd]
  | httpRead a chunk =>
    obtain ⟨be, hb, hd⟩ := Option.bind_eq_some_iff.mp h
    simp [checkedNumber, hb, Owner.number_of_transData hd]
  | httpEvent a flags =>
    obtain ⟨be, hb, hd⟩ := Option.bind_eq_some_iff.mp h
    simp [checkedNumber, hb, Owner.number_of_transData hd]
  | acceptConn | timer | stop | newConn | newMsg | clientRead | clientEvent =>
    simp [checkedRelay] at h

theorem permits_spares {n : ℕ} (hn : s.checkedNumber x.2 ≠ some n)
    (hx : ∀ w b conn buffer, ¬ s.Reads x w b conn buffer)
    (hm : ∀ w, x.2 = .newMsg w → ∀ d ∈ (s.workThread w).newMsgFd, d.number ≠ some n) :
    s.Permits R x (Item.Spares n) where
  toTolerant := tolerant_spares n
  conns _ _ := by simp [Item.Spares, Item.number]
  taken _ _ _ _ _ _ := by simp [Item.Spares, Item.number]
  popped _ _ := by simp [Item.Spares, Item.number]
  forwarded w hw d hd conn := Item.spares_sent (hm w hw d hd)
  handled w hw d hd := Item.spares_deletion (hm w hw d hd)
  parser w b conn buffer hread := absurd hread (hx w b conn buffer)
  login w b conn buffer _ _ _ _ hread := absurd hread (hx w b conn buffer)
  heartbeat w b conn buffer _ _ _ _ hread := absurd hread (hx w b conn buffer)
  relay w b conn buffer _ _ _ _ hread := absurd hread (hx w b conn buffer)
  loginOwner d hd sent := by
    rw [checkedNumber_login hd] at hn
    simpa [Item.Spares, Item.number, Owner.number] using hn
  refused d hd _ _ _ := by
    rw [checkedNumber_login hd] at hn
    exact Item.spares_sent hn
  admitted d hd := by
    rw [checkedNumber_login (approval_checked R hd).1] at hn
    constructor
    · simp [Item.Spares, Item.number, Obs.disposed]
    · simp [Item.Spares, Item.number]
    · simp [Item.Spares, Item.number, RedisCallback.number]
    · exact fun conn bs _ => Item.spares_sent hn
  transOwner d hd sent := by
    rw [checkedNumber_relay hd] at hn
    simpa [Item.Spares, Item.number, Owner.number] using hn
  enqueued d hd _ := by
    rw [checkedNumber_relay hd] at hn
    refine ⟨fun h => hn ?_, by simp, by simp [Obs.disposed]⟩
    exact congrArg some (TransData.number_eq_some.mp h).2
  dropped d hd := by
    rw [checkedNumber_relay hd] at hn
    refine Item.spares_deletion fun h => hn ?_
    exact congrArg some (TransData.number_eq_some.mp h).2
  friends _ _ _ _ _ _ _ _ _ := by simp [Item.Spares, Item.number, Obs.disposed]

/-- The record whose check an event goes on with is left in one place at most. -/
theorem Custody.checked (h : s.Custody) {n : ℕ} (hn : s.checkedNumber x.2 = some n)
    (ht : step R s x = some t) : t.Once n ∧ ∃ p, 0 < s.tally n p := by
  obtain ⟨env, ev⟩ := x
  have hhttp : ∀ {a be}, s.heap.lookup a = some be → be.owner.number = some n →
      ∃ p, 0 < s.tally n p := by
    intro a be hb ho
    exact ⟨some (.http a), by simp [tally, copies, hb, ho]⟩
  rcases step_cases R ht with hq | ha
  · cases hq <;> simp [checkedNumber] at hn
  cases ha with
  | clientRead => simp [checkedNumber] at hn
  | @redisReply w i reply cmd _ hc ht =>
    have hcn : cmd.callback.number = some n := by simpa [checkedNumber, hc] using hn
    have hu := (h.once n).takeCommand reply hc hcn
    constructor
    · cases hcb : cmd.callback with
      | login d =>
        rw [hcb] at ht hcn
        obtain rfl := Option.some.inj ht
        exact hu.redisLoginCallback R (Option.some.inj hcn) env reply
      | trans d =>
        rw [hcb] at ht hcn
        exact hu.redisTransCallback R (Option.some.inj hcn) env ht
      | online | offline => simp [hcb, RedisCallback.number] at hcn
    · refine ⟨some (.redis w), ?_⟩
      simp only [tally, copies, List.countP_pos_iff]
      exact ⟨cmd, List.mem_of_getElem? hc, by simpa using hcn⟩
  | loginRead d hb =>
    have hd : (Owner.httpLogin d true).number = some n := by simpa [checkedNumber, hb] using hn
    exact ⟨(h.once n).httpLoginRead R hb hd env _, hhttp hb hd⟩
  | transRead d hb =>
    have hd : (Owner.httpTrans d true).number = some n := by simpa [checkedNumber, hb] using hn
    exact ⟨(h.once n).httpTransRead R hb hd env _, hhttp hb hd⟩
  | loginEvent d sent hb =>
    have hd : (Owner.httpLogin d sent).number = some n := by simpa [checkedNumber, hb] using hn
    exact ⟨(h.once n).httpLoginEvent R hb hd (Option.some.inj hd) env _, hhttp hb hd⟩
  | transEvent d sent hb =>
    have hd : (Owner.httpTrans d sent).number = some n := by simpa [checkedNumber, hb] using hn
    exact ⟨(h.once n).httpTransEvent R hb hd (Option.some.inj hd) env _, hhttp hb hd⟩

theorem Custody.step (h : s.Custody) (ht : step R s x = some t) : t.Custody := by
  by_cases hx : ∃ w b conn buffer, s.Reads x w b conn buffer
  · obtain ⟨w, b, conn, buffer, hread⟩ := hx
    obtain ⟨output, hb, ht⟩ := hread.callback R ht
    obtain ⟨u, hu, -, -, -, htail⟩ := bufferEventReadCallback_turns R (P := Custody) rfl hb h
      (fun _ _ _ _ _ _ hu _ => hu.handleRequest) ht
    apply hu.moves (m := none)
    · intro n _
      exact htail _ (tolerant_spares n) (by simp [Item.Spares, Item.number])
    · simp
  push Not at hx
  by_cases hm : ∃ w, x.2 = .newMsg w
  · obtain ⟨w, hw⟩ := hm
    obtain ⟨env, ev⟩ := x
    obtain rfl : ev = .newMsg w := hw
    rcases step_cases R ht with hq | ha
    · cases hq
      exact h.newMsgLoop _ rfl
    · cases ha
  push Not at hm
  exact h.moves (fun n hn => (permits_spares hn hx fun w hw => absurd hw (hm w)).step ht)
    fun n hn => h.checked hn ht

theorem custody_started (h : s.Started) : s.Custody := by
  obtain ⟨num, cap, ping, url, heart, rfl⟩ := h
  have hz : ∀ n, (start num cap ping url heart).InHand n := by
    intro n q
    match q with
    | none => rfl
    | some (.redis w) => rfl
    | some (.queue w) => rfl
    | some (.http a) => simp [tally, copies, start]
  exact ⟨fun n => (hz n).once, fun n _ => hz n⟩

end Step

section Runs

variable {σ : Type} {R : Runtime σ} {s t : Server}

/-- Record `d` is in one place at most, in none once it was deleted, and it is what was read
wherever it is. -/
structure AtMostOnce (s : Server) (d : Relay) : Prop where
  once : ∃ o, ∀ q, s.tally d.seq q ≤ if q = o then 1 else 0
  finished : ∀ m, .deletedTrans m ∈ s.log → m.number = some d.seq → ∀ p, s.copies d.seq p = 0
  redis : ∀ w, ∀ c ∈ (s.workThread w).redis, c.callback.number = some d.seq → c.callback = .trans d
  http : ∀ h be, s.heap.lookup h = some be → be.owner.number = some d.seq →
    ∃ sent, be.owner = .httpTrans d sent
  queue : ∀ w, ∀ m ∈ (s.workThread w).newMsgFd, m.number = some d.seq → m = d.toTransData
  sent : ∀ e ∈ s.sent, e.source.number = some d.seq →
    e.source = .relay d.toTransData ∧ e.bytes = d.data

/-- The requests and records of a history come from frames. -/
def Framed (R : Runtime σ) : Obs → Prop
  | .loginRead w b d => ∃ mem frame rest l, Yields R mem frame rest (some l) none ∧
      d = stampLogin w b d.conn d.seq l
  | .relayRead w _ _ d => ∃ mem rest l, Yields R mem l.data rest none (some l) ∧
      d = stampRelay w d.seq l
  | _ => True

theorem Traced.framed {x : Env × Event} {o : Obs} (h : s.Traced R x o) : Framed R o := by
  cases o with
  | loginRead w b d =>
    obtain ⟨buffer, before, frame, rest, l, -, -, hy, he⟩ := h
    exact ⟨x.1.mem, frame, rest, l, hy, he⟩
  | relayRead w b id d =>
    obtain ⟨conn, buffer, before, rest, l, -, -, hy, he⟩ := h
    exact ⟨x.1.mem, rest, l, hy, he⟩
  | _ => trivial

theorem framed_step {x : Env × Event} (h : ∀ o ∈ s.log, Framed R o) (hu : s.Unmixed)
    (ht : step R s x = some t) : ∀ o ∈ t.log, Framed R o := by
  obtain ⟨added, hl, hadd⟩ := ((permits_isolated (R := R) (x := x) hu).step ht).log
  intro o ho
  rw [hl] at ho
  rcases List.mem_append.mp ho with hold | hnew
  · exact h o hold
  · exact (hadd o hnew).framed

/-- What holds of the records in every run. -/
structure Kept (R : Runtime σ) (s : Server) : Prop where
  custody : s.Custody
  provenance : s.Provenance R
  recorded : s.Recorded R
  unmixed : s.Unmixed
  framed : ∀ o ∈ s.log, Framed R o

theorem kept_started (h : s.Started) : s.Kept R := by
  refine ⟨custody_started h, provenance_started h, recorded_started h, unmixed_started h, ?_⟩
  obtain ⟨num, cap, ping, url, heart, rfl⟩ := h
  simp [start]

theorem Kept.step {x : Env × Event} (h : s.Kept R) (ht : step R s x = some t) : t.Kept R where
  custody := h.custody.step ht
  provenance := h.provenance.step ht
  recorded := h.recorded.step h.provenance ht
  unmixed := h.unmixed.step ht
  framed := framed_step h.framed h.unmixed ht

theorem kept_reached {ok : Server → Env × Event → Prop} (h : Reached R ok s) : s.Kept R :=
  Transition.Reach.invariant (fun _ => kept_started) (fun _ _ _ hk _ ht => hk.step ht) h

/-- A login request and a relay record have different numbers. -/
theorem Recorded.login_ne {w : ℕ} {b : Addr} {id : UInt64} {d : Relay} {l : LoginData}
    (h : s.Recorded R) (hd : .relayRead w b id d ∈ s.log) (hl : LoginRead s.log l) :
    l.seq ≠ d.seq := by
  intro hseq
  have he := h.unique (n := d.seq) hl hd (congrArg some hseq) rfl
  simp at he

theorem Recorded.relay_eq {w : ℕ} {b : Addr} {id : UInt64} {d r : Relay} (h : s.Recorded R)
    (hd : .relayRead w b id d ∈ s.log) (hr : ReadFrom s.log r) (hseq : r.seq = d.seq) : r = d := by
  obtain ⟨-, w', b', hr⟩ := hr
  have he := h.unique (n := d.seq) hr hd (congrArg some hseq) rfl
  injection he

/-- The size of a record is the size of its data. -/
theorem Kept.take_data {w : ℕ} {b : Addr} {id : UInt64} {d : Relay} (h : s.Kept R)
    (hd : .relayRead w b id d ∈ s.log) : d.data.take d.dataSize.toNat = d.data := by
  obtain ⟨mem, rest, l, hy, he⟩ := h.framed _ hd
  have hdata : d.data = l.data ∧ d.dataSize = l.dataSize := by
    rw [he]
    exact ⟨rfl, rfl⟩
  have hlen := hy.relay_size
  rw [← hdata.1, ← hdata.2] at hlen
  exact List.take_of_length_le (by omega)

theorem Kept.atMostOnce {w : ℕ} {b : Addr} {id : UInt64} {d : Relay} (h : s.Kept R)
    (hd : .relayRead w b id d ∈ s.log) : s.AtMostOnce d where
  once := h.custody.once d.seq
  finished m hm hn p := by
    have hone := (h.custody.once d.seq).elsewhere (tally_pos_of_deleted hm hn) (some p)
    rw [if_neg (by simp), Nat.le_zero] at hone
    exact hone
  redis v c hc hn := by
    cases hcb : c.callback with
    | login l =>
      rw [hcb] at hn
      exact absurd (Option.some.inj hn) (h.recorded.login_ne hd (h.recorded.login l
        (Or.inl ⟨v, c, hc, hcb⟩)))
    | trans r =>
      rw [hcb] at hn
      rw [h.recorded.relay_eq hd (h.provenance.redis v c hc r hcb).2 (Option.some.inj hn)]
    | online | offline => simp [hcb, RedisCallback.number] at hn
  http a be hb hn := by
    cases ho : be.owner with
    | client => simp [ho, Owner.number] at hn
    | httpLogin l sent =>
      rw [ho] at hn
      exact absurd (Option.some.inj hn) (h.recorded.login_ne hd (h.recorded.login l
        (Or.inr ⟨a, be, sent, hb, ho⟩)))
    | httpTrans r sent =>
      rw [ho] at hn
      rw [h.recorded.relay_eq hd (h.provenance.http a be hb r sent ho).1 (Option.some.inj hn)]
      exact ⟨sent, rfl⟩
  queue v m hm hn := by
    have ho := TransData.number_eq_some.mp hn
    obtain ⟨r, rfl, hr⟩ := h.provenance.queued hm ho.1
    rw [h.recorded.relay_eq hd hr ho.2]
  sent e he hn := by
    have hrec := h.recorded.sent e he
    obtain ⟨conn, source, bs⟩ := e
    cases source with
    | echo | friends => simp [Source.number] at hn
    | loginRsp l isSuccess => exact absurd (Option.some.inj hn) (h.recorded.login_ne hd hrec.1)
    | relay m =>
      have ho := TransData.number_eq_some.mp hn
      obtain ⟨hbs, r, rfl, hread⟩ := hrec ho.1
      obtain rfl := h.recorded.relay_eq hd hread ho.2
      exact ⟨rfl, hbs.trans (h.take_data hd)⟩

/-- A relay frame from 7 to 9 that announces -30 bytes of data behind 20 and 9 bytes of headers. -/
def negativeRelay : Bytes :=
  [0x05, 0x40, 0x00, 0x00] ++ [0, 0, 0, 0, 0, 0, 0, 7] ++ [0, 0, 0, 0, 0, 0, 0, 9] ++
    [0x00, 0x0a, 0x01, 0xff, 0x00, 0xff, 0xff, 0xff, 0xe2, 0x00]

end Runs

end Server

end EglComet
