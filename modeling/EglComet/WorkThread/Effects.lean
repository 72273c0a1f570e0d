import EglComet.AnalyseReq.Calls
import EglComet.WorkThread.Ledger

/-!
What a callback can leave behind besides the tables: redis commands, HTTP
bufferevents, subscribers, bytes sent to clients and entries of the history.
Each operation is bounded once by a predicate on such items; the results about
logins and relays choose the predicate.
-/
namespace EglComet

open Protobuf

/-- The record that a login frame on connection `conn` at `b` of worker `w` becomes. -/
def stampLogin (w : ℕ) (b : Addr) (conn seq : ℕ) (l : LoginData) : LoginData :=
  { l with workThread := w, bev := b, conn, seq }

/-- The record that a relay frame read by worker `w` becomes. -/
def stampRelay (w seq : ℕ) (l : TransData) : Relay :=
  { l with msgType := .trans, workThread := w, seq, origin := .client, isTrans := rfl }

/-- The bytes of a login reply. -/
def IsReply {σ : Type} (R : Runtime σ) (isSuccess : Bool) (bs : Bytes) : Prop :=
  ∃ a msg pingTime mem, bs = (getLoginRsp R a isSuccess msg pingTime mem).1

/-- The number of a record that a redis command waits for. -/
def RedisCallback.number : RedisCallback → Option ℕ
  | .login d => some d.seq
  | .trans d => some d.seq
  | _ => none

/-- The number of a record that an HTTP check holds. -/
def Owner.number : Owner → Option ℕ
  | .client .. => none
  | .httpLogin d _ => some d.seq
  | .httpTrans d _ => some d.seq

/-- The number of a record that a client sent; the notices of the server are not numbered. -/
def TransData.number (d : TransData) : Option ℕ :=
  match d.origin with
  | .client => some d.seq
  | .server => none

theorem TransData.number_eq_some {d : TransData} {n : ℕ} :
    d.number = some n ↔ d.origin = .client ∧ d.seq = n := by
  unfold TransData.number
  cases d.origin <;> simp

def Source.number : Source → Option ℕ
  | .loginRsp d _ => some d.seq
  | .relay d => d.number
  | _ => none

/-- The events that change the connection pipe of worker `w`. -/
def Event.feeds (w : ℕ) : Event → Bool
  | .acceptConn _ => true
  | .timer => true
  | .stop _ => true
  | .newConn v => v == w
  | _ => false

/-- Something a callback can add to the state of the server; `conns` stands for any change to the
connection pipe of a worker, `parser` for any change to what its parser has pending, `taken` for a
command that leaves the queue, and `popped` for reading the message pipe. -/
inductive Item where
  | cmd (w : ℕ) (c : RedisCommand)
  | owner (o : Owner)
  | obs (o : Obs)
  | sent (e : Sent)
  | sub (w : ℕ) (id : UInt64) (sub : Subscriber)
  | conns (w : ℕ)
  | parser (w : ℕ)
  | taken (w : ℕ) (c : RedisCommand)
  | popped (w : ℕ)

/-- The record of a client that an item holds. -/
def Item.number : Item → Option ℕ
  | .cmd _ c => c.callback.number
  | .owner o => o.number
  | .obs (.enqueued _ d) => d.number
  | _ => none

/-- Items that take something away or change a pipe. -/
def Item.isRemoval : Item → Bool
  | .conns _ => true
  | .taken .. => true
  | .popped _ => true
  | _ => false

/-- Entries of the history that neither read a frame, nor register a login, nor show a friend list,
nor put a client's message into a pipe or delete it. -/
def Obs.minor : Obs → Bool
  | .loginRead .. => false
  | .heartbeat .. => false
  | .relayRead .. => false
  | .registered .. => false
  | .friendList .. => false
  | .enqueued _ d => d.origin = .server
  | .deletedTrans d => d.origin = .server
  | _ => true

/-- A predicate that allows client connections, offline lookups, minor entries and bytes that answer
no record of a client. -/
structure Tolerant (E : Item → Prop) : Prop where
  obs : ∀ o, o.minor = true → E (.obs o)
  offline : ∀ w id, E (.cmd w (friendsCommand id (.offline ⟨id, w⟩)))
  client : ∀ w conn, E (.owner (.client w conn))
  sent : ∀ e : Sent, e.source.number = none → E (.sent e)

/-- What is added to a list in two stages. -/
theorem exists_append_trans {α : Type} {P : α → Prop} {l m n : List α}
    (h : ∃ added, m = l ++ added ∧ ∀ x ∈ added, P x)
    (h' : ∃ added, n = m ++ added ∧ ∀ x ∈ added, P x) :
    ∃ added, n = l ++ added ∧ ∀ x ∈ added, P x := by
  obtain ⟨xs, hx, hxs⟩ := h
  obtain ⟨ys, hy, hys⟩ := h'
  refine ⟨xs ++ ys, by rw [hy, hx, List.append_assoc], ?_⟩
  intro x hmem
  exact (List.mem_append.mp hmem).elim (hxs x) (hys x)

/-- A place that can hold the record of a client. -/
inductive Place where
  | redis (w : ℕ)
  | http (h : Addr)
  | queue (w : ℕ)
  deriving DecidableEq, Repr

namespace Server

/-- How often record `n` is in a place. -/
def copies (s : Server) (n : ℕ) : Place → ℕ
  | .redis w => (s.workThread w).redis.countP fun c => c.callback.number = some n
  | .http h => (s.heap.lookup h).toList.countP fun be => be.owner.number = some n
  | .queue w => (s.workThread w).newMsgFd.countP fun d => d.number = some n

/-- Everything in `t` that was not in `s` satisfies `E`, the histories only grow, and they have
every record that was put into a pipe. -/
structure Grows (E : Item → Prop) (s t : Server) : Prop where
  redis : ∀ w, ∀ c ∈ (t.workThread w).redis, c ∈ (s.workThread w).redis ∨ E (.cmd w c)
  heap : ∀ h be, t.heap.lookup h = some be →
    (∃ h' be', s.heap.lookup h' = some be' ∧ be'.owner = be.owner) ∨ E (.owner be.owner)
  log : ∃ added, t.log = s.log ++ added ∧ ∀ o ∈ added, E (.obs o)
  sent : ∃ added, t.sent = s.sent ++ added ∧ ∀ e ∈ added, E (.sent e)
  pipe : ∀ w, ∀ d ∈ (t.workThread w).newMsgFd,
    d ∈ (s.workThread w).newMsgFd ∨ .enqueued w d ∈ t.log
  subs : ∀ w id sub, (t.workThread w).subMap.lookup id = some sub →
    (s.workThread w).subMap.lookup id = some sub ∨ E (.sub w id sub)
  conns : ∀ w, (t.workThread w).newConnFd = (s.workThread w).newConnFd ∧
    (t.workThread w).stopped = (s.workThread w).stopped ∨ E (.conns w)
  parser : ∀ w, (t.workThread w).analyseReq.pending = (s.workThread w).analyseReq.pending ∨
    E (.parser w)
  copies : ∀ n p, t.copies n p ≤ s.copies n p ∨ ∃ i, E i ∧ i.number = some n
  clients : ∀ b c, t.client b = some c →
    s.client b = some c ∨ s.nextConn ≤ c.2 ∧ c.2 < t.nextConn
  taken : ∀ w, ∀ c ∈ (s.workThread w).redis, c ∈ (t.workThread w).redis ∨ E (.taken w c)
  popped : ∀ w, (s.workThread w).newMsgFd <+: (t.workThread w).newMsgFd ∨ E (.popped w)
  nextConn : s.nextConn ≤ t.nextConn
  nextSeq : s.nextSeq ≤ t.nextSeq

variable {E : Item → Prop} {s t u : Server}

theorem Grows.mem_log (h : Grows E s t) {o : Obs} (ho : o ∈ s.log) : o ∈ t.log := by
  obtain ⟨added, hl, -⟩ := h.log
  exact hl ▸ List.mem_append_left added ho

theorem Grows.trans (h : Grows E s t) (h' : Grows E t u) : Grows E s u where
  redis w c hc := (h'.redis w c hc).elim (h.redis w c) Or.inr
  heap a be hb := by
    rcases h'.heap a be hb with ⟨a', be', hb', ho⟩ | he
    · rcases h.heap a' be' hb' with ⟨a'', be'', hb'', ho'⟩ | he
      · exact Or.inl ⟨a'', be'', hb'', ho'.trans ho⟩
      · exact Or.inr (ho ▸ he)
    · exact Or.inr he
  log := exists_append_trans h.log h'.log
  sent := exists_append_trans h.sent h'.sent
  pipe w d hd := (h'.pipe w d hd).elim (fun hd => (h.pipe w d hd).imp id h'.mem_log) Or.inr
  subs w id sub hs := (h'.subs w id sub hs).elim (h.subs w id sub) Or.inr
  conns w := by
    rcases h'.conns w with ⟨hf, hs⟩ | he
    · exact (h.conns w).imp_left fun hw => ⟨hf.trans hw.1, hs.trans hw.2⟩
    · exact Or.inr he
  parser w := by
    rcases h'.parser w with hp | he
    · exact (h.parser w).imp_left hp.trans
    · exact Or.inr he
  copies n p := by
    rcases h'.copies n p with hle | he
    · exact (h.copies n p).imp_left hle.trans
    · exact Or.inr he
  clients b c hc := by
    rcases h'.clients b c hc with hc | ⟨hn, hlt⟩
    · exact (h.clients b c hc).imp_right fun hn => ⟨hn.1, hn.2.trans_le h'.nextConn⟩
    · exact Or.inr ⟨h.nextConn.trans hn, hlt⟩
  taken w c hc := (h.taken w c hc).elim (h'.taken w c) Or.inr
  popped w := by
    rcases h.popped w with hp | he
    · exact (h'.popped w).imp_left hp.trans
    · exact Or.inr he
  nextConn := h.nextConn.trans h'.nextConn
  nextSeq := h.nextSeq.trans h'.nextSeq

theorem Grows.mono {E E' : Item → Prop} (h : Grows E s t) (hE : ∀ i, E i → E' i) :
    Grows E' s t where
  redis w c hc := (h.redis w c hc).imp_right (hE _)
  heap a be hb := (h.heap a be hb).imp_right (hE _)
  log := by
    obtain ⟨added, hl, hadd⟩ := h.log
    exact ⟨added, hl, fun o ho => hE _ (hadd o ho)⟩
  sent := by
    obtain ⟨added, hl, hadd⟩ := h.sent
    exact ⟨added, hl, fun e he => hE _ (hadd e he)⟩
  pipe := h.pipe
  subs w id sub hs := (h.subs w id sub hs).imp_right (hE _)
  conns w := (h.conns w).imp_right (hE _)
  parser w := (h.parser w).imp_right (hE _)
  copies n p := (h.copies n p).imp_right fun ⟨i, hi, hn⟩ => ⟨i, hE i hi, hn⟩
  clients := h.clients
  taken w c hc := (h.taken w c hc).imp_right (hE _)
  popped w := (h.popped w).imp_right (hE _)
  nextConn := h.nextConn
  nextSeq := h.nextSeq

theorem grows_of_eq (hw : t.workThread = s.workThread) (hh : t.heap = s.heap) (hl : t.log = s.log)
    (hs : t.sent = s.sent) (hc : s.nextConn ≤ t.nextConn) (hn : s.nextSeq ≤ t.nextSeq) :
    Grows E s t where
  redis w c hc := Or.inl (hw ▸ hc)
  heap h be hb := Or.inl ⟨h, be, hh ▸ hb, rfl⟩
  log := ⟨[], by simp [hl]⟩
  sent := ⟨[], by simp [hs]⟩
  pipe w d hd := Or.inl (hw ▸ hd)
  subs w id sub hsub := Or.inl (hw ▸ hsub)
  conns w := Or.inl (by simp [hw])
  parser w := Or.inl (by rw [hw])
  copies n p := Or.inl (by cases p <;> simp [copies, hw, hh])
  clients b c hb := Or.inl (by simpa [client, hh] using hb)
  taken w c hc := Or.inl (by rwa [hw])
  popped w := Or.inl (by rw [hw])
  nextConn := hc
  nextSeq := hn

theorem Grows.refl (s : Server) : Grows E s s := grows_of_eq rfl rfl rfl rfl le_rfl le_rfl

theorem grows_setWrites (n : ℕ) : Grows E s (s.setWrites n) :=
  grows_of_eq rfl rfl rfl rfl le_rfl le_rfl

/-- A record gets a number. -/
theorem grows_nextSeq : Grows E s { s with nextSeq := s.nextSeq + 1 } :=
  grows_of_eq rfl rfl rfl rfl le_rfl (Nat.le_succ _)

/-- Connections are numbered in order. -/
def Numbered (s : Server) : Prop := ∀ b c, s.client b = some c → c.2 < s.nextConn

theorem Numbered.grows (h : s.Numbered) (hg : Grows E s t) : t.Numbered := by
  intro b c hc
  rcases hg.clients b c hc with hold | ⟨-, hlt⟩
  · exact (h b c hold).trans_le hg.nextConn
  · exact hlt

section Operations

theorem grows_emit {o : Obs} (h : E (.obs o)) : Grows E s (s.emit o) :=
  { Grows.refl (E := E) s with log := ⟨[o], rfl, by simpa using h⟩
                               pipe := fun _ _ hd => Or.inl hd }

/-- What may happen to worker `w` in one step, with the log as it is then. -/
structure Edit (E : Item → Prop) (log : List Obs) (w : ℕ) (t u : WorkThread) : Prop where
  redis : u.redis.Sublist t.redis ∨ ∃ c, u.redis = t.redis ++ [c] ∧ E (.cmd w c)
  taken : ∀ c ∈ t.redis, c ∈ u.redis ∨ E (.taken w c)
  popped : t.newMsgFd <+: u.newMsgFd ∨ E (.popped w)
  pipe : u.newMsgFd.Sublist t.newMsgFd ∨
    ∃ d, u.newMsgFd = t.newMsgFd ++ [d] ∧ .enqueued w d ∈ log ∧ E (.obs (.enqueued w d))
  subs : ∀ id sub, u.subMap.lookup id = some sub → t.subMap.lookup id = some sub ∨ E (.sub w id sub)
  conns : u.newConnFd = t.newConnFd ∧ u.stopped = t.stopped ∨ E (.conns w)
  parser : u.analyseReq.pending = t.analyseReq.pending ∨ E (.parser w)

theorem copies_modify (s : Server) (n v w : ℕ) (f : WorkThread → WorkThread) :
    (s.modify w f).copies n (.redis v) =
        (if v = w then (f (s.workThread w)).redis else (s.workThread v).redis).countP
          (fun c => c.callback.number = some n) ∧
      (s.modify w f).copies n (.queue v) =
        (if v = w then (f (s.workThread w)).newMsgFd else (s.workThread v).newMsgFd).countP
          (fun d => d.number = some n) := by
  by_cases hv : v = w
  · subst hv
    simp [copies, modify]
  · simp [copies, modify, hv]

theorem Edit.grows {w : ℕ} {f : WorkThread → WorkThread}
    (h : Edit E s.log w (s.workThread w) (f (s.workThread w))) : Grows E s (s.modify w f) := by
  have hw : ∀ v, v ≠ w → (s.modify w f).workThread v = s.workThread v := fun v hv => by
    simp [modify, hv]
  have hself : (s.modify w f).workThread w = f (s.workThread w) := by simp [modify]
  constructor
  · intro v c hc
    by_cases hv : v = w
    · subst hv
      rw [hself] at hc
      rcases h.redis with hs | ⟨c', hr, he⟩
      · exact Or.inl (hs.subset hc)
      · rw [hr, List.mem_append, List.mem_singleton] at hc
        exact hc.imp_right fun hm : c = c' => hm ▸ he
    · exact Or.inl (hw v hv ▸ hc)
  · exact fun a be hb => Or.inl ⟨a, be, hb, rfl⟩
  · exact ⟨[], by simp [modify]⟩
  · exact ⟨[], by simp [modify]⟩
  · intro v d hd
    by_cases hv : v = w
    · subst hv
      rw [hself] at hd
      rcases h.pipe with hs | ⟨d', hr, hl, -⟩
      · exact Or.inl (hs.subset hd)
      · rw [hr, List.mem_append, List.mem_singleton] at hd
        exact hd.imp_right fun hm : d = d' => hm ▸ hl
    · exact Or.inl (hw v hv ▸ hd)
  · intro v id sub hs
    by_cases hv : v = w
    · subst hv
      rw [hself] at hs
      exact h.subs id sub hs
    · exact Or.inl (hw v hv ▸ hs)
  · intro v
    by_cases hv : v = w
    · subst hv
      rw [hself]
      exact h.conns
    · exact Or.inl (by simp [hw v hv])
  · intro v
    by_cases hv : v = w
    · subst hv
      rw [hself]
      exact h.parser
    · exact Or.inl (by rw [hw v hv])
  · intro n p
    cases p with
    | http a => exact Or.inl le_rfl
    | redis v =>
      rw [(copies_modify s n v w f).1]
      split_ifs with hv
      · subst hv
        rcases h.redis with hs | ⟨c, hr, he⟩
        · exact Or.inl hs.countP_le
        · by_cases hn : c.callback.number = some n
          · exact Or.inr ⟨.cmd v c, he, hn⟩
          · exact Or.inl (by simp [copies, hr, hn])
      · exact Or.inl le_rfl
    | queue v =>
      rw [(copies_modify s n v w f).2]
      split_ifs with hv
      · subst hv
        rcases h.pipe with hs | ⟨d, hr, -, he⟩
        · exact Or.inl hs.countP_le
        · by_cases hn : d.number = some n
          · exact Or.inr ⟨.obs (.enqueued v d), he, hn⟩
          · exact Or.inl (by simp [copies, hr, hn])
      · exact Or.inl le_rfl
  · exact fun b c hc => Or.inl hc
  · intro v c hc
    by_cases hv : v = w
    · subst hv
      rw [hself]
      exact h.taken c hc
    · exact Or.inl (by rwa [hw v hv])
  · intro v
    by_cases hv : v = w
    · subst hv
      rw [hself]
      exact h.popped
    · exact Or.inl (by rw [hw v hv])
  · exact le_rfl
  · exact le_rfl

theorem Edit.refl (E : Item → Prop) (log : List Obs) (w : ℕ) (t : WorkThread) :
    Edit E log w t t where
  redis := Or.inl (List.Sublist.refl _)
  taken _ hc := Or.inl hc
  popped := Or.inl (List.prefix_refl _)
  pipe := Or.inl (List.Sublist.refl _)
  subs _ _ hs := Or.inl hs
  conns := Or.inl ⟨rfl, rfl⟩
  parser := Or.inl rfl

/-- A change of the tables that adds no session. -/
theorem grows_modify {w : ℕ} {f : WorkThread → WorkThread}
    (hf : f (s.workThread w) =
      { s.workThread w with
        connNum := (f (s.workThread w)).connNum
        subMap := (f (s.workThread w)).subMap
        bevId := (f (s.workThread w)).bevId })
    (hs : ∀ id sub, (f (s.workThread w)).subMap.lookup id = some sub →
      (s.workThread w).subMap.lookup id = some sub) : Grows E s (s.modify w f) := by
  apply Edit.grows
  rw [hf]
  exact { Edit.refl E s.log w (s.workThread w) with subs := fun id sub h => Or.inl (hs id sub h) }

theorem grows_redisAsyncCommand {w : ℕ} {c : RedisCommand} (h : E (.cmd w c)) :
    Grows E s (s.redisAsyncCommand w c) :=
  Edit.grows { Edit.refl E s.log w (s.workThread w) with
    redis := Or.inr ⟨c, rfl, h⟩
    taken := fun _ hc => Or.inl (List.mem_append_left _ hc) }

/-- A client bufferevent may only be placed where its connection lives, or for a new one. -/
theorem grows_insertNew {b : Addr} {be : BufferEvent} {next : ℕ} (hn : s.nextConn ≤ next)
    (h : E (.owner be.owner)) (hc : ∀ c, be.owner.connection = some c →
      s.client b = some c ∨ s.nextConn ≤ c.2 ∧ c.2 < next) :
    Grows E s ({ s with nextConn := next }.setHeap (s.heap.insert b be)) := by
  refine { Grows.refl (E := E) s with heap := ?_, copies := ?_, clients := ?_, nextConn := hn }
  · intro a be' hb
    simp only [setHeap, Table.lookup_insert_eq] at hb
    split_ifs at hb
    · obtain rfl := Option.some.inj hb
      exact Or.inr h
    · exact Or.inl ⟨a, be', hb, rfl⟩
  · intro n p
    cases p with
    | redis v => exact Or.inl le_rfl
    | queue v => exact Or.inl le_rfl
    | http a =>
      by_cases hn : be.owner.number = some n
      · exact Or.inr ⟨.owner be.owner, h, hn⟩
      · left
        simp only [copies, setHeap, Table.lookup_insert_eq]
        split_ifs
        · simp [hn]
        · exact le_rfl
  · intro a c ha
    rw [client_setHeap_insert] at ha
    split_ifs at ha with hab
    · exact hab ▸ hc c ha
    · exact Or.inl ha

theorem grows_insert {b : Addr} {be : BufferEvent} (h : E (.owner be.owner))
    (hc : ∀ c, be.owner.connection = some c → s.client b = some c) :
    Grows E s (s.setHeap (s.heap.insert b be)) :=
  grows_insertNew le_rfl h fun c ho => Or.inl (hc c ho)

theorem grows_replace {b : Addr} {be be' : BufferEvent} (hb : s.heap.lookup b = some be)
    (ho : be'.owner = be.owner) : Grows E s (s.setHeap (s.heap.insert b be')) := by
  refine { Grows.refl (E := E) s with heap := ?_, copies := ?_, clients := ?_ }
  · intro a be'' ha
    left
    simp only [setHeap, Table.lookup_insert_eq] at ha
    split_ifs at ha
    · obtain rfl := Option.some.inj ha
      exact ⟨b, be, hb, ho.symm⟩
    · exact ⟨a, be'', ha, rfl⟩
  · intro n p
    left
    cases p with
    | redis v => exact le_rfl
    | queue v => exact le_rfl
    | http a =>
      simp only [copies, setHeap, Table.lookup_insert_eq]
      split_ifs with hab
      · subst hab
        simp [hb, ho]
      · exact le_rfl
  · intro a c ha
    left
    rw [client_setHeap_insert] at ha
    split_ifs at ha with hab
    · rw [hab, client_of_lookup hb, ← ho]
      exact ha
    · exact ha

theorem grows_setAnalyseReq {w : ℕ} {a : AnalyseReq}
    (h : a.pending = (s.workThread w).analyseReq.pending ∨ E (.parser w)) :
    Grows E s (s.setAnalyseReq w a) :=
  Edit.grows { Edit.refl E s.log w (s.workThread w) with parser := h }

theorem grows_recordSent {o : Owner} {source : Source} {bs : Bytes}
    (h : ∀ conn, E (.sent ⟨conn, source, bs⟩)) : Grows E s (s.recordSent o source bs) := by
  unfold recordSent
  split
  · exact { Grows.refl (E := E) s with sent := ⟨[_], rfl, by simpa using h _⟩ }
  · exact Grows.refl s

section Minor

variable (hE : Tolerant E)

include hE

theorem grows_deleteLogin {d : LoginData} : Grows E s (s.deleteLogin d) :=
  grows_emit (hE.obs _ rfl)

omit hE in
theorem grows_deleteTrans {d : TransData} (h : E (.obs (.deletedTrans d))) :
    Grows E s (s.deleteTrans d) := grows_emit h

theorem grows_bufferEventFree {b : Addr} : Grows E s (s.bufferEventFree b) := by
  apply Grows.trans (grows_emit (hE.obs (.freed b (decide (b ∈ s.heap))) rfl))
  refine { Grows.refl (E := E) _ with heap := ?_, copies := ?_, clients := ?_ }
  · intro a be hb
    simp only [bufferEventFree, setHeap, emit, Table.lookup_erase_eq] at hb
    split_ifs at hb
    exact Or.inl ⟨a, be, hb, rfl⟩
  · intro n p
    left
    cases p with
    | redis v => exact le_rfl
    | queue v => exact le_rfl
    | http a =>
      simp only [copies, bufferEventFree, setHeap, emit, Table.lookup_erase_eq]
      split_ifs
      · simp
      · exact le_rfl
  · intro a c ha
    left
    simp only [client, clientIn, bufferEventFree, setHeap, emit, Table.lookup_erase_eq] at ha ⊢
    split_ifs at ha
    · simp at ha
    · exact ha

theorem grows_addOutput {b : Addr} {source : Source} {bs : Bytes}
    (h : ∀ conn, E (.sent ⟨conn, source, bs⟩)) : Grows E s (s.addOutput b source bs) := by
  unfold addOutput
  cases hb : s.heap.lookup b with
  | none => exact grows_emit (hE.obs _ rfl)
  | some be =>
    apply Grows.trans _ (grows_recordSent h)
    exact grows_replace hb rfl

theorem grows_requestOffline {w : ℕ} {id : UInt64} : Grows E s (s.requestOffline w id) := by
  unfold requestOffline
  split
  · exact grows_redisAsyncCommand (hE.offline w id)
  · exact Grows.refl s

end Minor

end Operations

section Pipes

theorem grows_enqueue {j : ℕ} {d : TransData} (h : E (.obs (.enqueued j d))) :
    Grows E s (s.enqueue j d) := by
  apply Grows.trans (grows_emit h)
  change Grows E _ ((s.emit (.enqueued j d)).modify j fun t =>
    { t with newMsgFd := t.newMsgFd ++ [d] })
  apply Edit.grows
  exact { Edit.refl E (s.emit (.enqueued j d)).log j (s.workThread j) with
    pipe := Or.inr ⟨d, rfl, by simp [emit], h⟩
    popped := Or.inl (List.prefix_append _ _) }

theorem grows_notifyNewMsg {env : Env} {j : ℕ} {d : TransData} (h : E (.obs (.enqueued j d))) :
    Grows E s (notifyNewMsg env s j d).2 := by
  rw [notifyNewMsg_eq]
  split_ifs
  · exact (grows_setWrites _).trans (grows_enqueue h)
  · exact grows_setWrites _
  · exact Grows.refl s

theorem grows_offer {env : Env} {d : TransData} (h : ∀ j, E (.obs (.enqueued j d)))
    (js : List ℕ) (s : Server) : Grows E s (offer env d js s).2 := by
  induction js generalizing s with
  | nil => exact Grows.refl s
  | cons j js ih =>
    simp only [offer]
    split_ifs
    · exact grows_notifyNewMsg (h j)
    · exact (grows_notifyNewMsg (h j)).trans (ih _)

theorem grows_transmit {env : Env} {d : TransData} (h : ∀ j, E (.obs (.enqueued j d)))
    (hd : E (.obs (.deletedTrans d))) : Grows E s (s.transmit env d) := by
  have ho : Grows E s (sendMessage env s d).2 := grows_offer h _ s
  simp only [transmit]
  split_ifs
  · exact ho
  · exact ho.trans (grows_deleteTrans hd)

theorem grows_foldl {α : Type} {f : Server → α → Server} (hf : ∀ s a, Grows E s (f s a))
    (as : List α) (s : Server) : Grows E s (as.foldl f s) := by
  induction as generalizing s with
  | nil => exact Grows.refl s
  | cons a as ih => exact (hf s a).trans (ih _)

variable (hE : Tolerant E)

include hE

theorem grows_notifyDelId (env : Env) (id : UInt64) (s : Server) (j : ℕ) :
    Grows E s (notifyDelId env id s j) := by
  have hn : Grows E s (notifyNewMsg env { s with nextSeq := s.nextSeq + 1 } j
      { toId := id, msgType := .delId, seq := s.nextSeq, origin := .server }).2 :=
    grows_nextSeq.trans (grows_notifyNewMsg (hE.obs _ rfl))
  simp only [notifyDelId]
  split_ifs
  · exact hn
  · exact hn.trans (grows_deleteTrans (hE.obs _ rfl))
  · exact Grows.refl s

omit hE in
theorem origin_notifyFriend {env : Env} {id toId : UInt64} {frame : Bytes}
    {x : TransData × Bool × Server} (h : notifyFriend env id frame s toId = some x) :
    (Obs.deletedTrans x.1).minor = true := by
  obtain ⟨j, -, rfl⟩ := Option.map_eq_some_iff.mp h
  rfl

theorem grows_notifyFriend {env : Env} {id toId : UInt64} {frame : Bytes}
    {x : TransData × Bool × Server} (h : notifyFriend env id frame s toId = some x) :
    Grows E s x.2.2 := by
  obtain ⟨j, -, rfl⟩ := Option.map_eq_some_iff.mp h
  exact grows_nextSeq.trans (grows_notifyNewMsg (hE.obs _ rfl))

theorem grows_foldl_onlineFriend (env : Env) (id : UInt64) (frame : Bytes) (strs : List Bytes)
    (acc : Server × Bytes) :
    Grows E acc.1 (strs.foldl (onlineFriend env id frame) acc).1 := by
  induction strs generalizing acc with
  | nil => exact Grows.refl _
  | cons str strs ih =>
    refine Grows.trans ?_ (ih _)
    unfold onlineFriend
    split
    · rename_i d sent t ht
      have hg : Grows E acc.1 t := grows_notifyFriend hE ht
      cases sent
      · exact hg.trans (grows_deleteTrans (hE.obs _ (origin_notifyFriend ht)))
      · exact hg
    · exact Grows.refl _

theorem grows_offlineFriend (env : Env) (id : UInt64) (frame : Bytes) (s : Server) (str : Bytes) :
    Grows E s (offlineFriend env id frame s str) := by
  unfold offlineFriend
  split
  · rename_i ht
    exact grows_notifyFriend hE ht
  · exact Grows.refl s

end Pipes

section Callbacks

variable (hE : Tolerant E)

theorem grows_modifyConns {w : ℕ} {f : WorkThread → WorkThread} (h : E (.conns w))
    (hf : f (s.workThread w) =
      { s.workThread w with
        newConnFd := (f (s.workThread w)).newConnFd, stopped := (f (s.workThread w)).stopped }) :
    Grows E s (s.modify w f) := by
  apply Edit.grows
  rw [hf]
  exact { Edit.refl E s.log w (s.workThread w) with conns := Or.inr h }

theorem grows_notifyNewConn (env : Env) (fd : ℤ) (s : Server) {j : ℕ} (h : E (.conns j)) :
    Grows E s (notifyNewConn env fd s j) := by
  simp only [notifyNewConn]
  split_ifs
  · exact (grows_setWrites _).trans (grows_modifyConns h rfl)
  · exact grows_setWrites _

include hE

theorem grows_bufferEventEventCallback {w : ℕ} {b : Addr} {flags : Flags} :
    Grows E s (s.bufferEventEventCallback w b flags) := by
  simp only [bufferEventEventCallback]
  split_ifs
  · refine ((((grows_emit (hE.obs _ rfl)).trans (grows_modify rfl ?_)).trans
      (grows_modify rfl fun _ _ h => h)).trans (grows_bufferEventFree hE)).trans
        (grows_requestOffline hE)
    exact fun _ _ h => Table.lookup_of_erase h
  · exact (((grows_emit (hE.obs _ rfl)).trans (grows_modify rfl fun _ _ h => h)).trans
      (grows_bufferEventFree hE)).trans (grows_requestOffline hE)
  · exact Grows.refl s

theorem grows_expireEntry (w : ℕ) (t : ℤ) (s : Server) (b : Addr) :
    Grows E s (expireEntry w t s b) := by
  unfold expireEntry
  split
  · exact Grows.refl s
  · split
    · exact Grows.refl s
    · simp only
      split_ifs
      · exact (((grows_emit (hE.obs _ rfl)).trans (grows_bufferEventFree hE)).trans
          (grows_modify rfl fun _ _ h => Table.lookup_of_erase h)).trans
            (grows_requestOffline hE)
      · exact Grows.refl s

theorem grows_delExpireClient {env : Env} {w : ℕ} : Grows E s (s.delExpireClient env w) := by
  unfold delExpireClient
  split
  · exact Grows.refl s
  · exact grows_foldl (grows_expireEntry hE w _) _ s

theorem grows_newConnection {env : Env} {w : ℕ} : Grows E s (s.newConnection env w) := by
  have hi : Grows E s ({ s with nextConn := s.nextConn + 1 }.setHeap
      (s.heap.insert (env.alloc.next s.heap) { owner := .client w s.nextConn })) := by
    apply grows_insertNew (Nat.le_succ _) (hE.client w s.nextConn)
    rintro _ ⟨⟩
    exact Or.inr ⟨le_rfl, Nat.lt_succ_self _⟩
  exact (hi.trans (grows_modify rfl fun _ _ h => h)).trans (grows_emit (hE.obs _ rfl))

theorem grows_newConnLoop {env : Env} {w : ℕ} (hw : E (.conns w)) (items : List ℤ) (i : ℕ)
    (s : Server) : Grows E s (newConnLoop env w i items s) := by
  induction items generalizing i s with
  | nil => exact Grows.refl s
  | cons data rest ih =>
    refine Grows.trans (t := s.modify w fun t => { t with newConnFd := rest })
      (grows_modifyConns hw rfl) ?_
    simp only [newConnLoop]
    split_ifs
    · exact (grows_newConnection hE).trans (ih _ _)
    · exact grows_modifyConns hw rfl
    · exact (grows_delExpireClient hE).trans (ih _ _)
    · exact ih _ _
    · exact Grows.refl _

theorem grows_handleMsg {w : ℕ} {d : TransData}
    (hs : ∀ conn, E (.sent ⟨conn, .relay d, d.data.take d.dataSize.toNat⟩))
    (hd : E (.obs (.deletedTrans d))) : Grows E s (handleMsg w s d) := by
  simp only [handleMsg]
  refine Grows.trans ?_ (grows_deleteTrans hd)
  split
  · split
    · exact grows_addOutput hE hs
    · exact Grows.refl s
  · split
    · refine Grows.trans ?_ (grows_modify rfl fun _ _ h => Table.lookup_of_erase h)
      split_ifs
      · exact grows_bufferEventFree hE
      · exact grows_emit (hE.obs _ rfl)
    · exact Grows.refl s

omit hE in
theorem grows_pop {w : ℕ} {d : TransData} {ds : List TransData} (h : E (.popped w))
    (hq : (s.workThread w).newMsgFd = d :: ds) :
    Grows E s (s.modify w fun t => { t with newMsgFd := ds }) :=
  Edit.grows { Edit.refl E s.log w (s.workThread w) with
    pipe := Or.inl (hq ▸ List.sublist_cons_self d ds)
    popped := Or.inr h }

theorem grows_newMsgLoop {w : ℕ} (hw : E (.popped w)) (msgs : List TransData)
    (hs : ∀ d ∈ msgs, ∀ conn, E (.sent ⟨conn, .relay d, d.data.take d.dataSize.toNat⟩))
    (hd : ∀ d ∈ msgs, E (.obs (.deletedTrans d))) (s : Server)
    (hq : (s.workThread w).newMsgFd = msgs) : Grows E s (newMsgLoop w msgs s) := by
  induction msgs generalizing s with
  | nil => exact Grows.refl s
  | cons d ds ih =>
    apply ((grows_pop hw hq).trans (grows_handleMsg hE (hs d List.mem_cons_self)
      (hd d List.mem_cons_self))).trans
    apply ih (fun d' hd' => hs d' (List.mem_cons_of_mem d hd'))
      fun d' hd' => hd d' (List.mem_cons_of_mem d hd')
    rw [newMsgFd_handleMsg]
    simp [modify]

theorem grows_kick {w : ℕ} {id : UInt64} : Grows E s (s.kick w id) := by
  simp only [kick]
  split
  · exact Grows.refl s
  · refine Grows.trans ?_ (grows_modify rfl fun _ _ h => Table.lookup_of_erase h)
    split_ifs
    · exact (grows_bufferEventFree hE).trans (grows_modify rfl fun _ _ h => h)
    · exact Grows.refl s

theorem grows_takeCommand {w i : ℕ} {cmd : RedisCommand} {reply : Option RedisReply}
    (hc : (s.workThread w).redis[i]? = some cmd) (h : E (.taken w cmd)) :
    Grows E s (s.takeCommand w i cmd reply) := by
  apply Grows.trans _ (grows_emit (hE.obs _ rfl))
  refine Edit.grows { Edit.refl E s.log w (s.workThread w) with
    redis := Or.inl (List.eraseIdx_sublist _ _)
    taken := ?_ }
  intro c hm
  by_cases hcm : c = cmd
  · exact Or.inr (hcm ▸ h)
  · obtain ⟨j, hj⟩ := List.mem_iff_getElem?.mp hm
    refine Or.inl (List.mem_eraseIdx_iff_getElem?.mpr ⟨j, ?_, hj⟩)
    rintro rfl
    rw [hc] at hj
    exact hcm (Option.some.inj hj).symm

end Callbacks

section Requests

variable (hE : Tolerant E) {env : Env} {w conn : ℕ} {b : Addr} {id : UInt64}

include hE

omit hE in
theorem grows_startLogin {d : Option LoginData}
    (h : ∀ l ∈ d, E (.cmd w (tokenCommand (stampLogin w b conn s.nextSeq l))) ∧
      E (.obs (.loginRead w b (stampLogin w b conn s.nextSeq l)))) :
    Grows E s (startLogin w b conn s d) := by
  cases d with
  | none => exact Grows.refl s
  | some d =>
    obtain ⟨hc, ho⟩ := h d rfl
    exact (grows_nextSeq.trans (grows_redisAsyncCommand hc)).trans (grows_emit ho)

omit hE in
theorem grows_refreshHeartbeat {isHeart : Bool}
    (h : isHeart = true → id ≠ 0 → ∀ sub, (s.workThread w).subMap.lookup id = some sub →
      E (.sub w id (sub.updateHeartbeat env.now)) ∧ E (.obs (.heartbeat w b id))) :
    Grows E s (refreshHeartbeat env w b id s isHeart) := by
  unfold refreshHeartbeat
  split
  · rename_i hh
    simp only [ne_eq, decide_not, Bool.and_eq_true, Bool.not_eq_eq_eq_not, Bool.not_true,
      decide_eq_false_iff_not] at hh
    split
    · rename_i sub hsub
      obtain ⟨hnew, ho⟩ := h hh.1 hh.2 sub hsub
      apply Grows.trans _ (grows_emit ho)
      refine Edit.grows { Edit.refl E s.log w (s.workThread w) with subs := ?_ }
      intro id' sub' hs
      rw [Table.lookup_insert_eq] at hs
      split_ifs at hs with hid
      · obtain rfl := Option.some.inj hs
        exact Or.inr (hid ▸ hnew)
      · exact Or.inl hs
    · exact Grows.refl s
  · exact Grows.refl s

omit hE in
theorem grows_startTrans {d : Option TransData}
    (hread : ∀ l ∈ d, E (.obs (.relayRead w b (((s.workThread w).bevId.lookup b).getD 0)
      (stampRelay w s.nextSeq l))))
    (hcmd : ∀ l ∈ d, E (.cmd w (relationCommand (stampRelay w s.nextSeq l))))
    (henq : ∀ l ∈ d, ∀ j, E (.obs (.enqueued j (stampRelay w s.nextSeq l).toTransData)))
    (hdel : ∀ l ∈ d, E (.obs (.deletedTrans (stampRelay w s.nextSeq l).toTransData))) :
    Grows E s (startTrans env w b id s d) := by
  cases d with
  | none => exact Grows.refl s
  | some d =>
    have hr : Grows E s ({ s with nextSeq := s.nextSeq + 1 }.emit
        (.relayRead w b (((s.workThread w).bevId.lookup b).getD 0) (stampRelay w s.nextSeq d))) :=
      grows_nextSeq.trans (grows_emit (hread d rfl))
    simp only [startTrans]
    split_ifs
    · exact hr.trans (grows_transmit (henq d rfl) (hdel d rfl))
    · exact hr.trans (grows_redisAsyncCommand (hcmd d rfl))
    · exact hr.trans (grows_deleteTrans (hdel d rfl))

end Requests

section Reads

variable {env : Env} {w conn : ℕ} {b : Addr} {σ : Type} (R : Runtime σ)

/-- The read callback is a sequence of turns, each after a successful call of `analyse_data`; after
the first one the parser has nothing pending. What follows them is not seen by the registry and adds
nothing but an echo. -/
theorem bufferEventReadCallback_turns {be : BufferEvent} {P : Server → Prop}
    (ho : be.owner = .client w conn) (hb : s.client b = some (w, conn)) (hP : P s)
    (hturn : ∀ t a input output r, t.registry = s.registry → P t →
      Call R env.mem (s.workThread w).analyseReq be.input a input output r →
        P (handleRequest env w b conn (((s.workThread w).bevId.lookup b).getD 0) t r))
    (ht : s.bufferEventReadCallback R env w conn b be = some t) :
    ∃ x, P x ∧ x.registry = s.registry ∧
      ((t.workThread w).analyseReq.pending = (false, none, none) ∨
        (t.workThread w).analyseReq.pending = (s.workThread w).analyseReq.pending ∧ x = s) ∧
      (t.log = x.log ∧ ∀ a, a ≠ b → t.heap.lookup a = x.heap.lookup a) ∧
        ∀ E, Tolerant E → E (.parser w) → Grows E x t := by
  obtain ⟨x, hx, rfl⟩ := Option.map_eq_some_iff.mp ht
  obtain ⟨hp, hr, -, hpend⟩ : P x.1 ∧ x.1.registry = s.registry ∧ x.2.2.1 <:+ be.input ∧
      (x.2.1.pending = (false, none, none) ∨
        x.2.1.pending = (s.workThread w).analyseReq.pending ∧ x.1 = s) := by
    refine readLoop_rule R (P := fun t a input _ => P t ∧ t.registry = s.registry ∧
      input <:+ be.input ∧ (a.pending = (false, none, none) ∨
        a.pending = (s.workThread w).analyseReq.pending ∧ t = s)) ?_ ?_
      ⟨hP, rfl, List.suffix_rfl, Or.inr ⟨rfl, rfl⟩⟩ hx
    · rintro t a input output r ⟨hp, hr, hin, ha⟩ hlen hcall hret
      refine ⟨hturn t a input output r hr hp ⟨?_, hin, hlen, hcall, hret⟩, ?_, ?_, Or.inl rfl⟩
      · exact ha.elim Or.inr fun hs => Or.inl hs.1
      · rw [registry_handleRequest, hr]
      · exact (analyseData_cases R hcall).1.trans hin
    · rintro t a input output r ⟨hp, hr, hin, ha⟩ hcall hret
      obtain ⟨hsuf, ⟨-, hsame⟩ | ⟨htrue, -⟩⟩ := analyseData_cases R hcall
      · exact ⟨hp, hr, hsuf.trans hin, by rwa [hsame]⟩
      · exact absurd htrue hret
  refine ⟨x.1, hp, hr, ?_, ⟨?_, fun a ha => ?_⟩, fun E hE hparser => ?_⟩
  · rw [workThread_recordSent]
    simpa [setAnalyseReq, setHeap, modify] using hpend
  · unfold recordSent
    split <;> rfl
  · rw [heap_recordSent]
    exact Finmap.lookup_insert_of_ne _ ha
  apply Grows.trans _ (grows_recordSent fun _ => hE.sent _ rfl)
  refine Grows.trans (grows_setAnalyseReq (Or.inr hparser)) (grows_insert ?_ ?_)
  · exact ho ▸ hE.client w conn
  · intro c hc
    change x.1.client b = some c
    rw [client_eq_of_registry_eq hr, hb, ← hc, ho]
    rfl

theorem grows_bufferEventReadCallback {be : BufferEvent} (hE : Tolerant E) (hp : E (.parser w))
    (ho : be.owner = .client w conn) (hb : s.client b = some (w, conn))
    (hturn : ∀ t a input output r,
      Call R env.mem (s.workThread w).analyseReq be.input a input output r → Grows E t
        (handleRequest env w b conn (((s.workThread w).bevId.lookup b).getD 0) t r))
    (ht : s.bufferEventReadCallback R env w conn b be = some t) : Grows E s t := by
  obtain ⟨x, hx, -, -, -, htail⟩ := bufferEventReadCallback_turns R (P := Grows E s) ho hb
    (Grows.refl s) (fun t _ _ _ r _ hg hcall => hg.trans (hturn t _ _ _ r hcall)) ht
  exact hx.trans (htail E hE hp)

end Reads

section Checks

/-- The connection at the address of a request when it is registered. -/
theorem occupant_foldl_notifyDelId (env : Env) (s : Server) (js : List ℕ) (d : LoginData) :
    (js.foldl (notifyDelId env d.id) (s.kick d.workThread d.id)).occupant d.bev =
      (s.registry.kick d.workThread d.id).connAt d.bev := by
  obtain ⟨told, hr, -⟩ := registry_foldl_notifyDelId env d.id js (s.kick d.workThread d.id)
  rw [registry_kick] at hr
  have hl := congrArg (fun r => r.connAt d.bev) hr
  simp only [Registry.connAt, Registry.live_tell] at hl ⊢
  exact hl

/-- The predicate allows what a successful login adds when `occupant` is at its address. -/
structure Admits {σ : Type} (R : Runtime σ) (E : Item → Prop) (env : Env) (d : LoginData)
    (occupant : Option ℕ) : Prop where
  registered : E (.obs (.registered d.workThread d.bev d.id d.conn occupant))
  session : E (.sub d.workThread d.id (({} : Subscriber).setIdBev env.now d.id d.bev))
  friends : E (.cmd d.workThread
    (friendsCommand d.id (.online ⟨d.id, d.bev, d.workThread, d.conn⟩)))
  answer : ∀ conn bs, IsReply R true bs → E (.sent ⟨conn, .loginRsp d true, bs⟩)

variable {σ : Type} (R : Runtime σ) (hE : Tolerant E) {env : Env} {h : Addr}

include hE

theorem grows_replyLogin {d : LoginData} {ok : Bool} {msg : String}
    (hs : ∀ conn bs, IsReply R ok bs → E (.sent ⟨conn, .loginRsp d ok, bs⟩)) :
    Grows E s (s.replyLogin R env d ok msg) :=
  Grows.trans (grows_setAnalyseReq (Or.inl (by rfl)))
    (grows_addOutput hE fun conn => hs conn _ ⟨_, _, _, _, rfl⟩)

omit hE in
theorem grows_bindLogin {d : LoginData} (h : Admits R E env d (s.occupant d.bev)) :
    Grows E s (s.bindLogin env d) := by
  apply Grows.trans ((grows_emit h.registered).trans _) (grows_redisAsyncCommand h.friends)
  refine Edit.grows { Edit.refl E (s.emit (.registered d.workThread d.bev d.id d.conn
    (s.occupant d.bev))).log d.workThread (s.workThread d.workThread) with subs := ?_ }
  intro id sub hs
  rw [Table.lookup_insertNew] at hs
  split_ifs at hs with hid
  · obtain rfl := Option.some.inj hs
    exact Or.inr (hid.1 ▸ h.session)
  · exact Or.inl hs

theorem grows_registerLogin {d : LoginData} {js : List ℕ}
    (h : Admits R E env d ((s.registry.kick d.workThread d.id).connAt d.bev)) :
    Grows E s (s.registerLogin R env d js) := by
  rw [← occupant_foldl_notifyDelId env s js d] at h
  exact (((grows_kick hE).trans (grows_foldl (grows_notifyDelId hE env d.id) js _)).trans
    (grows_bindLogin R h)).trans (grows_replyLogin R hE h.answer)

theorem grows_httpLoginEvent {d : LoginData} {flags : Flags}
    (ho : flags.connected = true → E (.owner (.httpLogin d true)))
    (hs : ∀ conn bs, IsReply R false bs → E (.sent ⟨conn, .loginRsp d false, bs⟩)) :
    Grows E s (s.httpLoginEvent R env h d flags) := by
  simp only [httpLoginEvent]
  split_ifs with hf hi hc
  · exact ((grows_replyLogin R hE hs).trans (grows_deleteLogin hE)).trans (grows_bufferEventFree hE)
  · exact (grows_deleteLogin hE).trans (grows_bufferEventFree hE)
  · split
    · exact Grows.trans (grows_setAnalyseReq (Or.inl (by rfl)))
        (grows_insert (ho hc) (by rintro _ ⟨⟩))
    · exact Grows.trans (grows_setAnalyseReq (Or.inl (by rfl))) (grows_emit (hE.obs _ rfl))
  · exact (Grows.trans (grows_setAnalyseReq (Or.inl (by rfl))) (grows_bufferEventFree hE)).trans
      (grows_deleteLogin hE)
  · exact Grows.refl s

theorem grows_httpLoginCheck {d : LoginData} (ho : E (.owner (.httpLogin d false)))
    (hs : ∀ conn bs, IsReply R false bs → E (.sent ⟨conn, .loginRsp d false, bs⟩)) :
    Grows E s (s.httpLoginCheck R env d) := by
  have hi : Grows E s (s.setHeap
      (s.heap.insert (env.alloc.next s.heap) { owner := .httpLogin d false })) :=
    grows_insert ho (by rintro _ ⟨⟩)
  simp only [httpLoginCheck]
  split
  · exact hi
  · exact ((hi.trans (grows_httpLoginEvent R hE (by simp) hs)).trans
      (grows_bufferEventFree hE)).trans (grows_deleteLogin hE)
  · exact (hi.trans (grows_bufferEventFree hE)).trans (grows_deleteLogin hE)

theorem grows_httpTransEvent {d : Relay} {flags : Flags}
    (ho : flags.connected = true → E (.owner (.httpTrans d true)))
    (hd : E (.obs (.deletedTrans d.toTransData))) :
    Grows E s (s.httpTransEvent R env h d flags) := by
  simp only [httpTransEvent]
  split_ifs with hf hc
  · exact (grows_deleteTrans hd).trans (grows_bufferEventFree hE)
  · split
    · exact (Grows.trans (grows_setAnalyseReq (Or.inl (by rfl))) (grows_emit (hE.obs _ rfl))).trans
        (grows_insert (ho hc) (by rintro _ ⟨⟩))
    · exact Grows.trans (grows_setAnalyseReq (Or.inl (by rfl))) (grows_emit (hE.obs _ rfl))
  · exact (Grows.trans (grows_setAnalyseReq (Or.inl (by rfl))) (grows_bufferEventFree hE)).trans
      (grows_deleteTrans hd)
  · exact Grows.refl s

theorem grows_httpTransCheck {d : Relay} (ho : E (.owner (.httpTrans d false)))
    (hd : E (.obs (.deletedTrans d.toTransData))) :
    Grows E s (s.httpTransCheck R env d) := by
  have hi : Grows E s (s.setHeap
      (s.heap.insert (env.alloc.next s.heap) { owner := .httpTrans d false })) :=
    grows_insert ho (by rintro _ ⟨⟩)
  simp only [httpTransCheck]
  split
  · exact hi
  · exact ((hi.trans (grows_httpTransEvent R hE (by simp) hd)).trans
      (grows_bufferEventFree hE)).trans (grows_deleteTrans hd)
  · exact (hi.trans (grows_bufferEventFree hE)).trans (grows_deleteTrans hd)

theorem grows_redisLoginCallback {d : LoginData} {reply : Option RedisReply}
    (ho : E (.owner (.httpLogin d false)))
    (hs : ∀ conn bs, IsReply R false bs → E (.sent ⟨conn, .loginRsp d false, bs⟩))
    (hacc : RedisAccepts s d reply →
      Admits R E env d ((s.registry.kick d.workThread d.id).connAt d.bev)) :
    Grows E s (s.redisLoginCallback R env d reply) := by
  have ht := redisLoginCallback_outcome R env s d reply
  generalize s.redisLoginCallback R env d reply = t at ht ⊢
  cases ht with
  | gone | repeated => exact grows_deleteLogin hE
  | asked => exact grows_httpLoginCheck R hE ho hs
  | refused => exact (grows_replyLogin R hE hs).trans (grows_deleteLogin hE)
  | accepted ha => exact (grows_registerLogin R hE (hacc ha)).trans (grows_deleteLogin hE)

theorem grows_httpLoginRead {d : LoginData} {data : Bytes}
    (hs : ∀ conn bs, IsReply R false bs → E (.sent ⟨conn, .loginRsp d false, bs⟩))
    (hacc : d.bev ∈ (s.workThread d.workThread).bevId →
      (analyseLoginData R (s.workThread d.workThread).analyseReq data).1 = true →
        Admits R E env d ((s.registry.kick d.workThread d.id).connAt d.bev)) :
    Grows E s (s.httpLoginRead R env h d data) := by
  have ht := httpLoginRead_verdict R env s h d data
  generalize s.httpLoginRead R env h d data = t at ht ⊢
  cases ht with
  | gone => exact (grows_bufferEventFree hE).trans (grows_deleteLogin hE)
  | accepted hb ha a hp =>
    have hadm := hacc hb ha
    rw [← registry_setAnalyseReq s d.workThread a] at hadm
    exact ((Grows.trans (grows_setAnalyseReq (Or.inl hp)) (grows_registerLogin R hE hadm)).trans
      (grows_bufferEventFree hE)).trans (grows_deleteLogin hE)
  | refused hb hn a hp =>
    exact ((Grows.trans (grows_setAnalyseReq (Or.inl hp)) (grows_replyLogin R hE hs)).trans
      (grows_bufferEventFree hE)).trans (grows_deleteLogin hE)

theorem grows_redisOnlineNotify {info : OnlineInfo} {reply : Option RedisReply}
    (ht : s.redisOnlineNotify R env info reply = some t)
    (hf : info.bev ∈ (s.workThread info.workThread).bevId →
      E (.obs (.friendList info.workThread info.bev info.id info.conn (s.occupant info.bev)))) :
    Grows E s t := by
  simp only [redisOnlineNotify] at ht
  split_ifs at ht with hb
  · obtain ⟨strs, -, rfl⟩ := Option.map_eq_some_iff.mp ht
    have hr := registry_foldl_onlineFriend env info.id (presenceFrame R env info.id 1) strs (s, [])
    refine ((grows_foldl_onlineFriend hE env _ _ strs (s, [])).trans (grows_emit ?_)).trans
      (grows_addOutput hE fun _ => hE.sent _ rfl)
    rw [occupant, client_eq_of_registry_eq hr]
    exact hf hb.2
  · obtain rfl := Option.some.inj ht
    exact Grows.refl s

theorem grows_httpTransRead {d : Relay} {data : Bytes}
    (henq : ∀ j, E (.obs (.enqueued j d.toTransData)))
    (hd : E (.obs (.deletedTrans d.toTransData))) :
    Grows E s (s.httpTransRead R env h d data) := by
  have hr : Grows E s (s.setAnalyseReq d.workThread
      (analyseRelationData R (s.workThread d.workThread).analyseReq data).2) :=
    grows_setAnalyseReq (Or.inl (pending_analyseRelationData R _ data))
  simp only [httpTransRead]
  refine Grows.trans ?_ (grows_bufferEventFree hE)
  split_ifs
  · exact (hr.trans (grows_emit (hE.obs _ rfl))).trans (grows_transmit henq hd)
  · exact (hr.trans (grows_emit (hE.obs _ rfl))).trans (grows_deleteTrans hd)

theorem grows_redisOfflineNotify {info : OfflineInfo} {reply : Option RedisReply}
    (ht : s.redisOfflineNotify R env info reply = some t) : Grows E s t := by
  obtain ⟨strs, -, rfl⟩ := Option.map_eq_some_iff.mp ht
  exact grows_foldl (grows_offlineFriend hE env _ _) strs s

end Checks

theorem Quiet.grows (hE : Tolerant E) {env : Env} {ev : Event} (h : s.Quiet env ev t)
    (hconn : ∀ w, ev.feeds w = true → E (.conns w))
    (hpop : ∀ w, ev = .newMsg w → E (.popped w))
    (hmsg : ∀ w, ev = .newMsg w → ∀ d ∈ (s.workThread w).newMsgFd,
      ∀ conn, E (.sent ⟨conn, .relay d, d.data.take d.dataSize.toNat⟩))
    (hdel : ∀ w, ev = .newMsg w → ∀ d ∈ (s.workThread w).newMsgFd, E (.obs (.deletedTrans d))) :
    Grows E s t := by
  cases h with
  | acceptConn fd =>
    unfold acceptCallback
    split_ifs
    · exact grows_notifyNewConn env fd s (hconn _ rfl)
    · exact Grows.refl s
    · exact Grows.refl s
  | timer => exact grows_foldl (fun s j => grows_notifyNewConn env (-2) s (hconn j rfl)) _ s
  | stop w => exact grows_notifyNewConn env (-1) s (hconn w rfl)
  | newConn w => exact grows_newConnLoop hE (hconn w (by simp [Event.feeds])) _ 0 s
  | newMsg w => exact grows_newMsgLoop hE (hpop w rfl) _ (hmsg w rfl) (hdel w rfl) s rfl
  | clientEvent flags hb => exact grows_bufferEventEventCallback hE

end Server

end EglComet
