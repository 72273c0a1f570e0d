import EglComet.Library.Lane
import EglComet.WorkThread.Delivery
import EglComet.WorkThread.LiveKeys
import EglComet.WorkThread.Writes

/-!
The order of the relays from one id to another. Relays are numbered as they are
read; each waits for redis, may then wait for the HTTP service, and goes through
the pipe of the worker that has the recipient. Redis and the pipes keep the
order, so the relays arrive in order as long as none passes an older one that
is being checked over HTTP.
-/
namespace EglComet

open Protobuf

/-- Redis answers the commands of a worker in the order in which they were given. -/
def Event.inTurn : Event → Bool
  | .redisReply _ i _ => i == 0
  | _ => true

/-- The relays from one id to another that worker `reader` reads, from number `since` on. -/
structure Talk where
  fromId : UInt64
  toId : UInt64
  reader : ℕ
  since : ℕ

namespace Talk

/-- The number of a record that is a relay of the conversation. -/
def number (k : Talk) (d : TransData) : Option ℕ :=
  if d.origin = .client ∧ d.fromId = k.fromId ∧ d.toId = k.toId ∧ d.workThread = k.reader ∧
    k.since ≤ d.seq then some d.seq else none

/-- The relay of the conversation that a redis command waits for. -/
def asks (k : Talk) (c : RedisCallback) : Option ℕ :=
  c.transData.bind fun d => k.number d.toTransData

/-- The relay of the conversation that bytes were sent for. -/
def carries (k : Talk) : Source → Option ℕ
  | .relay d => k.number d
  | _ => none

/-- The relays are not checked at all. -/
def direct (k : Talk) : Bool := wideId k.fromId || wideId k.toId

/-- Signals that are about no relay of the conversation. -/
def Aside (k : Talk) : Signal → Prop
  | .command c => k.asks c.callback = none
  | .record d => k.number d = none
  | .bytes source => k.carries source = none

variable {k : Talk} {d : TransData} {n : ℕ}

theorem number_eq_some : k.number d = some n ↔
    (d.origin = .client ∧ d.fromId = k.fromId ∧ d.toId = k.toId ∧ d.workThread = k.reader ∧
      k.since ≤ d.seq) ∧ d.seq = n := by
  simp only [number, Option.ite_none_right_eq_some, Option.some.injEq]

theorem number_of_server (h : d.origin = .server) : k.number d = none :=
  if_neg fun hc => by simp [h] at hc

theorem permissive_aside (k : Talk) : Server.Permissive k.Aside where
  token _ := rfl
  online _ _ := rfl
  offline _ _ := rfl
  notice _ hd := number_of_server hd
  reply _ _ := rfl
  list _ := rfl

end Talk

namespace Server

/-- The relays that wait for redis at worker `w`, in the order of the commands. -/
def asked (s : Server) (k : Talk) (w : ℕ) : List ℕ :=
  (s.workThread w).redis.filterMap fun c => k.asks c.callback

/-- The relays in the pipe of worker `v`. -/
def piped (s : Server) (k : Talk) (v : ℕ) : List ℕ := (s.workThread v).newMsgFd.filterMap k.number

/-- The relays that were appended to the output of connection `conn`, in this order. -/
def delivered (s : Server) (k : Talk) (conn : ℕ) : List ℕ :=
  s.sent.filterMap fun e => if e.conn = conn then k.carries e.source else none

/-- The relay that is checked over HTTP at an address. -/
def checkedAt (s : Server) (k : Talk) (a : Addr) : Option ℕ :=
  (s.heap.lookup a).bind fun be => be.owner.transData.bind fun d => k.number d.toTransData

/-- The relays that are checked over HTTP. -/
def checking (s : Server) (k : Talk) : Set ℕ := {n | ∃ a, s.checkedAt k a = some n}

/-- No relay of the conversation moves, except that checks may end. -/
structure Apart (k : Talk) (s t : Server) : Prop where
  asked : ∀ w, t.asked k w = s.asked k w
  piped : ∀ v, t.piped k v = s.piped k v
  delivered : ∀ conn, t.delivered k conn = s.delivered k conn
  nextSeq : s.nextSeq ≤ t.nextSeq

section Apart

variable {k : Talk} {s t u : Server} {env : Env}

theorem Apart.refl (k : Talk) (s : Server) : Apart k s s :=
  ⟨fun _ => rfl, fun _ => rfl, fun _ => rfl, le_rfl⟩

theorem Apart.trans (h : Apart k s t) (h' : Apart k t u) : Apart k s u where
  asked w := (h'.asked w).trans (h.asked w)
  piped v := (h'.piped v).trans (h.piped v)
  delivered conn := (h'.delivered conn).trans (h.delivered conn)
  nextSeq := h.nextSeq.trans h'.nextSeq

theorem asked_redisAsyncCommand (s : Server) (k : Talk) (w v : ℕ) (c : RedisCommand) :
    (s.redisAsyncCommand w c).asked k v =
      s.asked k v ++ if v = w then (k.asks c.callback).toList else [] := by
  rw [asked, asked, workThread_redisAsyncCommand, List.filterMap_append]
  split_ifs
  · cases ha : k.asks c.callback <;> simp [ha]
  · rfl

theorem piped_redisAsyncCommand (s : Server) (k : Talk) (w v : ℕ) (c : RedisCommand) :
    (s.redisAsyncCommand w c).piped k v = s.piped k v := by
  rw [piped, piped, workThread_redisAsyncCommand]

theorem piped_enqueue (s : Server) (k : Talk) (j v : ℕ) (d : TransData) :
    (s.enqueue j d).piped k v = s.piped k v ++ if v = j then (k.number d).toList else [] := by
  rw [piped, piped, workThread_enqueue, List.filterMap_append]
  split_ifs
  · cases hn : k.number d <;> simp [hn]
  · rfl

theorem asked_enqueue (s : Server) (k : Talk) (j w : ℕ) (d : TransData) :
    (s.enqueue j d).asked k w = s.asked k w := by
  rw [asked, asked, workThread_enqueue]

/-- Writes that are not about the conversation. -/
theorem Writes.apart (h : Writes k.Aside s t) : Apart k s t := by
  induction h with
  | refl => exact Apart.refl k s
  | @tail u v _ hw ih =>
    apply ih.trans
    cases hw with
    | plain hr hq hs hn =>
      refine ⟨fun w => ?_, fun w => ?_, fun conn => ?_, hn⟩
      · rw [Server.asked, hr]
        rfl
      · rw [Server.piped, hq]
        rfl
      · rw [Server.delivered, hs]
        rfl
    | command w c hc =>
      change k.asks c.callback = none at hc
      refine ⟨fun v => ?_, fun v => piped_redisAsyncCommand u k w v c, fun conn => rfl, le_rfl⟩
      rw [asked_redisAsyncCommand, hc]
      simp
    | record j d hd =>
      change k.number d = none at hd
      refine ⟨fun w => asked_enqueue u k j w d, fun v => ?_, fun conn => rfl, le_rfl⟩
      rw [piped_enqueue, hd]
      simp
    | bytes o source bs hb =>
      change k.carries source = none at hb
      unfold recordSent
      split
      · refine ⟨fun _ => rfl, fun _ => rfl, fun conn => ?_, le_rfl⟩
        simp [Server.delivered, hb]
      · exact Apart.refl k u

/-- A record that is offered to the workers goes into one pipe at most. -/
theorem piped_transmit (env : Env) (s : Server) (k : Talk) (d : TransData) (v : ℕ) :
    (s.transmit env d).piped k v = s.piped k v ∨
      (s.transmit env d).piped k v = s.piped k v ++ (k.number d).toList := by
  rw [transmit_eq]
  split
  · rw [piped_enqueue]
    split_ifs
    · exact Or.inr rfl
    · exact Or.inl (List.append_nil _)
  · exact Or.inl rfl

theorem asked_transmit (env : Env) (s : Server) (k : Talk) (d : TransData) (w : ℕ) :
    (s.transmit env d).asked k w = s.asked k w := by
  rw [transmit_eq]
  split
  · rw [asked_enqueue]
    rfl
  · rfl

theorem delivered_transmit (env : Env) (s : Server) (k : Talk) (d : TransData) (conn : ℕ) :
    (s.transmit env d).delivered k conn = s.delivered k conn := by
  rw [transmit_eq]
  split <;> rfl

end Apart

/-- What is delivered to `conn` or waits for it at worker `v`, what waits for redis, and the relays
`S` on the side are in order. -/
structure Sequenced (k : Talk) (v conn : ℕ) (S : Set ℕ) (s : Server) : Prop where
  lane : (⟨s.delivered k conn ++ s.piped k v, s.asked k k.reader, S⟩ : Lane ℕ).Ordered s.nextSeq
  home : ∀ w, w ≠ k.reader → s.asked k w = []
  direct : k.direct = true → s.asked k k.reader = [] ∧ S = ∅

section Sequenced

variable {k : Talk} {v conn : ℕ} {S S' : Set ℕ} {s t : Server} {env : Env}

theorem Sequenced.apart (h : Sequenced k v conn S s) (ha : Apart k s t) (hs : S' ⊆ S) :
    Sequenced k v conn S' t where
  lane := by
    rw [ha.delivered, ha.piped, ha.asked]
    exact h.lane.shrink (List.Sublist.refl _) (List.Sublist.refl _) hs ha.nextSeq
  home w hw := (ha.asked w).trans (h.home w hw)
  direct hd := by
    obtain ⟨hq, hS⟩ := h.direct hd
    exact ⟨(ha.asked _).trans hq, Set.subset_eq_empty hs hS⟩

/-- A relay that was just numbered is sent on without a check. -/
theorem Sequenced.send {d : TransData} {n : ℕ} (h : Sequenced k v conn S s)
    (hk : k.number d = some n) (hd : k.direct = true) (hseq : s.nextSeq ≤ n) (ht : Apart k s t)
    (hn : n < t.nextSeq) : Sequenced k v conn S (t.transmit env d) := by
  have hkeep : Sequenced k v conn S t := h.apart ht subset_rfl
  obtain ⟨hq, hS⟩ := h.direct hd
  constructor
  · rw [delivered_transmit, asked_transmit, nextSeq_transmit]
    rcases piped_transmit env t k d v with hp | hp
    · rw [hp]
      exact hkeep.lane
    · rw [hp, hk, Option.toList_some, ← List.append_assoc, ht.delivered, ht.piped, ht.asked]
      exact h.lane.send hq hS hseq hn
  · intro w hw
    rw [asked_transmit]
    exact hkeep.home w hw
  · intro hd
    rw [asked_transmit]
    exact hkeep.direct hd

/-- A relay that was just numbered waits for redis. -/
theorem Sequenced.ask {d : Relay} {n : ℕ} (h : Sequenced k v conn S s)
    (hk : k.number d.toTransData = some n) (hd : k.direct = false) (hseq : s.nextSeq ≤ n)
    (ht : Apart k s t) (hn : n < t.nextSeq) :
    Sequenced k v conn S (t.redisAsyncCommand k.reader (relationCommand d)) := by
  have hkeep : Sequenced k v conn S t := h.apart ht subset_rfl
  have hasks : k.asks (relationCommand d).callback = some n := hk
  constructor
  · rw [asked_redisAsyncCommand, piped_redisAsyncCommand, hasks, if_pos rfl, ht.asked]
    change (⟨t.delivered k conn ++ t.piped k v, _, S⟩ : Lane ℕ).Ordered t.nextSeq
    rw [ht.delivered, ht.piped]
    exact h.lane.ask hseq hn
  · intro w hw
    rw [asked_redisAsyncCommand, if_neg hw, List.append_nil]
    exact hkeep.home w hw
  · intro hdir
    simp [hd] at hdir

theorem Sequenced.startTrans {w : ℕ} {b : Addr} {id : UInt64} (h : Sequenced k v conn S s)
    (d : Option TransData) : Sequenced k v conn S (startTrans env w b id s d) := by
  cases d with
  | none => exact h
  | some l =>
    have hr : ∀ o : Obs, Apart k s ({ s with nextSeq := s.nextSeq + 1 }.emit o) := fun o =>
      (writes_nextSeq.trans (writes_emit o)).apart
    cases hk : k.number (stampRelay w s.nextSeq l).toTransData with
    | none =>
      simp only [Server.startTrans]
      split_ifs
      · exact h.apart ((hr _).trans (Writes.apart (writes_transmit hk))) subset_rfl
      · exact h.apart ((hr _).trans (Writes.apart (writes_redisAsyncCommand hk))) subset_rfl
      · exact h.apart ((hr _).trans (writes_deleteTrans _).apart) subset_rfl
    | some n =>
      obtain ⟨⟨-, hfrom, hto, hreader, -⟩, hn⟩ := Talk.number_eq_some.mp hk
      change l.fromId = k.fromId at hfrom
      change l.toId = k.toId at hto
      change w = k.reader at hreader
      change s.nextSeq = n at hn
      subst hreader
      have hlt : n < s.nextSeq + 1 := by omega
      simp only [Server.startTrans]
      split_ifs with hid hwide
      · refine h.send hk ?_ hn.le (hr _) hlt
        rw [Talk.direct, ← hfrom, ← hto, ← hid.2]
        exact hwide
      · refine h.ask hk ?_ hn.le (hr _) hlt
        rw [Talk.direct, ← hfrom, ← hto, ← hid.2]
        exact Bool.eq_false_iff.mpr hwide
      · exact h.apart ((hr _).trans (writes_deleteTrans _).apart) subset_rfl

theorem Sequenced.handleRequest {w c : ℕ} {b : Addr} {id : UInt64} (h : Sequenced k v conn S s)
    (r : Analysed) : Sequenced k v conn S (handleRequest env w b c id s r) := by
  apply Sequenced.startTrans
  apply h.apart _ subset_rfl
  exact Writes.apart ((writes_startLogin k.permissive_aside.token _).trans
    writes_refreshHeartbeat)

end Sequenced

/-- The connection that worker `j` takes for the one of `id`. -/
def servedBy (s : Server) (j : ℕ) (id : UInt64) : Option ℕ :=
  ((s.workThread j).subMap.lookup id).bind fun sub => s.occupant sub.bev

section Pipes

variable {k : Talk} {v w conn : ℕ} {S : Set ℕ} {s t : Server} {d : TransData}

theorem servedBy_eq (s : Server) (j : ℕ) (id : UInt64) :
    s.servedBy j id = ((s.registry.dir j).holder id).bind s.registry.connAt := by
  change _ = (((s.workThread j).subMap.lookup id).map Subscriber.bev).bind s.occupant
  rw [Option.bind_map]
  rfl

/-- Handling a record ends sessions at most. -/
theorem servedBy_handleMsg {j : ℕ} {id : UInt64} (h : (handleMsg w s d).servedBy j id = some conn) :
    s.servedBy j id = some conn := by
  rw [servedBy_eq] at h ⊢
  cases hm : d.msgType with
  | trans =>
    rw [registry_handleMsg_trans hm] at h
    exact h
  | delId =>
    rw [registry_handleMsg_delId hm] at h
    obtain ⟨b, hb, hc⟩ := Option.bind_eq_some_iff.mp h
    have hholder := Registry.holder_kick w j d.toId id s.registry
    change ((s.registry.kick w d.toId).dir j).holder id = some b at hb
    rw [hb] at hholder
    have hlive := Registry.live_kick w d.toId b s.registry
    change ((s.registry.kick w d.toId).live b).map Prod.snd = some conn at hc
    split_ifs at hholder with hj
    split_ifs at hlive with hl
    · simp [hlive] at hc
    · rw [hlive] at hc
      exact Option.bind_eq_some_iff.mpr ⟨b, hholder.symm, hc⟩

/-- A relay is appended to the connection that the worker takes for the recipient's. -/
theorem delivered_handleMsg (k : Talk) (conn w : ℕ) (s : Server) (d : TransData) :
    (handleMsg w s d).delivered k conn = s.delivered k conn ∨
      (handleMsg w s d).delivered k conn = s.delivered k conn ++ (k.number d).toList ∧
        s.servedBy w d.toId = some conn := by
  have hsent := sent_handleMsg w s d
  have hplain : (handleMsg w s d).sent = s.sent →
      (handleMsg w s d).delivered k conn = s.delivered k conn := by
    intro he
    rw [delivered, he]
    rfl
  cases hm : d.msgType with
  | delId =>
    rw [hm] at hsent
    exact Or.inl (hplain (hsent.trans (List.append_nil _)))
  | trans =>
    cases hs : (s.workThread w).subMap.lookup d.toId with
    | none =>
      rw [hm, hs] at hsent
      exact Or.inl (hplain (hsent.trans (List.append_nil _)))
    | some sub =>
      rw [hm, hs] at hsent
      cases ho : s.occupant sub.bev with
      | none =>
        simp only [entryAt, ho] at hsent
        exact Or.inl (hplain (hsent.trans (List.append_nil _)))
      | some c =>
        simp only [entryAt, ho] at hsent
        by_cases hc : c = conn
        · subst hc
          right
          refine ⟨?_, by simp [servedBy, hs, ho]⟩
          cases hn : k.number d <;> simp [delivered, hsent, Talk.carries, hn]
        · left
          simp [delivered, hsent, hc]

/-- One turn of the loop that reads a pipe. -/
theorem Sequenced.turn {ds : List TransData} (h : Sequenced k v conn S s)
    (hq : (s.workThread w).newMsgFd = d :: ds)
    (hsole : w ≠ v → s.servedBy w k.toId ≠ some conn) :
    Sequenced k v conn S (handleMsg w (s.modify w fun t => { t with newMsgFd := ds }) d) := by
  let u := s.modify w fun t => { t with newMsgFd := ds }
  have hw : Writes (fun i => ∃ source, i = .bytes source) u (handleMsg w u d) :=
    writes_handleMsg ⟨_, rfl⟩
  obtain ⟨hr, hp, hn⟩ := hw.queues (by simp) (by simp)
  have hasked : ∀ x, (handleMsg w u d).asked k x = s.asked k x := by
    intro x
    rw [asked, hr]
    by_cases hx : x = w
    · subst hx
      simp [u, modify, asked]
    · simp [u, modify, asked, hx]
  have hpiped : (handleMsg w u d).piped k v = u.piped k v := by
    rw [piped, hp]
    rfl
  have hserved : u.servedBy w k.toId = s.servedBy w k.toId := by
    simp [servedBy, u, modify, occupant, client]
  have hlane := h.lane
  change Sequenced k v conn S (handleMsg w u d)
  constructor
  · rw [hasked, hpiped]
    by_cases hv : v = w
    · subst hv
      have hpop : u.piped k v = ds.filterMap k.number := by simp [piped, u, modify]
      have hold : s.piped k v = (k.number d).toList ++ ds.filterMap k.number := by
        rw [piped, hq]
        cases hnum : k.number d <;> simp [hnum]
      rw [hold] at hlane
      refine hlane.shrink ?_ (List.Sublist.refl _) subset_rfl hn
      rw [hpop]
      rcases delivered_handleMsg k conn v u d with hd | ⟨hd, -⟩
      · rw [hd]
        exact (List.Sublist.refl _).append (List.sublist_append_right _ _)
      · rw [hd, List.append_assoc]
        exact List.Sublist.refl _
    · have hsame : u.piped k v = s.piped k v := by simp [piped, u, modify, hv]
      have hd : (handleMsg w u d).delivered k conn = s.delivered k conn := by
        rcases delivered_handleMsg k conn w u d with hd | ⟨hd, hto⟩
        · exact hd
        · cases hnum : k.number d with
          | none =>
            rw [hd, hnum]
            exact List.append_nil _
          | some n =>
            obtain ⟨⟨-, -, hk, -⟩, -⟩ := Talk.number_eq_some.mp hnum
            rw [hk, hserved] at hto
            exact absurd hto (hsole (Ne.symm hv))
      rw [hsame, hd]
      exact hlane.shrink (List.Sublist.refl _) (List.Sublist.refl _) subset_rfl hn
  · exact fun x hx => (hasked x).trans (h.home x hx)
  · exact fun hd => ⟨(hasked _).trans (h.direct hd).1, (h.direct hd).2⟩

theorem Sequenced.newMsgLoop (msgs : List TransData) (h : Sequenced k v conn S s)
    (hq : (s.workThread w).newMsgFd = msgs)
    (hsole : w ≠ v → s.servedBy w k.toId ≠ some conn) :
    Sequenced k v conn S (newMsgLoop w msgs s) := by
  induction msgs generalizing s with
  | nil => exact h
  | cons d ds ih =>
    apply ih (h.turn hq hsole)
    · rw [newMsgFd_handleMsg]
      simp [modify]
    · intro hne hs
      apply hsole hne
      have hu := servedBy_handleMsg hs
      simpa [servedBy, modify, occupant, client] using hu

end Pipes

/-- The relay that the command at a position of a redis queue waits for. -/
def askedAt (s : Server) (k : Talk) (w i : ℕ) : Option ℕ :=
  (s.workThread w).redis[i]?.bind fun c => k.asks c.callback

section Checks

variable {σ : Type} {R : Runtime σ} {k : Talk} {v w conn n : ℕ} {s t : Server} {x : Env × Event}

theorem exists_of_checkedAt {a : Addr} (h : s.checkedAt k a = some n) :
    ∃ be d, s.heap.lookup a = some be ∧ be.owner.transData = some d ∧
      k.number d.toTransData = some n := by
  obtain ⟨be, hb, hd⟩ := Option.bind_eq_some_iff.mp h
  obtain ⟨d, hd, hn⟩ := Option.bind_eq_some_iff.mp hd
  exact ⟨be, d, hb, hd, hn⟩

theorem tally_of_checkedAt {a : Addr} (h : s.checkedAt k a = some n) :
    k.since ≤ n ∧ 0 < s.tally n (some (.http a)) := by
  obtain ⟨be, d, hb, hd, hn⟩ := exists_of_checkedAt h
  obtain ⟨⟨-, -, -, -, hsince⟩, hseq⟩ := Talk.number_eq_some.mp hn
  have ho : be.owner.number = some n := by
    cases hbe : be.owner with
    | httpTrans r sent =>
      obtain rfl : r = d := by simpa [hbe, Owner.transData] using hd
      simp [Owner.number, hseq]
    | client | httpLogin => simp [hbe, Owner.transData] at hd
  exact ⟨hseq ▸ hsince, by simp [tally, copies, hb, ho]⟩

/-- The checks that an event can start or go on with. -/
def ChecksFrom (s : Server) (ev : Event) : Item → Prop
  | .owner o => ∀ d ∈ o.transData, d ∈ s.checkedRelay ev
  | _ => True

theorem permits_checksFrom (s : Server) (x : Env × Event) :
    s.Permits R x (s.ChecksFrom x.2) where
  obs _ _ := trivial
  offline _ _ := trivial
  client _ _ := by
    rintro d ⟨⟩
  sent _ _ := trivial
  conns _ _ := trivial
  taken _ _ _ _ _ _ := trivial
  popped _ _ := trivial
  forwarded _ _ _ _ _ := trivial
  handled _ _ _ _ := trivial
  parser _ _ _ _ _ := trivial
  login _ _ _ _ _ _ _ _ _ _ _ _ _ := ⟨trivial, trivial⟩
  heartbeat _ _ _ _ _ _ _ _ _ _ _ _ _ _ := ⟨fun _ => trivial, trivial⟩
  relay _ _ _ _ _ _ _ _ _ _ _ _ _ := ⟨fun _ => trivial, trivial, fun _ => trivial, trivial⟩
  loginOwner _ _ _ := by
    rintro d ⟨⟩
  refused _ _ _ _ _ := trivial
  admitted _ _ := ⟨trivial, trivial, trivial, fun _ _ _ => trivial⟩
  transOwner d hd _ := by
    rintro _ ⟨⟩
    exact hd
  enqueued _ _ _ := trivial
  dropped _ _ := trivial
  friends _ _ _ _ _ _ _ _ _ := trivial

/-- A relay that is checked was checked before, unless redis has just answered about it. -/
theorem checking_step (ht : step R s x = some t) (hn : n ∈ t.checking k) :
    n ∈ s.checking k ∨ ∃ w i reply, x.2 = .redisReply w i reply ∧ s.askedAt k w i = some n := by
  obtain ⟨a, ha⟩ := hn
  obtain ⟨be, d, hb, hd, hk⟩ := exists_of_checkedAt ha
  rcases ((permits_checksFrom s x).step ht).heap a be hb with ⟨a', be', hb', ho⟩ | he
  · refine Or.inl ⟨a', ?_⟩
    simp [checkedAt, hb', ho, hd, hk]
  · have hfrom : d ∈ s.checkedRelay x.2 := he d hd
    obtain ⟨env, ev⟩ := x
    have hheap : ∀ h, (s.heap.lookup h).bind (fun be => be.owner.transData) = some d →
        n ∈ s.checking k := by
      intro h hl
      obtain ⟨be', hb', hd'⟩ := Option.bind_eq_some_iff.mp hl
      exact ⟨h, by simp [checkedAt, hb', hd', hk]⟩
    cases ev with
    | redisReply w i reply =>
      obtain ⟨c, hc, hd'⟩ := Option.bind_eq_some_iff.mp hfrom
      exact Or.inr ⟨w, i, reply, rfl, by simp [askedAt, hc, Talk.asks, hd', hk]⟩
    | httpRead h chunk => exact Or.inl (hheap h hfrom)
    | httpEvent h flags => exact Or.inl (hheap h hfrom)
    | acceptConn | timer | stop | newConn | newMsg | clientRead | clientEvent =>
      simp [checkedRelay] at hfrom

end Checks

section Answers

variable {σ : Type} (R : Runtime σ) {env : Env} {k : Talk} {v w conn n : ℕ} {s t : Server}

/-- Redis answers the first command of a worker. -/
theorem asked_takeCommand {cmd : RedisCommand} (reply : Option RedisReply) (k : Talk)
    (hc : (s.workThread w).redis[0]? = some cmd) (x : ℕ) :
    s.asked k x = (if x = w then (k.asks cmd.callback).toList else []) ++
      (s.takeCommand w 0 cmd reply).asked k x := by
  by_cases hx : x = w
  · subst hx
    obtain ⟨q, hq⟩ : ∃ q, (s.workThread x).redis = cmd :: q := by
      cases hr : (s.workThread x).redis with
      | nil => simp [hr] at hc
      | cons c q =>
        obtain rfl : c = cmd := by simpa [hr] using hc
        exact ⟨q, rfl⟩
    cases ha : k.asks cmd.callback <;> simp [asked, takeCommand, modify, emit, hq, ha]
  · simp [asked, takeCommand, modify, emit, hx]

theorem piped_takeCommand {cmd : RedisCommand} (reply : Option RedisReply) (i x : ℕ) :
    (s.takeCommand w i cmd reply).piped k x = s.piped k x := by
  by_cases hx : x = w
  · subst hx
    simp [piped, takeCommand, modify, emit]
  · simp [piped, takeCommand, modify, emit, hx]

/-- An answer that is about no relay of the conversation. -/
theorem apart_redisCallback {cmd : RedisCommand} {reply : Option RedisReply}
    (hc : (s.workThread w).redis[0]? = some cmd) (hn : k.asks cmd.callback = none)
    (ht : redisCallback R env (s.takeCommand w 0 cmd reply) reply cmd.callback = some t) :
    Apart k s t := by
  have htake : Apart k s (s.takeCommand w 0 cmd reply) := by
    refine ⟨fun x => ?_, piped_takeCommand reply 0, fun _ => rfl, le_rfl⟩
    have ha := asked_takeCommand reply k hc x
    rw [hn] at ha
    simpa using ha.symm
  apply htake.trans
  cases hcb : cmd.callback with
  | login d =>
    rw [hcb] at ht
    obtain rfl := Option.some.inj ht
    exact (writes_redisLoginCallback R k.permissive_aside).apart
  | trans d =>
    rw [hcb] at ht hn
    obtain ⟨r, -, rfl⟩ := Option.map_eq_some_iff.mp ht
    split_ifs
    · exact (writes_httpTransCheck R).apart
    · exact Writes.apart (writes_transmit hn)
  | online info =>
    rw [hcb] at ht
    exact (writes_redisOnlineNotify R k.permissive_aside ht).apart
  | offline info =>
    rw [hcb] at ht
    exact (writes_redisOfflineNotify R k.permissive_aside ht).apart

/-- Relay `n`, the first in line, is taken from the queue of its reader. -/
structure TakesFirst (k : Talk) (n : ℕ) (s u : Server) : Prop where
  first : s.asked k k.reader = n :: u.asked k k.reader
  others : ∀ x, x ≠ k.reader → u.asked k x = s.asked k x
  piped : ∀ x, u.piped k x = s.piped k x
  delivered : ∀ conn, u.delivered k conn = s.delivered k conn
  nextSeq : u.nextSeq = s.nextSeq

theorem takesFirst_takeCommand {cmd : RedisCommand} (reply : Option RedisReply)
    (hc : (s.workThread k.reader).redis[0]? = some cmd) (hn : k.asks cmd.callback = some n) :
    TakesFirst k n s (s.takeCommand k.reader 0 cmd reply) where
  first := by
    have ha := asked_takeCommand reply k hc k.reader
    rw [if_pos rfl, hn] at ha
    exact ha
  others x hx := by
    have ha := asked_takeCommand reply k hc x
    rw [if_neg hx, List.nil_append] at ha
    exact ha.symm
  piped x := piped_takeCommand reply 0 x
  delivered _ := rfl
  nextSeq := rfl

variable {S S' : Set ℕ} {u : Server}

theorem Sequenced.not_direct (h : Sequenced k v conn S s) (hu : TakesFirst k n s u) :
    ¬ k.direct = true := by
  intro hd
  have hnil := (h.direct hd).1
  rw [hu.first] at hnil
  cases hnil

/-- Redis confirms the first relay in line, and no older one is on the side. -/
theorem Sequenced.confirm {d : TransData} (h : Sequenced k v conn S s) (hu : TakesFirst k n s u)
    (hn : k.number d = some n) (hs : ∀ m ∈ S, ¬ m < n) :
    Sequenced k v conn S (u.transmit env d) where
  lane := by
    rw [delivered_transmit, asked_transmit, nextSeq_transmit, hu.delivered, hu.nextSeq]
    rcases piped_transmit env u k d v with hp | hp
    · rw [hp, hu.piped]
      refine h.lane.shrink (List.Sublist.refl _) ?_ subset_rfl le_rfl
      rw [hu.first]
      exact List.sublist_cons_self _ _
    · rw [hp, hn, Option.toList_some, hu.piped, ← List.append_assoc]
      exact h.lane.hand hu.first hs
  home x hx := by
    rw [asked_transmit, hu.others x hx]
    exact h.home x hx
  direct hd := absurd hd (h.not_direct hu)

/-- The first relay in line has to be checked over HTTP. -/
theorem Sequenced.detour (h : Sequenced k v conn S s) (hu : TakesFirst k n s u) (ht : Apart k u t)
    (hs : S' ⊆ insert n S) : Sequenced k v conn S' t where
  lane := by
    rw [ht.delivered, ht.piped, ht.asked, hu.delivered, hu.piped]
    refine (h.lane.detour hu.first).shrink (List.Sublist.refl _) (List.Sublist.refl _) hs ?_
    rw [← hu.nextSeq]
    exact ht.nextSeq
  home x hx := by
    rw [ht.asked, hu.others x hx]
    exact h.home x hx
  direct hd := absurd hd (h.not_direct hu)

/-- The HTTP service answers about the oldest relay on the side. -/
theorem Sequenced.join {d : TransData} (h : Sequenced k v conn S s) (hu : Apart k s u)
    (hn : k.number d = some n) (hS : n ∈ S) (hs : S' ⊆ S) (hlt : ∀ m ∈ S', n < m) :
    Sequenced k v conn S' (u.transmit env d) where
  lane := by
    rw [delivered_transmit, asked_transmit, nextSeq_transmit, hu.delivered, hu.asked]
    rcases piped_transmit env u k d v with hp | hp
    · rw [hp, hu.piped]
      exact h.lane.shrink (List.Sublist.refl _) (List.Sublist.refl _) hs hu.nextSeq
    · rw [hp, hn, Option.toList_some, hu.piped, ← List.append_assoc]
      exact (h.lane.join hS hs hlt).shrink (List.Sublist.refl _) (List.Sublist.refl _) subset_rfl
        hu.nextSeq
  home x hx := by
    rw [asked_transmit, hu.asked]
    exact h.home x hx
  direct hd := by
    rw [(h.direct hd).2] at hS
    exact absurd hS (Set.notMem_empty n)

end Answers

/-- The relay that goes on because redis confirms it, or that the HTTP service answers about. -/
def answered (s : Server) (k : Talk) : Event → Option ℕ
  | .redisReply w i reply =>
    if reply.any fun r => r.type = .string then s.askedAt k w i else none
  | .httpRead h _ => s.checkedAt k h
  | _ => none

/-- Worker `v` alone takes `conn` for the connection of the recipient, redis answers in turn, and
no relay is answered while an older one is checked over HTTP. -/
structure Unhurried (s : Server) (k : Talk) (v conn : ℕ) (x : Env × Event) : Prop where
  sole : ∀ j < s.workThreadNum, j ≠ v → s.servedBy j k.toId ≠ some conn
  turn : x.2.inTurn = true
  oldest : ∀ n ∈ s.answered k x.2, ∀ a, ∀ m ∈ s.checkedAt k a, n ≤ m

section Step

variable {σ : Type} {R : Runtime σ} {env : Env} {k : Talk} {v w conn n : ℕ} {s t : Server}
  {x : Env × Event}

theorem checking_of_heap (h : t.heap = s.heap) : t.checking k = s.checking k := by
  simp only [checking, checkedAt, h]

theorem Sequenced.redisReply {reply : Option RedisReply} {cmd : RedisCommand}
    (h : Sequenced k v conn (s.checking k) s)
    (hold : ∀ n ∈ s.answered k (.redisReply w 0 reply), ∀ m ∈ s.checking k, n ≤ m)
    (hchk : ∀ n ∈ t.checking k, n ∈ s.checking k ∨ k.asks cmd.callback = some n)
    (hc : (s.workThread w).redis[0]? = some cmd)
    (ht : redisCallback R env (s.takeCommand w 0 cmd reply) reply cmd.callback = some t) :
    Sequenced k v conn (t.checking k) t := by
  cases hn : k.asks cmd.callback with
  | none =>
    apply h.apart (apart_redisCallback R hc hn ht)
    intro n hm
    exact (hchk n hm).resolve_right (by simp [hn])
  | some n =>
    have hw : w = k.reader := by
      by_contra hne
      have hnil := h.home w hne
      rw [asked_takeCommand reply k hc, if_pos rfl, hn] at hnil
      cases hnil
    subst hw
    have hu := takesFirst_takeCommand reply hc hn
    cases hcb : cmd.callback with
    | trans d =>
      rw [hcb] at ht hn
      obtain ⟨r, rfl, rfl⟩ := Option.map_eq_some_iff.mp ht
      by_cases hr : r.type = .string
      · have ho : s.answered k (.redisReply k.reader 0 (some r)) = some n := by
          simp [answered, hr, askedAt, hc, hcb, hn]
        rw [if_neg (not_not.mpr hr), checking_of_heap (heap_transmit env _ _)]
        exact h.confirm hu hn fun m hm hlt => absurd (hold n ho m hm) (not_le.mpr hlt)
      · rw [if_pos hr] at hchk ⊢
        apply h.detour hu (writes_httpTransCheck R).apart
        intro m hm
        rcases hchk m hm with hm | hm
        · exact Set.mem_insert_of_mem n hm
        · rw [hcb, hn] at hm
          exact Or.inl (Option.some.inj hm).symm
    | login | online | offline => simp [hcb, Talk.asks, RedisCallback.transData] at hn

theorem checkedAt_bufferEventFree (s : Server) (k : Talk) (a b : Addr) :
    (s.bufferEventFree a).checkedAt k b = if b = a then none else s.checkedAt k b := by
  simp only [checkedAt, bufferEventFree, setHeap, emit, Table.lookup_erase_eq]
  split_ifs <;> rfl

/-- Two addresses do not check the same relay. -/
theorem Custody.checkedAt_inj (h : s.Custody) {a b : Addr} (ha : s.checkedAt k a = some n)
    (hb : s.checkedAt k b = some n) : b = a := by
  by_contra hne
  have hle := (h.once n).elsewhere (tally_of_checkedAt ha).2 (some (.http b))
  have hpos := (tally_of_checkedAt hb).2
  rw [if_neg (by simpa using hne)] at hle
  omega

/-- The HTTP service answers about a relay. -/
theorem Sequenced.httpTransRead {a : Addr} {d : Relay} {sent : Bool} {input output data : Bytes}
    (h : Sequenced k v conn (s.checking k) s) (hcust : s.Custody)
    (hb : s.heap.lookup a = some ⟨.httpTrans d sent, input, output⟩)
    (hold : ∀ n ∈ s.checkedAt k a, ∀ m ∈ s.checking k, n ≤ m) :
    Sequenced k v conn ((s.httpTransRead R env a d data).checking k)
      (s.httpTransRead R env a d data) := by
  have hat : s.checkedAt k a = k.number d.toTransData := by
    simp [checkedAt, hb, Owner.transData]
  have hleft : ∀ u : Server, u.heap = s.heap → ∀ m ∈ (u.bufferEventFree a).checking k,
      ∃ b, b ≠ a ∧ s.checkedAt k b = some m := by
    rintro u hu m ⟨b, hm⟩
    rw [checkedAt_bufferEventFree] at hm
    split_ifs at hm with hba
    refine ⟨b, hba, ?_⟩
    rw [← hm]
    simp only [checkedAt, hu]
  have hsub : ∀ u : Server, u.heap = s.heap → (u.bufferEventFree a).checking k ⊆ s.checking k := by
    intro u hu m hm
    obtain ⟨b, -, hm⟩ := hleft u hu m hm
    exact ⟨b, hm⟩
  have hu : ∀ (r : AnalyseReq) (o : Obs), Apart k s ((s.setAnalyseReq d.workThread r).emit o) :=
    fun r o => ((writes_setAnalyseReq _ r).trans (writes_emit o)).apart
  have hfree : ∀ u : Server, Apart k u (u.bufferEventFree a) := fun u =>
    (writes_bufferEventFree a).apart
  have haccept : ∀ u : Server, Apart k s u → u.heap = s.heap →
      Sequenced k v conn (((u.transmit env d.toTransData).bufferEventFree a).checking k)
        ((u.transmit env d.toTransData).bufferEventFree a) := by
    intro u ha hheap
    rw [← heap_transmit env u d.toTransData] at hheap
    refine Sequenced.apart ?_ (hfree _) subset_rfl
    cases hn : k.number d.toTransData with
    | none => exact h.apart (ha.trans (Writes.apart (writes_transmit hn))) (hsub _ hheap)
    | some n =>
      rw [hn] at hat
      apply h.join ha hn ⟨a, hat⟩ (hsub _ hheap)
      intro m hm
      obtain ⟨b, hba, hb⟩ := hleft _ hheap m hm
      apply lt_of_le_of_ne (hold n hat m ⟨b, hb⟩)
      rintro rfl
      exact hba (hcust.checkedAt_inj hat hb)
  simp only [Server.httpTransRead]
  split_ifs
  · exact haccept _ (hu _ _) rfl
  · exact h.apart (((hu _ _).trans (writes_deleteTrans _).apart).trans (hfree _)) (hsub _ rfl)

theorem Unhurried.oldest_checking (h : s.Unhurried k v conn x) :
    ∀ n ∈ s.answered k x.2, ∀ m ∈ s.checking k, n ≤ m := by
  rintro n hn m ⟨a, hm⟩
  exact h.oldest n hn a m hm

/-- One callback of an unhurried run. -/
theorem Sequenced.step (h : Sequenced k v conn (s.checking k) s) (hcust : s.Custody)
    (hok : s.Unhurried k v conn x) (ht : step R s x = some t) :
    Sequenced k v conn (t.checking k) t := by
  have hsub : (∀ w i reply, x.2 ≠ .redisReply w i reply) → t.checking k ⊆ s.checking k := by
    intro hno n hn
    rcases checking_step ht hn with hold | ⟨w, i, reply, hx, -⟩
    · exact hold
    · exact absurd hx (hno w i reply)
  have hold := hok.oldest_checking
  obtain ⟨env, ev⟩ := x
  have hP := k.permissive_aside
  rcases step_cases R ht with hq | ha
  · cases hq with
    | acceptConn fd => exact h.apart writes_acceptCallback.apart (hsub (by simp))
    | timer => exact h.apart writes_checkExpireClient.apart (hsub (by simp))
    | stop w => exact h.apart (writes_notifyNewConn env (-1) s w).apart (hsub (by simp))
    | newConn w => exact h.apart (writes_newConnLoop hP _ 0 s).apart (hsub (by simp))
    | newMsg w =>
      have hw : w < s.workThreadNum := by
        by_contra hle
        simp [Server.step, runs, hle] at ht
      have hloop := h.newMsgLoop _ rfl fun hne => hok.sole w hw hne
      exact hloop.apart (Apart.refl k _) (hsub (by simp))
    | clientEvent flags hb =>
      exact h.apart (writes_bufferEventEventCallback hP).apart (hsub (by simp))
  cases ha with
  | clientRead hb hr =>
    obtain ⟨y, hy, rfl⟩ := Option.map_eq_some_iff.mp hr
    have hy : Sequenced k v conn (s.checking k) y.1 :=
      readLoop_invariant R (fun _ _ _ r hu => hu.handleRequest r) h hy
    apply hy.apart _ (hsub (by simp))
    exact Writes.apart (((writes_setAnalyseReq _ _).trans (writes_setHeap _)).trans
      (writes_recordSent rfl))
  | @redisReply w i reply cmd _ hc hr =>
    obtain rfl : i = 0 := by simpa [Event.inTurn] using hok.turn
    refine h.redisReply hold ?_ hc hr
    intro n hn
    rcases checking_step ht hn with hm | ⟨_, _, _, ⟨⟩, hm⟩
    · exact Or.inl hm
    · exact Or.inr (by simpa [askedAt, hc] using hm)
  | loginRead d hb => exact h.apart (writes_httpLoginRead R hP).apart (hsub (by simp))
  | transRead d hb => exact h.httpTransRead hcust hb hold
  | loginEvent d sent hb =>
    exact h.apart (writes_httpLoginEvent R (hP.reply d false)).apart (hsub (by simp))
  | transEvent d sent hb => exact h.apart (writes_httpTransEvent R).apart (hsub (by simp))

end Step

section Runs

variable {σ : Type} {R : Runtime σ} {k : Talk} {v w conn : ℕ} {s s₀ : Server}

theorem tally_of_asked {x n : ℕ} (h : n ∈ s.asked k x) :
    k.since ≤ n ∧ 0 < s.tally n (some (.redis x)) := by
  obtain ⟨c, hc, hn⟩ := List.mem_filterMap.mp h
  obtain ⟨d, hd, hn⟩ := Option.bind_eq_some_iff.mp hn
  obtain ⟨⟨-, -, -, -, hsince⟩, rfl⟩ := Talk.number_eq_some.mp hn
  refine ⟨hsince, List.countP_pos_iff.mpr ⟨c, hc, ?_⟩⟩
  cases hcb : c.callback with
  | trans r =>
    obtain rfl : r = d := by simpa [hcb, RedisCallback.transData] using hd
    simp [RedisCallback.number]
  | login | online | offline => simp [hcb, RedisCallback.transData] at hd

theorem tally_of_piped {n : ℕ} (h : n ∈ s.piped k v) :
    k.since ≤ n ∧ 0 < s.tally n (some (.queue v)) := by
  obtain ⟨d, hd, hn⟩ := List.mem_filterMap.mp h
  obtain ⟨⟨ho, -, -, -, hsince⟩, rfl⟩ := Talk.number_eq_some.mp hn
  refine ⟨hsince, List.countP_pos_iff.mpr ⟨d, hd, ?_⟩⟩
  exact decide_eq_true (TransData.number_eq_some.mpr ⟨ho, rfl⟩)

theorem tally_of_delivered {n : ℕ} (h : n ∈ s.delivered k conn) :
    k.since ≤ n ∧ 0 < s.tally n none := by
  obtain ⟨e, he, hn⟩ := List.mem_filterMap.mp h
  split_ifs at hn
  cases hs : e.source with
  | relay d =>
    rw [hs] at hn
    obtain ⟨⟨ho, -, -, -, hsince⟩, rfl⟩ := Talk.number_eq_some.mp hn
    refine ⟨hsince, tally_pos_of_sent he ?_⟩
    rw [hs]
    exact TransData.number_eq_some.mpr ⟨ho, rfl⟩
  | echo | loginRsp | friends => simp [hs, Talk.carries] at hn

/-- No relay of the conversation has been read yet. -/
theorem sequenced_of_fresh (h : s.Custody) (hk : s.nextSeq ≤ k.since) :
    Sequenced k v conn (s.checking k) s := by
  have hnone : ∀ n p, ¬ (k.since ≤ n ∧ 0 < s.tally n p) := by
    rintro n p ⟨hn, hp⟩
    have hlt := h.lt_nextSeq hp
    omega
  have hasked : ∀ x, s.asked k x = [] := fun x =>
    List.eq_nil_iff_forall_not_mem.mpr fun n hn => hnone n _ (tally_of_asked hn)
  have hpiped : s.piped k v = [] :=
    List.eq_nil_iff_forall_not_mem.mpr fun n hn => hnone n _ (tally_of_piped hn)
  have hdelivered : s.delivered k conn = [] :=
    List.eq_nil_iff_forall_not_mem.mpr fun n hn => hnone n _ (tally_of_delivered hn)
  have hchecking : s.checking k = ∅ := by
    rw [Set.eq_empty_iff_forall_notMem]
    rintro n ⟨a, ha⟩
    exact hnone n _ (tally_of_checkedAt ha)
  rw [hchecking]
  refine ⟨?_, fun x _ => hasked x, fun _ => ⟨hasked _, rfl⟩⟩
  rw [hdelivered, hpiped, hasked]
  exact ⟨List.Pairwise.nil, by simp, by simp, by simp⟩

/-- From any state on, the relays from one id to another that a worker reads are appended to the
output of the recipient's connection in the order in which they were read, as long as no other
worker takes that connection for the recipient's, redis answers in turn, and no relay is answered
while an older one is checked over HTTP. -/
theorem relays_in_order {fromId toId : UInt64} (h : Reached R (fun _ _ => True) s₀)
    (hrun : Transition.Reach (step R) (· = s₀)
      (fun u x => u.Unhurried ⟨fromId, toId, w, s₀.nextSeq⟩ v conn x) s) :
    (s.delivered ⟨fromId, toId, w, s₀.nextSeq⟩ conn).Pairwise (· < ·) := by
  have hinv : s.Kept R ∧ Sequenced ⟨fromId, toId, w, s₀.nextSeq⟩ v conn
      (s.checking ⟨fromId, toId, w, s₀.nextSeq⟩) s := by
    apply Transition.Reach.invariant (P := fun u => u.Kept R ∧
      Sequenced ⟨fromId, toId, w, s₀.nextSeq⟩ v conn
        (u.checking ⟨fromId, toId, w, s₀.nextSeq⟩) u) _ _ hrun
    · rintro _ rfl
      have hk := kept_reached h
      exact ⟨hk, sequenced_of_fresh hk.custody le_rfl⟩
    · rintro u x t ⟨hk, hi⟩ hok ht
      exact ⟨hk.step ht, hi.step hk.custody hok ht⟩
  exact (List.pairwise_append.mp (List.pairwise_append.mp hinv.2.lane.line).1).1

instance (s : Server) (k : Talk) (v conn : ℕ) (x : Env × Event) :
    Decidable (s.Unhurried k v conn x) :=
  have hkeys : (∀ n ∈ s.answered k x.2, ∀ a ∈ s.heap.keys, ∀ m ∈ s.checkedAt k a, n ≤ m) ↔
      ∀ n ∈ s.answered k x.2, ∀ a, ∀ m ∈ s.checkedAt k a, n ≤ m := by
    refine ⟨fun h n hn a m hm => h n hn a ?_ m hm, fun h n hn a _ => h n hn a⟩
    obtain ⟨be, -, hb, -⟩ := exists_of_checkedAt hm
    exact Finmap.mem_keys.mpr (Table.mem_of_lookup hb)
  have : Decidable (∀ n ∈ s.answered k x.2, ∀ a ∈ s.heap.keys, ∀ m ∈ s.checkedAt k a, n ≤ m) :=
    have : ∀ n, Decidable (∀ a ∈ s.heap.keys, ∀ m ∈ s.checkedAt k a, n ≤ m) := fun n =>
      have : ∀ a, Decidable (∀ m ∈ s.checkedAt k a, n ≤ m) := fun a => Option.decidableForallMem _
      Finset.decidableDforallFinset
    Option.decidableForallMem _
  decidable_of_iff ((∀ j < s.workThreadNum, j ≠ v → s.servedBy j k.toId ≠ some conn) ∧
    x.2.inTurn = true ∧ ∀ n ∈ s.answered k x.2, ∀ a ∈ s.heap.keys, ∀ m ∈ s.checkedAt k a, n ≤ m)
    ⟨fun h => ⟨h.1, h.2.1, hkeys.mp h.2.2⟩, fun h => ⟨h.sole, h.turn, hkeys.mpr h.oldest⟩⟩

/-- 7 and 9 are logged in, both on worker 0. -/
def acquainted : List (Env × Event) := connect 0 1 ++ login 0 1 7 ++ connect 0 2 ++ login 0 2 9

/-- 7 sends two messages to 9, and redis confirms both. -/
def twoMessages : List (Env × Event) :=
  [(plainEnv 1, .clientRead 1 (relayFrame 7 9 ++ relayFrame 7 9)), confirmed, confirmed,
    (plainEnv 1, .newMsg 0)]

/-- Redis does not know the relation when it answers about the first message, and it does when it
answers about the second; the HTTP service confirms the first one later. -/
def overtakingMessage : List (Env × Event) :=
  [(plainEnv 1, .clientRead 1 (relayFrame 7 9 ++ relayFrame 7 9)),
    (plainEnv 3, .redisReply 0 0 (some { type := .nil })), confirmed, (plainEnv 1, .newMsg 0),
    (plainEnv 3, .httpEvent 3 { connected := true }), (plainEnv 3, .httpRead 3 grantReply),
    (plainEnv 1, .newMsg 0)]

theorem exists_conversation (num : ℕ) (events more : List (Env × Event))
    (ok : ℕ → Server → Env × Event → Prop) [∀ n s x, Decidable (ok n s x)] (P : ℕ → Server → Prop)
    [∀ n s, Decidable (P n s)]
    (hr : (Transition.run (step Wire.runtime) (deployment num) events).any (fun s₀ =>
      decide (Transition.RunOk (step Wire.runtime) (ok s₀.nextSeq) s₀ more) &&
        (Transition.run (step Wire.runtime) s₀ more).any fun s => decide (P s₀.nextSeq s)) = true) :
    ∃ s₀ s, Reached Wire.runtime (fun _ _ => True) s₀ ∧
      Transition.Reach (step Wire.runtime) (· = s₀) (ok s₀.nextSeq) s ∧ P s₀.nextSeq s := by
  obtain ⟨s₀, h₀, hr⟩ := (Option.any_eq_true _ _).mp hr
  obtain ⟨hok, hr⟩ := (Bool.and_eq_true _ _).mp hr
  obtain ⟨s, hs, hp⟩ := (Option.any_eq_true _ _).mp hr
  refine ⟨s₀, s, ?_, ?_, of_decide_eq_true hp⟩
  · exact Transition.Reach.run (.start (deployment_started num)) (.of_forall (by simp) _) h₀
  · exact Transition.Reach.run (.start rfl) (of_decide_eq_true hok) hs

theorem twoMessages_in_order :
    ∃ s₀ s, Reached Wire.runtime (fun _ _ => True) s₀ ∧
      Transition.Reach (step Wire.runtime) (· = s₀)
        (fun u x => u.Unhurried ⟨7, 9, 0, s₀.nextSeq⟩ 0 1 x) s ∧
      s.delivered ⟨7, 9, 0, s₀.nextSeq⟩ 1 = [2, 3] ∧
        (s.delivered ⟨7, 9, 0, s₀.nextSeq⟩ 1).Pairwise (· < ·) := by
  obtain ⟨s₀, s, h₀, hs, hd⟩ := exists_conversation 1 acquainted twoMessages
    (fun n s x => s.Unhurried ⟨7, 9, 0, n⟩ 0 1 x)
    (fun n s => s.delivered ⟨7, 9, 0, n⟩ 1 = [2, 3]) (by decide +kernel)
  exact ⟨s₀, s, h₀, hs, hd, relays_in_order h₀ hs⟩

/-- Both stay logged in on their connections, redis answers in turn, and the second message is
delivered before the first. -/
theorem overtakingMessage_out_of_order :
    ∃ s₀ s, Reached Wire.runtime (fun _ _ => True) s₀ ∧
      Transition.Reach (step Wire.runtime) (· = s₀) (fun u x => u.SubscribedOn 0 1 0 7 ∧
        (u.workThread 0).bevId.lookup 1 = some 7 ∧ u.SubscribedOn 0 2 1 9 ∧ x.2.inTurn = true) s ∧
      s.SubscribedOn 0 1 0 7 ∧ s.SubscribedOn 0 2 1 9 ∧
        s.delivered ⟨7, 9, 0, s₀.nextSeq⟩ 1 = [3, 2] :=
  exists_conversation 1 acquainted overtakingMessage
    (fun _ u x => u.SubscribedOn 0 1 0 7 ∧ (u.workThread 0).bevId.lookup 1 = some 7 ∧
      u.SubscribedOn 0 2 1 9 ∧ x.2.inTurn = true)
    (fun n s => s.SubscribedOn 0 1 0 7 ∧ s.SubscribedOn 0 2 1 9 ∧
      s.delivered ⟨7, 9, 0, n⟩ 1 = [3, 2]) (by decide +kernel)

end Runs

end Server

end EglComet
