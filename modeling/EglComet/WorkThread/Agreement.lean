import EglComet.WorkThread.Presence

/-!
Agreement about presence. If a login is approved only where no other worker
still deals with its id, the news about an id come from one worker at a time and
stay in order: in the queue of redis commands, in the pipe of a friend's worker
and on the friend's connection, the last of them says whether the id is online.
-/
namespace EglComet

open Protobuf

/-- The id whose friends a command asks for. -/
def RedisCallback.asks : RedisCallback → Option UInt64
  | .online info => some info.id
  | .offline info => some info.id
  | _ => none

/-- The worker, the place in its queue and the reply of an answered command. -/
def Event.answer : Event → Option (ℕ × ℕ × Option RedisReply)
  | .redisReply w i reply => some (w, i, reply)
  | _ => none

namespace Server

section Conditions

variable {σ : Type} (R : Runtime σ) (friends : UInt64 → List Bytes)

/-- Redis answers the commands of a worker in order, and every lookup of the friends of an id with
the same list. -/
def FixedFriends (s : Server) (x : Env × Event) : Prop :=
  ∀ a ∈ x.2.answer, a.2.1 = 0 ∧ ∀ c ∈ (s.workThread a.1).redis[0]?, ∀ id ∈ c.callback.asks,
    elements a.2.2 = (friends id).map some

instance (s : Server) (x : Env × Event) : Decidable (s.FixedFriends friends x) :=
  have : ∀ (a : ℕ × ℕ × Option RedisReply) (c : RedisCommand), Decidable (∀ id ∈ c.callback.asks,
      elements a.2.2 = (friends id).map some) := fun _ c =>
    Option.decidableForallMem c.callback.asks
  inferInstanceAs (Decidable (∀ a ∈ x.2.answer, a.2.1 = 0 ∧ ∀ c ∈ (s.workThread a.1).redis[0]?,
    ∀ id ∈ c.callback.asks, elements a.2.2 = (friends id).map some))

/-- Every login is approved for a real id, on a connection that is no subscriber's, while no other
worker has a session of the id or waits for a lookup of its friends. -/
def LoneLogin (s : Server) (x : Env × Event) : Prop :=
  s.OneIdPerConnection R x ∧ ∀ d ∈ s.approval R x.2,
    d.id ≠ 0 ∧
    ((s.workThread d.workThread).subMap.lookup d.id).map Subscriber.bev ≠ some d.bev ∧
    ∀ w < s.workThreadNum, w ≠ d.workThread →
      d.id ∉ (s.workThread w).subMap ∧ s.lookups w d.id = []

instance (s : Server) (x : Env × Event) : Decidable (s.LoneLogin R x) :=
  inferInstanceAs (Decidable (_ ∧ ∀ d ∈ s.approval R x.2, _))

/-- Reliable pipes, fixed friend lists, and lone logins. -/
def Orderly (s : Server) (x : Env × Event) : Prop :=
  ReliablePipes s x ∧ s.FixedFriends friends x ∧ s.LoneLogin R x

end Conditions

section Acts

variable {s t u : Server}

/-- What the callbacks do, apart from answering a lookup of friends and from reading a message
pipe, one after the other: nothing about presence, or a connection enters or leaves a worker, or a
login is approved. -/
inductive Act (s t : Server) : Prop where
  | quiet (hm : Muted s t) (hr : t.registry = s.registry)
  | accept {w conn : ℕ} {b : Addr} (hm : Muted s t)
      (hr : t.registry = s.registry.apply (.accept w b conn)) (hb : s.client b = none)
      (hn : ∀ a c, s.client a = some c → c.2 < conn)
  | leave {w : ℕ} {b : Addr} (hl : s.Leaves w b t) (hb : s.registry.Enabled (.leave w b))
  | enter {d : LoginData} (he : s.Enters d t) (hb : d.bev ∈ (s.workThread d.workThread).bevId)
      (h0 : d.id ≠ 0) (ho : s.registry.OneId (.approve d.workThread d.bev d.id []))
      (hf : s.registry.Fresh (.approve d.workThread d.bev d.id []))
      (hw : ∀ w < s.workThreadNum, w ≠ d.workThread →
        d.id ∉ (s.workThread w).subMap ∧ s.lookups w d.id = [])

theorem Act.hushed (h : Act s t) : Hushed s t := by
  cases h with
  | quiet hm => exact hm.toHushed
  | accept hm => exact hm.toHushed
  | leave hl => exact hl.toHushed
  | enter he => exact he.toHushed

/-- An act is at most one move of the registry. -/
theorem Act.move (h : Act s t) : t.registry = s.registry ∨ ∃ l, t.registry = s.registry.apply l ∧
    s.registry.Enabled l ∧ s.registry.OneId l ∧ s.registry.Fresh l ∧
      ∀ w b told, l ≠ .approve w b 0 told := by
  cases h with
  | quiet hm hr => exact Or.inl hr
  | accept hm hr hb => exact Or.inr ⟨_, hr, hb, trivial, trivial, by simp⟩
  | leave hl hb => exact Or.inr ⟨_, hl.registry, hb, trivial, trivial, by simp⟩
  | enter he hb h0 ho hf =>
    refine Or.inr ⟨_, he.registry, ⟨hb, by simp⟩, ho, hf, ?_⟩
    intro w b told hl
    injection hl with _ _ hid
    exact h0 hid

theorem Act.invariant {P : Registry UInt64 Addr → Prop} (h : Act s t)
    (hP : ∀ l, s.registry.Enabled l → s.registry.OneId l → s.registry.Fresh l →
      (∀ w b told, l ≠ .approve w b 0 told) → P (s.registry.apply l)) (h0 : P s.registry) :
    P t.registry := by
  rcases h.move with hr | ⟨l, hr, he, ho, hf, hz⟩
  · exact hr ▸ h0
  · exact hr ▸ hP l he ho hf hz

theorem Act.num (h : Act s t) : t.workThreadNum = s.workThreadNum :=
  h.invariant (P := fun r => r.num = s.workThreadNum)
    (fun l _ _ _ _ => Registry.num_apply s.registry l) rfl

end Acts

section Sound

variable {σ : Type} {R : Runtime σ} {s t : Server} {w : ℕ} {b : Addr} {id : UInt64}

/-- Worker `w` has a session of `id` or waits for a lookup of its friends. -/
def Busy (s : Server) (w : ℕ) (id : UInt64) : Prop :=
  s.lookups w id ≠ [] ∨ (s.registry.dir w).holder id ≠ none

/-- What holds in every state of an orderly run: at most one worker deals with an id, and no
deletion is pending. -/
structure Sound (s : Server) : Prop where
  backed : s.registry.Backed
  coherent : s.registry.Coherent
  knownLive : s.registry.KnownLive
  nonzero : ∀ w, (s.registry.dir w).holder 0 = none
  distinct : ∀ a b v w n, s.client a = some (v, n) → s.client b = some (w, n) → a = b
  home : ∀ id, ∀ i < s.workThreadNum, ∀ j < s.workThreadNum, s.Busy i id → s.Busy j id → i = j
  pipe : ∀ w, ∀ d ∈ (s.workThread w).newMsgFd, d.msgType = .trans

theorem sound_started (h : s.Started) : s.Sound := by
  obtain ⟨num, cap, ping, url, heart, rfl⟩ := h
  constructor
  · exact Registry.backed_start num
  · exact Registry.coherent_start num
  · exact Registry.knownLive_start num
  · exact fun _ => rfl
  · simp [start, client, clientIn]
  · simp [Busy, start, lookups, registry, WorkThread.directory]
  · simp [start]

/-- An act makes no worker busy with an id, or leaves only one that is. -/
theorem Act.busy (h : Act s t) (hb : s.registry.Backed) (id : UInt64) :
    (∀ v, t.Busy v id → s.Busy v id) ∨ ∃ w, ∀ v < s.workThreadNum, t.Busy v id → v = w := by
  cases h with
  | quiet hm hr =>
    left
    intro v
    rw [Busy, hm.lookups, hr]
    exact fun h => h
  | accept hm hr =>
    left
    intro v
    rw [Busy, hm.lookups, hr, Registry.holder_accept]
    exact fun h => h
  | @leave w b hl =>
    left
    intro v hv
    rw [Busy, hl.lookups, hl.registry, Registry.holder_leave] at hv
    by_cases hc : v = w ∧ id ≠ 0 ∧ (s.workThread w).bevId.lookup b = some id
    · obtain ⟨rfl, h0, hid⟩ := hc
      exact Or.inr (by simp [hb v b id hid h0])
    · rw [if_neg hc, List.append_nil] at hv
      exact hv.imp_right fun hh => (ite_ne_left_iff.mp hh).2.symm
  | @enter d he hbev h0 ho hf hw =>
    by_cases hid : id = d.id
    · subst hid
      refine Or.inr ⟨d.workThread, fun v hv hbusy => ?_⟩
      by_contra hne
      obtain ⟨hsub, hlook⟩ := hw v hv hne
      rw [Busy, he.lookups, he.registry, Registry.holder_approve, if_neg (by simp [hne]),
        if_neg (by simp [hne]), hlook, holder_ne_none] at hbusy
      simp [hsub] at hbusy
    · left
      intro v
      rw [Busy, he.lookups, he.registry, Registry.holder_approve, if_neg (by simp [hid]),
        if_neg (by simp [hid]), List.append_nil]
      exact fun h => h

theorem Act.distinct (h : Act s t)
    (hd : ∀ a b v w n, s.client a = some (v, n) → s.client b = some (w, n) → a = b) :
    ∀ a b v w n, t.client a = some (v, n) → t.client b = some (w, n) → a = b := by
  have hold : (∀ a c, t.client a = some c → s.client a = some c) →
      ∀ a b v w n, t.client a = some (v, n) → t.client b = some (w, n) → a = b :=
    fun hs a b v w n ha hb => hd a b v w n (hs a _ ha) (hs b _ hb)
  cases h with
  | quiet hm hr => exact hold fun a c => by rw [client_eq_of_registry_eq hr]; exact fun h => h
  | @accept w conn b hm hr hb hn =>
    have hc : ∀ a, t.client a = if a = b then some (w, conn) else s.client a := fun a =>
      (congrFun (congrArg Registry.live hr) a).trans (Function.update_apply _ _ _ _)
    intro a a' v v' n ha ha'
    rw [hc] at ha ha'
    split_ifs at ha ha' with h1 h2 h2
    · rw [h1, h2]
    · obtain rfl : conn = n := congrArg Prod.snd (Option.some.inj ha)
      exact absurd (hn _ _ ha') (lt_irrefl _)
    · obtain rfl : conn = n := congrArg Prod.snd (Option.some.inj ha')
      exact absurd (hn _ _ ha) (lt_irrefl _)
    · exact hd a a' v v' n ha ha'
  | @leave w b hl =>
    have hc : ∀ a, t.client a = if a = b then none else s.client a := fun a =>
      (congrFun (congrArg Registry.live hl.registry) a).trans (Function.update_apply _ _ _ _)
    refine hold fun a c ha => ?_
    rw [hc] at ha
    split_ifs at ha
    exact ha
  | @enter d he =>
    refine hold fun a c ha => ?_
    have hl : t.client a = (s.registry.kick d.workThread d.id).live a :=
      congrFun (congrArg Registry.live he.registry) a
    rw [hl, Registry.live_kick] at ha
    split_ifs at ha
    exact ha

theorem Act.sound (h : Act s t) (hs : s.Sound) : t.Sound where
  backed := h.invariant (fun l _ _ _ _ => hs.backed.apply l) hs.backed
  coherent := h.invariant (fun _ _ ho _ _ => hs.coherent.apply ho) hs.coherent
  knownLive := h.invariant (fun _ he _ hf _ => hs.knownLive.apply he hf) hs.knownLive
  nonzero := by
    refine h.invariant (P := fun r => ∀ w, (r.dir w).holder 0 = none) ?_ hs.nonzero
    intro l _ _ _ hz w
    by_contra hne
    rcases Registry.holder_apply_ne_none hne with hold | ⟨b, told, hl⟩
    · exact hold (hs.nonzero w)
    · exact hz w b told hl
  distinct := h.distinct hs.distinct
  home id i hi j hj := by
    rw [h.num] at hi hj
    intro hbi hbj
    rcases h.busy hs.backed id with hold | ⟨w, hw⟩
    · exact hs.home id i hi j hj (hold i hbi) (hold j hbj)
    · rw [hw i hi hbi, hw j hj hbj]
  pipe w d hd := by
    obtain ⟨added, hadd, hall⟩ := h.hushed.pipe w
    rw [hadd] at hd
    rcases List.mem_append.mp hd with hold | hnew
    · exact hs.pipe w d hold
    · exact (hall d hnew).1

/-- The tables stay, no worker becomes busy, and no deletion is queued. -/
theorem Sound.of_registry_eq (hs : s.Sound) (hr : t.registry = s.registry)
    (hl : ∀ v id, t.lookups v id ≠ [] → s.lookups v id ≠ [])
    (hp : ∀ w, ∀ d ∈ (t.workThread w).newMsgFd, d.msgType = .trans) : t.Sound where
  backed := hr ▸ hs.backed
  coherent := hr ▸ hs.coherent
  knownLive := hr ▸ hs.knownLive
  nonzero := hr ▸ hs.nonzero
  distinct a b v w n := by
    rw [client_eq_of_registry_eq hr, client_eq_of_registry_eq hr]
    exact hs.distinct a b v w n
  home id i hi j hj hbi hbj := by
    have hnum : t.workThreadNum = s.workThreadNum := congrArg Registry.num hr
    have hbusy : ∀ v, t.Busy v id → s.Busy v id := fun v hv => hv.imp (hl v id) (hr ▸ ·)
    exact hs.home id i (hnum ▸ hi) j (hnum ▸ hj) (hbusy i hbi) (hbusy j hbj)
  pipe := hp

theorem Answered.sound {friends : UInt64 → List Bytes} {k : Option OnlineInfo}
    (h : Answered R friends s w id k t) (hs : s.Sound) : t.Sound := by
  refine hs.of_registry_eq h.registry (fun v x hv => ?_) fun v d hd => ?_
  · by_cases hc : v = w ∧ x = id
    · obtain ⟨rfl, rfl⟩ := hc
      simp [h.first]
    · rwa [h.lookups v x hc] at hv
  · obtain ⟨added, hadd, hall, -⟩ := h.pipe v
    rw [hadd] at hd
    exact (List.mem_append.mp hd).elim (hs.pipe v d) fun hnew => (hall d hnew).1

theorem Empties.sound (h : s.Empties w t) (hs : s.Sound) : t.Sound := by
  refine hs.of_registry_eq h.registry (fun v x hv => ?_) fun v d hd => ?_
  · rwa [h.lookups v x] at hv
  · rw [h.pipe v] at hd
    split_ifs at hd
    · simp at hd
    · exact hs.pipe v d hd

end Sound

section Agrees

variable {σ : Type} {R : Runtime σ} {friends : UInt64 → List Bytes} {s t u : Server}
  {w conn : ℕ} {id toId : UInt64}

/-- The notices about `id` for `toId` in the pipe of worker `w`. -/
def mail (s : Server) (w : ℕ) (id toId : UInt64) : List TransData :=
  (s.workThread w).newMsgFd.filter fun d => d.origin = .server ∧ d.fromId = id ∧ d.toId = toId

/-- The presence frames about `id` that were appended to connection `conn`. -/
def news (friends : UInt64 → List Bytes) (s : Server) (id : UInt64) (conn : ℕ) : List Sent :=
  s.sent.filter fun e => e.conn = conn ∧ e.about friends id

/-- No worker waits for a lookup of the friends of `id`. -/
def Unasked (s : Server) (id : UInt64) : Prop := ∀ v < s.workThreadNum, s.lookups v id = []

/-- The latest news about `id` on its way to `toId`, whose connection is `conn` of worker `w`, say
whether `id` is online: the last pending lookup, else the last notice in the pipe, else the last
frame on the connection. -/
structure Agrees (R : Runtime σ) (friends : UInt64 → List Bytes) (id toId : UInt64) (w conn : ℕ)
    (s : Server) : Prop where
  last : ∀ v < s.workThreadNum, ∀ k ∈ (s.lookups v id).getLast?, k.isSome = s.online id ∧
    ∀ info ∈ k, info.workThread = v ∧ (s.registry.dir v).holder id = some info.bev
  mail : s.Unasked id → ∀ d ∈ (s.mail w id toId).getLast?, Carries R d (s.online id)
  news : s.Unasked id → s.mail w id toId = [] →
    ∃ e, (s.news friends id conn).getLast? = some e ∧ Tells R id (s.online id) e.bytes

theorem online_iff : s.online id = true ↔
    ∃ v < s.workThreadNum, (s.registry.dir v).holder id ≠ none := by
  simp only [online, List.any_eq_true, List.mem_range, checkIdIsOnline, decide_eq_true_eq,
    holder_ne_none]

theorem mail_of_hushed (h : Hushed s t) : t.mail w id toId = s.mail w id toId := by
  obtain ⟨added, hadd, hall⟩ := h.pipe w
  have hnone : added.filter (fun d => decide (d.origin = .server ∧ d.fromId = id ∧ d.toId = toId)) =
      [] := by
    rw [List.filter_eq_nil_iff]
    intro d hd
    simp [(hall d hd).2]
  rw [Server.mail, hadd, List.filter_append, hnone, List.append_nil]
  rfl

theorem news_of_hushed (h : Hushed s t) : t.news friends id conn = s.news friends id conn := by
  obtain ⟨added, hadd, hall⟩ := h.sent
  have hnone : added.filter (fun e => decide (e.conn = conn ∧ e.about friends id)) = [] := by
    rw [List.filter_eq_nil_iff]
    intro e he
    have hp := hall e he
    cases hsrc : e.source <;> simp_all [Sent.about, Source.presence]
  rw [Server.news, hadd, List.filter_append, hnone, List.append_nil]
  rfl

/-- Nothing about `id` changes on a worker. -/
structure Spared (id : UInt64) (s t : Server) : Prop where
  num : t.workThreadNum = s.workThreadNum
  lookups : ∀ v < s.workThreadNum, t.lookups v id = s.lookups v id
  holder : ∀ v < s.workThreadNum, (t.registry.dir v).holder id = (s.registry.dir v).holder id

theorem Spared.online (h : Spared id s t) : t.online id = s.online id := by
  rw [Bool.eq_iff_iff, online_iff, online_iff, h.num]
  constructor
  · rintro ⟨v, hv, hh⟩
    exact ⟨v, hv, h.holder v hv ▸ hh⟩
  · rintro ⟨v, hv, hh⟩
    exact ⟨v, hv, (h.holder v hv).symm ▸ hh⟩

theorem Spared.unasked (h : Spared id s t) : t.Unasked id ↔ s.Unasked id := by
  simp only [Unasked, h.num]
  exact forall₂_congr fun v hv => by rw [h.lookups v hv]

/-- The status stays and agreement with it, or there is agreement with the new status. -/
def Upholds (R : Runtime σ) (friends : UInt64 → List Bytes) (id toId : UInt64) (w conn : ℕ)
    (s t : Server) : Prop :=
  t.online id = s.online id ∧
      (s.Agrees R friends id toId w conn → t.Agrees R friends id toId w conn) ∨
    t.Agrees R friends id toId w conn

theorem Upholds.trans (h : Upholds R friends id toId w conn s t)
    (h' : Upholds R friends id toId w conn t u) : Upholds R friends id toId w conn s u := by
  rcases h' with ⟨ho', ha'⟩ | ha'
  · rcases h with ⟨ho, ha⟩ | ha
    · exact Or.inl ⟨ho'.trans ho, fun hs => ha' (ha hs)⟩
    · exact Or.inr (ha' ha)
  · exact Or.inr ha'

theorem exists_last_append {α : Type} {P : α → Prop} {l added : List α}
    (h : ∃ a, l.getLast? = some a ∧ P a) (hadd : ∀ a ∈ added, P a) :
    ∃ a, (l ++ added).getLast? = some a ∧ P a := by
  rw [List.getLast?_append]
  cases ha : added.getLast? with
  | none => simpa using h
  | some a => exact ⟨a, rfl, hadd a (List.mem_of_getLast? ha)⟩

/-- The notices stay, and frames are added at most if they have the status. -/
theorem Spared.agrees {frames : List Sent} (h : Spared id s t)
    (hm : t.mail w id toId = s.mail w id toId)
    (hn : t.news friends id conn = s.news friends id conn ++ frames)
    (hf : ∀ e ∈ frames, Tells R id (s.online id) e.bytes)
    (ha : s.Agrees R friends id toId w conn) : t.Agrees R friends id toId w conn where
  last v hv := by
    rw [h.num] at hv
    rw [h.lookups v hv, h.online, h.holder v hv]
    exact ha.last v hv
  mail hq := by
    rw [hm, h.online]
    exact ha.mail (h.unasked.mp hq)
  news hq hnil := by
    rw [hn, h.online]
    exact exists_last_append (ha.news (h.unasked.mp hq) (hm ▸ hnil)) hf

theorem Spared.upholds (h : Spared id s t) (hh : Hushed s t) :
    Upholds R friends id toId w conn s t :=
  Or.inl ⟨h.online, h.agrees (mail_of_hushed hh)
    ((news_of_hushed hh).trans (List.append_nil _).symm) (by simp)⟩

/-- A lookup that announces the status was just queued, and no other worker waits for one. -/
theorem agrees_of_asked {v : ℕ} {k : Option OnlineInfo} {old : List (Option OnlineInfo)}
    (hv : v < s.workThreadNum) (hl : s.lookups v id = old ++ [k])
    (ho : ∀ i < s.workThreadNum, i ≠ v → s.lookups i id = []) (hk : k.isSome = s.online id)
    (hh : ∀ info ∈ k, info.workThread = v ∧ (s.registry.dir v).holder id = some info.bev) :
    s.Agrees R friends id toId w conn := by
  have hasked : ¬ s.Unasked id := fun hq => by simpa [hl] using hq v hv
  refine ⟨fun i hi k' hk' => ?_, fun hq => absurd hq hasked, fun hq => absurd hq hasked⟩
  by_cases hiv : i = v
  · subst hiv
    obtain rfl : k = k' := by simpa [hl] using hk'
    exact ⟨hk, hh⟩
  · simp [ho i hi hiv] at hk'

theorem Leaves.upholds {v : ℕ} {b : Addr} (h : s.Leaves v b t) (hs : s.Sound) :
    Upholds R friends id toId w conn s t := by
  have hnum : t.workThreadNum = s.workThreadNum :=
    (congrArg Registry.num h.registry).trans (Registry.num_apply _ _)
  have hholder : ∀ i, (t.registry.dir i).holder id =
      if i = v ∧ (s.workThread v).bevId.lookup b = some id then none
      else (s.registry.dir i).holder id := by
    intro i
    rw [h.registry, Registry.holder_leave]
    rfl
  by_cases hc : v < s.workThreadNum ∧ id ≠ 0 ∧ (s.workThread v).bevId.lookup b = some id
  · obtain ⟨hv, h0, hid⟩ := hc
    have hbusy : s.Busy v id := Or.inr (by simp [hs.backed v b id hid h0])
    have hidle : ∀ i < s.workThreadNum, i ≠ v → ¬ s.Busy i id := fun i hi hne hb =>
      hne (hs.home id i hi v hv hb hbusy)
    have hasked : t.lookups v id = s.lookups v id ++ [none] := by
      rw [h.lookups, if_pos ⟨rfl, h0, hid⟩]
    right
    refine agrees_of_asked (hnum ▸ hv) hasked ?_ ?_ ?_
    · intro i hi hne
      rw [h.lookups, if_neg fun hx => hne hx.1, List.append_nil]
      by_contra hl
      exact hidle i (hnum ▸ hi) hne (Or.inl hl)
    · refine Eq.symm (Bool.eq_false_iff.mpr fun ho => ?_)
      obtain ⟨i, hi, hne⟩ := online_iff.mp ho
      rw [hholder] at hne
      split_ifs at hne with hx
      · exact hne rfl
      · exact hidle i (hnum ▸ hi) (fun hiv => hx ⟨hiv, hid⟩) (Or.inr hne)
    · simp
  · have hsp : Spared id s t := by
      refine ⟨hnum, fun i hi => ?_, fun i hi => ?_⟩
      · rw [h.lookups, if_neg, List.append_nil]
        exact fun hx => hc ⟨hx.1 ▸ hi, hx.2⟩
      · rw [hholder]
        split_ifs with hx
        · have h0 : id = 0 := by
            by_contra hne
            exact hc ⟨hx.1 ▸ hi, hne, hx.2⟩
          rw [h0, hs.nonzero]
        · rfl
    exact hsp.upholds h.toHushed

theorem Enters.upholds {d : LoginData} (h : s.Enters d t)
    (hw : ∀ i < s.workThreadNum, i ≠ d.workThread →
      d.id ∉ (s.workThread i).subMap ∧ s.lookups i d.id = []) :
    Upholds R friends id toId w conn s t := by
  have hnum : t.workThreadNum = s.workThreadNum :=
    (congrArg Registry.num h.registry).trans (Registry.num_apply _ _)
  have hholder : ∀ i, (t.registry.dir i).holder id =
      if i = d.workThread ∧ id = d.id then some d.bev else (s.registry.dir i).holder id := by
    intro i
    rw [h.registry, Registry.holder_approve]
  by_cases hc : d.workThread < s.workThreadNum ∧ id = d.id
  · obtain ⟨hv, rfl⟩ := hc
    have hnew : (t.registry.dir d.workThread).holder d.id = some d.bev := by simp [hholder]
    have hasked : t.lookups d.workThread d.id =
        s.lookups d.workThread d.id ++ [some ⟨d.id, d.bev, d.workThread, d.conn⟩] := by
      rw [h.lookups, if_pos ⟨rfl, rfl⟩]
    right
    refine agrees_of_asked (hnum ▸ hv) hasked ?_ ?_ ?_
    · intro i hi hne
      rw [h.lookups, if_neg fun hx => hne hx.1, List.append_nil]
      exact (hw i (hnum ▸ hi) hne).2
    · exact (online_iff.mpr ⟨d.workThread, hnum ▸ hv, by simp [hnew]⟩).symm
    · rintro info ⟨⟩
      exact ⟨rfl, hnew⟩
  · have hsp : Spared id s t := by
      refine ⟨hnum, fun i hi => ?_, fun i hi => ?_⟩
      · rw [h.lookups, if_neg, List.append_nil]
        exact fun hx => hc ⟨hx.1 ▸ hi, hx.2⟩
      · rw [hholder, if_neg]
        exact fun hx => hc ⟨hx.1 ▸ hi, hx.2⟩
    exact hsp.upholds h.toHushed

theorem Act.upholds (h : Act s t) (hs : s.Sound) : Upholds R friends id toId w conn s t := by
  have hnum := h.num
  cases h with
  | quiet hm hr =>
    have hsp : Spared id s t := ⟨hnum, fun v _ => hm.lookups v id, fun v _ => by rw [hr]⟩
    exact hsp.upholds hm.toHushed
  | accept hm hr =>
    have hsp : Spared id s t := by
      refine ⟨hnum, fun v _ => hm.lookups v id, fun v _ => ?_⟩
      rw [hr, Registry.holder_accept]
    exact hsp.upholds hm.toHushed
  | leave hl => exact hl.upholds hs
  | enter he hb h0 ho hf hw => exact he.upholds hw

variable {b : Addr}

/-- A subscribed id is found on the worker of its connection. -/
theorem Sound.firstWorker_eq (hs : s.Sound) (hsub : s.SubscribedOn w b conn toId) :
    s.firstWorker toId = some w := by
  have hw : s.Busy w toId := Or.inr (by simp [registry, WorkThread.directory, hsub.2.1])
  rw [firstWorker, List.find?_range_eq_some]
  refine ⟨?_, List.mem_range.mpr hsub.1, fun j hj => ?_⟩
  · exact decide_eq_true (holder_ne_none.mp (by simp [registry, WorkThread.directory, hsub.2.1]))
  · by_contra hon
    have hin : toId ∈ (s.workThread j).subMap := by simpa [checkIdIsOnline] using hon
    exact hj.ne (hs.home toId j (hj.trans hsub.1) w hsub.1 (Or.inr (holder_ne_none.mpr hin)) hw)

section Answers

variable {v : ℕ} {x : UInt64} {k : Option OnlineInfo}

/-- The answer to a lookup for another id adds no notice about `id`, and what it shows is right. -/
theorem Answered.agrees_of_ne (h : Answered R friends s v x k t) (hx : x ≠ id)
    (ha : s.Agrees R friends id toId w conn) : t.Agrees R friends id toId w conn := by
  have hsp : Spared id s t := by
    refine ⟨congrArg Registry.num h.registry, fun i _ => ?_, fun i _ => by rw [h.registry]⟩
    exact h.lookups i id fun hc => hx hc.2.symm
  obtain ⟨added, hpipe, hall, -⟩ := h.pipe w
  obtain ⟨frames, hsent, htells⟩ := h.sent
  have hmail : t.mail w id toId = s.mail w id toId := by
    have hnone : added.filter (fun d => decide (d.origin = .server ∧ d.fromId = id ∧
        d.toId = toId)) = [] := by
      rw [List.filter_eq_nil_iff]
      intro d hd
      simp [(hall d hd).2.2.1, hx]
    rw [Server.mail, hpipe, List.filter_append, hnone, List.append_nil]
    rfl
  have hnews : t.news friends id conn = s.news friends id conn ++
      frames.filter fun e => decide (e.conn = conn ∧ e.about friends id) := by
    rw [Server.news, hsent, List.filter_append]
    rfl
  refine hsp.agrees hmail hnews (fun e he => ?_) ha
  obtain ⟨hmem, hp⟩ := List.mem_filter.mp he
  exact htells e hmem id (of_decide_eq_true hp).2

/-- The answer to the last lookup for `id` leaves a notice in the pipe of its friend. -/
theorem Answered.agrees_of_eq (h : Answered R friends s v id k t) (hv : v < s.workThreadNum)
    (hs : s.Sound) (hsub : s.SubscribedOn w b conn toId)
    (hf : ∃ str ∈ friends id, atoll str = toId) (ha : s.Agrees R friends id toId w conn) :
    t.Agrees R friends id toId w conn := by
  have hnum : t.workThreadNum = s.workThreadNum := congrArg Registry.num h.registry
  have hon : t.online id = s.online id := online_of_registry_eq h.registry id
  have hlast : t.Unasked id → k.isSome = s.online id ∧ ∃ added,
      t.mail w id toId = s.mail w id toId ++ added ∧ added ≠ [] ∧
        ∀ d ∈ added, Carries R d k.isSome := by
    intro hq
    have hone : s.lookups v id = [k] := by rw [h.first, hq v (hnum ▸ hv)]
    obtain ⟨hstat, hinfo⟩ := ha.last v hv k (by simp [hone])
    have hlive : ∀ info ∈ k, info.bev ∈ (s.workThread info.workThread).bevId := by
      intro info hi
      obtain ⟨rfl, hh⟩ := hinfo info hi
      exact Table.mem_of_lookup (hs.coherent.dir _ _ _ hh)
    obtain ⟨str, hstr, rfl⟩ := hf
    obtain ⟨added, hpipe, hall, htold⟩ := h.pipe w
    obtain ⟨d, hd, hto⟩ := htold hlive str hstr (hs.firstWorker_eq hsub)
    refine ⟨hstat, added.filter fun d => decide (d.origin = .server ∧ d.fromId = id ∧
      d.toId = atoll str), ?_, ?_, fun d hd => (hall d (List.mem_of_mem_filter hd)).2.2.2⟩
    · rw [Server.mail, hpipe, List.filter_append]
      rfl
    · have hp := hall d hd
      exact List.ne_nil_of_mem (List.mem_filter.mpr ⟨hd, by simp [hp.2.1, hp.2.2.1, hto]⟩)
  refine ⟨fun i hi k' hk' => ?_, fun hq d hd => ?_, fun hq hnil => ?_⟩
  · have hold : k' ∈ (s.lookups i id).getLast? := by
      by_cases hiv : i = v
      · subst hiv
        rw [h.first, List.getLast?_cons, Option.mem_def.mp hk']
        rfl
      · rwa [h.lookups i id fun hc => hiv hc.1] at hk'
    rw [hon, h.registry]
    exact ha.last i (hnum ▸ hi) k' hold
  · obtain ⟨hstat, added, hmail, hne, hall⟩ := hlast hq
    rw [hmail, List.getLast?_append_of_ne_nil _ hne] at hd
    rw [hon, ← hstat]
    exact hall d (List.mem_of_getLast? hd)
  · obtain ⟨-, added, hmail, hne, -⟩ := hlast hq
    exact absurd (List.append_eq_nil_iff.mp (hmail ▸ hnil)).2 hne

theorem Answered.upholds (h : Answered R friends s v x k t) (hv : v < s.workThreadNum)
    (hs : s.Sound) (hsub : s.SubscribedOn w b conn toId)
    (hf : ∃ str ∈ friends id, atoll str = toId) : Upholds R friends id toId w conn s t := by
  refine Or.inl ⟨online_of_registry_eq h.registry id, fun ha => ?_⟩
  by_cases hx : x = id
  · subst hx
    exact h.agrees_of_eq hv hs hsub hf ha
  · exact h.agrees_of_ne hx ha

end Answers

section Forwarding

variable {v : ℕ} {d : TransData}

/-- Only the worker of a connection forwards to it, and only what is meant for its subscriber. -/
theorem Sound.forward_conn (hs : s.Sound) (hsub : s.SubscribedOn w b conn toId) {e : Sent}
    (he : e ∈ s.forward v d) (hc : e.conn = conn) : v = w ∧ d.toId = toId := by
  unfold forward at he
  split at he
  · rename_i a ha
    obtain ⟨hocc, -⟩ := mem_entryAt.mp he
    have hname : (s.registry.dir v).names.lookup a = some d.toId := hs.coherent.dir v d.toId a ha
    obtain ⟨n, hn⟩ := hs.knownLive v a (Table.mem_of_lookup hname)
    have hlive : s.client a = some (v, n) := hn
    obtain rfl : n = conn := by simpa [occupant, hlive, hc] using hocc
    obtain rfl := hs.distinct a b v w n hlive hsub.2.2
    obtain rfl : v = w := by simpa using hlive.symm.trans hsub.2.2
    have hself : (s.registry.dir v).names.lookup a = some toId :=
      hs.coherent.dir v toId a hsub.2.1
    exact ⟨rfl, Option.some.inj (hname.symm.trans hself)⟩
  · simp at he

theorem forward_eq (hsub : s.SubscribedOn w b conn d.toId) :
    s.forward w d = [⟨conn, .relay d, d.data.take d.dataSize.toNat⟩] := by
  simp [forward, hsub.2.1, entryAt, occupant, hsub.2.2]

theorem filter_flatMap_eq {α β : Type} {f : α → List β} {p : β → Bool} {q : α → Bool} {g : α → β}
    (h : ∀ a, (f a).filter p = if q a then [g a] else []) (l : List α) :
    (l.flatMap f).filter p = (l.filter q).map g := by
  induction l with
  | nil => rfl
  | cons a l ih =>
    rw [List.flatMap_cons, List.filter_append, h, ih, List.filter_cons]
    split_ifs <;> simp

/-- A worker that reads its pipe moves the notices for its subscriber to the connection. -/
theorem Sound.news_forward (hs : s.Sound) (hsub : s.SubscribedOn w b conn toId) :
    ((s.workThread w).newMsgFd.flatMap (s.forward w)).filter
      (fun e => decide (e.conn = conn ∧ e.about friends id)) =
        (s.mail w id toId).map fun d => ⟨conn, .relay d, d.data.take d.dataSize.toNat⟩ := by
  apply filter_flatMap_eq
  intro d
  by_cases hto : d.toId = toId
  · subst hto
    by_cases hp : d.origin = .server ∧ d.fromId = id
    · simp [forward_eq hsub, Sent.about, hp]
    · simp [forward_eq hsub, Sent.about, hp]
  · rw [if_neg (by simp [hto]), List.filter_eq_nil_iff]
    intro e he hc
    exact hto (hs.forward_conn hsub he (of_decide_eq_true hc).1).2

theorem Sound.news_forward_of_ne (hs : s.Sound) (hsub : s.SubscribedOn w b conn toId)
    (hv : v ≠ w) : ((s.workThread v).newMsgFd.flatMap (s.forward v)).filter
      (fun e => decide (e.conn = conn ∧ e.about friends id)) = [] := by
  rw [List.filter_eq_nil_iff]
  intro e he hc
  obtain ⟨d, -, he⟩ := List.mem_flatMap.mp he
  exact hv (hs.forward_conn hsub he (of_decide_eq_true hc).1).1

theorem Empties.upholds (h : s.Empties v t) (hs : s.Sound)
    (hsub : s.SubscribedOn w b conn toId) : Upholds R friends id toId w conn s t := by
  have hsp : Spared id s t :=
    ⟨congrArg Registry.num h.registry, fun i _ => h.lookups i id, fun i _ => by rw [h.registry]⟩
  refine Or.inl ⟨hsp.online, fun ha => ?_⟩
  by_cases hv : v = w
  · subst hv
    have hmail : t.mail v id toId = [] := by simp [Server.mail, h.pipe]
    have hnews : t.news friends id conn = s.news friends id conn ++ (s.mail v id toId).map
        fun d => ⟨conn, .relay d, d.data.take d.dataSize.toNat⟩ := by
      rw [Server.news, h.sent, List.filter_append, hs.news_forward hsub]
      rfl
    refine ⟨fun i hi => ?_, fun _ d hd => by simp [hmail] at hd, fun hq _ => ?_⟩
    · rw [hsp.num] at hi
      rw [hsp.lookups i hi, hsp.online, hsp.holder i hi]
      exact ha.last i hi
    · have hq := hsp.unasked.mp hq
      rw [hnews, hsp.online]
      rcases List.eq_nil_or_concat' (s.mail v id toId) with hnil | ⟨ds, d, hds⟩
      · rw [hnil, List.map_nil, List.append_nil]
        exact ha.news hq hnil
      · have hd : d ∈ (s.mail v id toId).getLast? := by simp [hds]
        have hfrom : d.fromId = id :=
          (of_decide_eq_true (List.mem_filter.mp (List.mem_of_getLast? hd)).2).2.1
        refine ⟨⟨conn, .relay d, d.data.take d.dataSize.toNat⟩, by simp [hds], ?_⟩
        rw [← hfrom]
        exact (hfrom ▸ ha.mail hq d hd).tells
  · have hmail : t.mail w id toId = s.mail w id toId := by
      rw [Server.mail, h.pipe, if_neg (Ne.symm hv)]
      rfl
    have hnews : t.news friends id conn = s.news friends id conn ++ [] := by
      rw [Server.news, h.sent, List.filter_append, hs.news_forward_of_ne hsub hv]
      rfl
    exact hsp.agrees hmail hnews (by simp) ha

end Forwarding

end Agrees

section Step

variable {σ : Type} {R : Runtime σ} {friends : UInt64 → List Bytes} {s t : Server} {w : ℕ}
  {env : Env}

/-- Any number of acts. -/
abbrev Acts : Server → Server → Prop := Relation.ReflTransGen Act

theorem expireEntry_acts (w : ℕ) (now : ℤ) (s : Server) (b : Addr) :
    Acts s (expireEntry w now s b) := by
  rcases leaves_expireEntry w now s b with he | ⟨hb, hl⟩
  · rw [he]
  · exact .single (.leave hl (Or.inr hb))

theorem delExpireClient_acts (env : Env) (s : Server) (w : ℕ) :
    Acts s (s.delExpireClient env w) := by
  unfold delExpireClient
  cases env.now with
  | none => exact .refl
  | some now =>
    simp only
    induction env.order.toList (s.workThread w).bevId generalizing s with
    | nil => exact .refl
    | cons b bs ih => exact (expireEntry_acts w now s b).trans (ih _)

theorem newConnLoop_acts (env : Env) (items : List ℤ) (i : ℕ) (s : Server) (hn : s.Numbered) :
    Acts s (newConnLoop env w i items s) := by
  induction items generalizing i s with
  | nil => exact .refl
  | cons data rest ih =>
    have hE : Tolerant fun _ => True := by constructor <;> simp
    let v := s.modify w fun t => { t with newConnFd := rest }
    have hv : Act s v := .quiet (muted_modify rfl rfl) (registry_modify_of_eq rfl rfl rfl)
    have hnv : v.Numbered := hn
    refine .head hv ?_
    simp only [newConnLoop]
    split_ifs
    · have ha : Act v (v.newConnection env w) :=
        .accept (writes_newConnection v).muted (registry_newConnection env v w)
          (client_alloc env v) hnv
      exact .head ha (ih _ _ (hnv.grows (grows_newConnection hE)))
    · exact .single (.quiet (muted_modify rfl rfl) (registry_modify_of_eq rfl rfl rfl))
    · exact (delExpireClient_acts env v w).trans (ih _ _ (hnv.grows (grows_delExpireClient hE)))
    · exact ih _ _ hnv
    · exact .refl

theorem Enters.between {u v : Server} {d : LoginData} (h : u.Enters d v) (hm : Muted s u)
    (hr : u.registry = s.registry) (hm' : Muted v t) (hr' : t.registry = v.registry) :
    s.Enters d t where
  toHushed := (hm.toHushed.trans h.toHushed).trans hm'.toHushed
  registry := by rw [hr', h.registry, hr]
  lookups i id := by rw [hm'.lookups, h.lookups, hm.lookups]

theorem LoneLogin.act {x : Env × Event} {d : LoginData} (h : s.LoneLogin R x)
    (hd : s.approval R x.2 = some d) (hb : d.bev ∈ (s.workThread d.workThread).bevId)
    (he : s.Enters d t) : Act s t := by
  obtain ⟨h0, hf, hw⟩ := h.2 d hd
  refine .enter he hb h0 (h.1.oneId (x := x) ⟨rfl, ⟨d, hd, rfl, rfl, rfl⟩, ?_⟩) hf hw
  intro _ j hj hne hh
  exact absurd (holder_ne_none.mp hh) (hw j hj hne).1

theorem redisLogin_act {d : LoginData} {cmd : RedisCommand} {reply : Option RedisReply}
    (h : s.LoneLogin R (env, .redisReply w 0 reply)) (hc : (s.workThread w).redis[0]? = some cmd)
    (hcb : cmd.callback = .login d) :
    Act s ((s.takeCommand w 0 cmd reply).redisLoginCallback R env d reply) := by
  let v := s.takeCommand w 0 cmd reply
  have hv : Muted s v := muted_takeCommand hc fun id => by rw [hcb]; rfl
  have hr : v.registry = s.registry := registry_takeCommand s w 0 cmd reply
  have hout := redisLoginCallback_outcome R env v d reply
  generalize v.redisLoginCallback R env d reply = t at hout ⊢
  cases hout with
  | gone | repeated =>
    exact .quiet (hv.trans (writes_deleteLogin d).muted) ((registry_deleteLogin v d).trans hr)
  | asked =>
    exact .quiet (hv.trans (writes_httpLoginCheck R (Signal.discreet_reply d false)).muted)
      ((registry_httpLoginCheck R env v d).trans hr)
  | refused =>
    refine .quiet (hv.trans ((writes_replyLogin R (Signal.discreet_reply d false)).trans
      (writes_deleteLogin d)).muted) ?_
    rw [registry_deleteLogin, registry_replyLogin, hr]
  | accepted ha =>
    have hd : s.approval R (.redisReply w 0 reply) = some d := ha.approval R hc hcb
    refine h.act hd (bevId_of_registry_eq hr ▸ ha.1) ?_
    refine Enters.between (enters_registerLogin R ?_) hv hr (writes_deleteLogin d).muted
      (registry_deleteLogin _ d)
    intro j hj hne hin
    obtain ⟨hj, -⟩ := List.mem_filter.mp hj
    exact ((h.2 d hd).2.2 j (List.mem_range.mp hj) hne).1 ((mem_subMap_of_registry_eq hr).mp hin)

theorem httpLoginRead_act {a : Addr} {chunk input output : Bytes} {d : LoginData}
    (h : s.LoneLogin R (env, .httpRead a chunk))
    (hb : s.heap.lookup a = some ⟨.httpLogin d true, input, output⟩) :
    Act s (s.httpLoginRead R env a d (input ++ chunk)) := by
  have hnone : s.client a = none := client_of_lookup hb
  have hout := httpLoginRead_verdict R env s a d (input ++ chunk)
  generalize s.httpLoginRead R env a d (input ++ chunk) = t at hout ⊢
  cases hout with
  | gone =>
    refine .quiet ((writes_bufferEventFree a).trans (writes_deleteLogin d)).muted ?_
    rw [registry_deleteLogin]
    exact registry_free_of_eq rfl hnone
  | refused hm hr r =>
    refine .quiet ((((writes_setAnalyseReq _ r).trans
      (writes_replyLogin R (Signal.discreet_reply d false))).trans
        (writes_bufferEventFree a)).trans (writes_deleteLogin d)).muted ?_
    rw [registry_deleteLogin]
    exact registry_free_of_eq (by simp) hnone
  | accepted hm hr r =>
    have hd : s.approval R (.httpRead a chunk) = some d := by
      simp only [approval, hb]
      exact if_pos ⟨hm, hr⟩
    let v := s.setAnalyseReq d.workThread r
    have hrv : v.registry = s.registry := registry_setAnalyseReq s _ r
    have he : v.Enters d (v.registerLogin R env d (List.range s.workThreadNum)) := by
      apply enters_registerLogin R
      intro j hj hne hin
      exact ((h.2 d hd).2.2 j (List.mem_range.mp hj) hne).1
        ((mem_subMap_of_registry_eq hrv).mp hin)
    refine h.act hd hm (he.between (writes_setAnalyseReq _ r).muted hrv
      ((writes_bufferEventFree a).trans (writes_deleteLogin d)).muted ?_)
    rw [registry_deleteLogin, registry_bufferEventFree_of_none]
    refine (congrFun (congrArg Registry.live he.registry) a).trans (live_approve_of_none ?_)
    exact (client_eq_of_registry_eq hrv a).trans hnone

/-- What a callback does to presence: a number of acts, the answer to a lookup of friends, or the
reading of a message pipe. -/
inductive Part (R : Runtime σ) (friends : UInt64 → List Bytes) (s t : Server) : Prop where
  | acts (h : Acts s t)
  | answered {w : ℕ} {id : UInt64} {k : Option OnlineInfo} (hw : w < s.workThreadNum)
      (h : Answered R friends s w id k t)
  | empties {w : ℕ} (h : s.Empties w t)

theorem part_quiet (hm : Muted s t) (hr : t.registry = s.registry) : Part R friends s t :=
  .acts (.single (.quiet hm hr))

theorem RedisCallback.asks_of_announces {c : RedisCallback} {id : UInt64} {k : Option OnlineInfo}
    (h : c.announces id = some k) : c.asks = some id := by
  rcases RedisCallback.announces_eq_some h with ⟨info, rfl, rfl, -⟩ | ⟨info, rfl, rfl, -⟩
  · rfl
  · rfl

/-- Every record that is checked or dispatched came from a client. -/
theorem Kept.origin {d : Relay} (h : s.Kept R) (hd : ReadFrom s.log d) : d.origin = .client := by
  obtain ⟨-, v, b, hr⟩ := hd
  obtain ⟨mem, rest, l, -, he⟩ := h.framed _ hr
  rw [he]
  rfl

theorem redisCallback_part {cmd : RedisCommand} {reply : Option RedisReply}
    (hkept : s.Kept R) (h : s.Orderly R friends (env, .redisReply w 0 reply))
    (hw : w < s.workThreadNum)
    (hc : (s.workThread w).redis[0]? = some cmd)
    (ht : redisCallback R env (s.takeCommand w 0 cmd reply) reply cmd.callback = some t) :
    Part R friends s t := by
  have hanswer : ∀ id k, cmd.callback.announces id = some k → Part R friends s t := by
    intro id k hk
    have he := (h.2.1 _ rfl).2 cmd hc id (RedisCallback.asks_of_announces hk)
    exact .answered hw (answered_redisCallback h.1 hc hk he ht)
  cases hcb : cmd.callback with
  | login d =>
    rw [hcb] at ht
    obtain rfl := Option.some.inj ht
    exact .acts (.single (redisLogin_act h.2.2 hc hcb))
  | trans d =>
    rw [hcb] at ht
    obtain ⟨r, -, rfl⟩ := Option.map_eq_some_iff.mp ht
    have hv : Muted s (s.takeCommand w 0 cmd reply) :=
      muted_takeCommand hc fun id => by rw [hcb]; rfl
    have hr := registry_takeCommand s w 0 cmd reply
    split_ifs
    · exact part_quiet (hv.trans (writes_httpTransCheck R).muted)
        ((registry_httpTransCheck R env _ d).trans hr)
    · have ho : d.origin = .client :=
        hkept.origin (hkept.provenance.redis w cmd (List.mem_of_getElem? hc) d hcb).2
      exact part_quiet (hv.trans (Writes.muted (writes_transmit ⟨d.isTrans, ho⟩)))
        ((registry_transmit d.isTrans).trans hr)
  | online info => exact hanswer info.id (some info) (by rw [hcb]; exact if_pos rfl)
  | offline info => exact hanswer info.id none (by rw [hcb]; exact if_pos rfl)

theorem runs_of_redisReply {i : ℕ} {reply : Option RedisReply}
    (ht : step R s (env, .redisReply w i reply) = some t) : w < s.workThreadNum := by
  simp only [step] at ht
  split at ht
  · have hruns := (Option.ite_none_right_eq_some.mp ht).1
    exact of_decide_eq_true (Bool.and_eq_true_iff.mp hruns).1
  · simp at ht

theorem step_part {x : Env × Event} (hs : s.Sound) (hn : s.Numbered) (hk : s.Kept R)
    (ho : s.Orderly R friends x) (ht : step R s x = some t) : Part R friends s t := by
  obtain ⟨env, ev⟩ := x
  rcases step_cases R ht with hq | ha
  · cases hq with
    | acceptConn fd =>
      exact part_quiet writes_acceptCallback.muted (registry_acceptCallback env s fd)
    | timer => exact part_quiet writes_checkExpireClient.muted (registry_checkExpireClient env s)
    | stop w =>
      exact part_quiet (writes_notifyNewConn env (-1) s w).muted (registry_notifyNewConn _ _ s w)
    | newConn w => exact .acts (newConnLoop_acts env _ 0 s hn)
    | newMsg w => exact .empties (empties_newMsgLoop rfl (hs.pipe w))
    | @clientEvent w conn b input output flags hb =>
      by_cases hf : (flags.eof || flags.error) = true
      · refine .acts (.single (.leave (leaves_bufferEventEventCallback hf) (Or.inl ⟨conn, ?_⟩)))
        exact client_of_lookup hb
      · rw [bufferEventEventCallback, if_neg hf]
        exact .acts .refl
  cases ha with
  | clientRead hb hr =>
    refine part_quiet (muted_bufferEventReadCallback R hr) ?_
    apply registry_bufferEventReadCallback R _ hr
    exact (client_of_lookup hb).symm
  | @redisReply w i reply cmd _ hc hr =>
    obtain rfl : i = 0 := (ho.2.1 _ rfl).1
    exact redisCallback_part hk ho (runs_of_redisReply ht) hc hr
  | loginRead d hb => exact .acts (.single (httpLoginRead_act ho.2.2 hb))
  | transRead d hb =>
    have hd : d.origin = .client := hk.origin (hk.provenance.http _ _ hb d true rfl).1
    exact part_quiet (Writes.muted (writes_httpTransRead R ⟨d.isTrans, hd⟩))
      (registry_httpTransRead R (client_of_lookup hb))
  | loginEvent d sent hb =>
    exact part_quiet (writes_httpLoginEvent R (Signal.discreet_reply d false)).muted
      (registry_httpLoginEvent R (client_of_lookup hb))
  | transEvent d sent hb =>
    exact part_quiet (writes_httpTransEvent R).muted
      (registry_httpTransEvent R (client_of_lookup hb))

end Step

section Runs

variable {σ : Type} {R : Runtime σ} {friends : UInt64 → List Bytes} {s t u : Server}
  {x : Env × Event} {w conn : ℕ} {b : Addr} {id toId : UInt64}

theorem Acts.sound (h : Acts s t) (hs : s.Sound) : t.Sound := by
  induction h with
  | refl => exact hs
  | tail _ ha ih => exact ha.sound ih

theorem Acts.upholds (h : Acts s t) (hs : s.Sound) : Upholds R friends id toId w conn s t := by
  induction h with
  | refl => exact Or.inl ⟨rfl, fun ha => ha⟩
  | tail hm ha ih => exact ih.trans (ha.upholds (Acts.sound hm hs))

theorem Part.sound (h : Part R friends s t) (hs : s.Sound) : t.Sound := by
  cases h with
  | acts h => exact Acts.sound h hs
  | answered _ h => exact h.sound hs
  | empties h => exact h.sound hs

theorem Part.upholds (h : Part R friends s t) (hs : s.Sound) (hsub : s.SubscribedOn w b conn toId)
    (hf : ∃ str ∈ friends id, atoll str = toId) : Upholds R friends id toId w conn s t := by
  cases h with
  | acts h => exact Acts.upholds h hs
  | answered hv h => exact h.upholds hv hs hsub hf
  | empties h => exact h.upholds hs hsub

/-- What every state of an orderly run satisfies, with what every state of any run does. -/
structure InOrder (R : Runtime σ) (s : Server) : Prop where
  sound : s.Sound
  numbered : s.Numbered
  kept : s.Kept R

theorem InOrder.part (h : s.InOrder R) (ho : s.Orderly R friends x) (ht : step R s x = some t) :
    Part R friends s t :=
  step_part h.sound h.numbered h.kept ho ht

theorem InOrder.step (h : s.InOrder R) (ho : s.Orderly R friends x) (ht : step R s x = some t) :
    t.InOrder R where
  sound := (h.part ho ht).sound h.sound
  numbered := h.numbered.grows (step_grows ht)
  kept := h.kept.step ht

theorem inOrder_reached (h : Reached R (Orderly R friends) s) : s.InOrder R :=
  Transition.Reach.invariant
    (fun _ hs => ⟨sound_started hs, numbered_started hs, kept_started hs⟩)
    (fun _ _ _ hi ho ht => hi.step ho ht) h

/-- With reliable pipes, fixed friend lists and lone logins: if `toId` is a friend of `id`, and is
subscribed on one connection from before some change of the status of `id` on, then once no message
and no redis command is pending the last presence frame about `id` on that connection says whether
`id` is subscribed on some worker. -/
theorem presence_agrees (h : Reached R (Orderly R friends) s) (hx : s.Orderly R friends x)
    (ht : step R s x = some t) (hchange : t.online id ≠ s.online id)
    (hf : ∃ str ∈ friends id, atoll str = toId) (hsub : s.SubscribedOn w b conn toId)
    (hrun : Transition.Reach (step R) (· = t)
      (fun v y => v.Orderly R friends y ∧ v.SubscribedOn w b conn toId) u)
    (hu : u.SubscribedOn w b conn toId)
    (hq : ∀ v < u.workThreadNum, (u.workThread v).newMsgFd = [] ∧ (u.workThread v).redis = []) :
    ∃ e, (u.news friends id conn).getLast? = some e ∧ Tells R id (u.online id) e.bytes := by
  have hs := inOrder_reached h
  have hstart : t.Agrees R friends id toId w conn :=
    ((hs.part hx ht).upholds hs.sound hsub hf).resolve_left fun hc => hchange hc.1
  obtain ⟨-, ha⟩ := Transition.Reach.invariant
    (P := fun v => v.InOrder R ∧ v.Agrees R friends id toId w conn)
    (by
      rintro _ rfl
      exact ⟨hs.step hx ht, hstart⟩)
    (by
      rintro v y v' ⟨hv, hav⟩ ⟨hoy, hsv⟩ hstep
      refine ⟨hv.step hoy hstep, ?_⟩
      rcases (hv.part hoy hstep).upholds hv.sound hsv hf with ⟨-, hkeep⟩ | hnew
      · exact hkeep hav
      · exact hnew)
    hrun
  refine ha.news (fun v hv => ?_) ?_
  · simp [lookups, (hq v hv).2]
  · simp [mail, (hq w hu.1).1]

/-- 9 is the only friend of 7, and 9 has none. -/
def friendOfSeven (id : UInt64) : List Bytes := if id = 7 then [ascii "9"] else []

/-- The reply of redis to a lookup of the friends of 7. -/
def friendReply : Option RedisReply := some { type := .array, element := [some (ascii "9")] }

/-- The connection of 9, at address 1, is the first one of worker 0. -/
def Friended (s : Server) : Prop := s.SubscribedOn 0 1 0 9

instance (s : Server) : Decidable (Friended s) := inferInstanceAs (Decidable (s.SubscribedOn ..))

/-- After a run, an event changes the status of 7, and a second run follows, while 9 is subscribed
on one connection. -/
theorem exists_change (num : ℕ) (events later : List (Env × Event)) (x : Env × Event)
    (ok : Server → Env × Event → Prop) [∀ s y, Decidable (ok s y)] (P : Server → Prop)
    [DecidablePred P] (hw : ∀ y ∈ events ++ x :: later, ∀ n, y.1.write n = .full)
    (hok : Transition.RunOk (step Wire.runtime) ok (deployment num) events)
    (hr : (Transition.run (step Wire.runtime) (deployment num) events).any (fun s =>
      decide (Friended s ∧ ok s x) && (step Wire.runtime s x).any fun t =>
        decide (t.online 7 ≠ s.online 7 ∧ Transition.RunOk (step Wire.runtime) ok t later ∧
          Transition.RunOk (step Wire.runtime) (fun v _ => Friended v) t later) &&
        (Transition.run (step Wire.runtime) t later).any fun u =>
          decide (Friended u ∧ P u)) = true) :
    ∃ s t u, Reached Wire.runtime (fun v y => ReliablePipes v y ∧ ok v y) s ∧
      (ReliablePipes s x ∧ ok s x) ∧ step Wire.runtime s x = some t ∧ t.online 7 ≠ s.online 7 ∧
      Friended s ∧ Transition.Reach (step Wire.runtime) (· = t)
        (fun v y => (ReliablePipes v y ∧ ok v y) ∧ Friended v) u ∧ Friended u ∧ P u := by
  obtain ⟨s, hs, hr⟩ := (Option.any_eq_true _ _).mp hr
  obtain ⟨hp, hr⟩ := (Bool.and_eq_true _ _).mp hr
  obtain ⟨t, ht, hr⟩ := (Option.any_eq_true _ _).mp hr
  obtain ⟨hq, hr⟩ := (Bool.and_eq_true _ _).mp hr
  obtain ⟨u, hu, hr⟩ := (Option.any_eq_true _ _).mp hr
  obtain ⟨hfs, hoks⟩ := of_decide_eq_true hp
  obtain ⟨hch, hlater, hkept⟩ := of_decide_eq_true hq
  have hpipes : ∀ (v : Server) es, es ⊆ events ++ x :: later →
      Transition.RunOk (step Wire.runtime) ReliablePipes v es := fun v es hes =>
    .of_forall (fun y hy _ => hw y (hes hy)) v
  refine ⟨s, t, u, ?_, ⟨hw x (by simp), hoks⟩, ht, hch, hfs, ?_, of_decide_eq_true hr⟩
  · exact Transition.Reach.run (.start (deployment_started num))
      ((hpipes _ _ (List.subset_append_left _ _)).and hok) hs
  · refine Transition.Reach.run (.start rfl) (((hpipes t later ?_).and hlater).and hkept) hu
    exact fun y hy => List.mem_append_right _ (List.mem_cons_of_mem _ hy)

/-- 9 is logged in, and 7 has sent a login frame. -/
def awaited : List (Env × Event) :=
  connect 0 1 ++ login 0 1 9 ++ connect 0 2 ++ [(plainEnv 2, .clientRead 2 (loginFrame 7))]

/-- The friends of 7 are looked up and told. -/
def announced : List (Env × Event) :=
  [(plainEnv 2, .redisReply 0 0 friendReply), (plainEnv 2, .newMsg 0)]

/-- The login of 7 reaches its friend. -/
theorem awaited_agrees :
    ∃ u : Server, Friended u ∧ u.online 7 = true ∧
      ∃ e, (u.news friendOfSeven 7 0).getLast? = some e ∧ Tells Wire.runtime 7 true e.bytes := by
  obtain ⟨s, t, u, hs, hx, ht, hch, hsub, hrun, hu, hon, hq⟩ := exists_change 1 awaited announced
    (plainEnv 2, .redisReply 0 0 tokenReply)
    (fun s x => s.FixedFriends friendOfSeven x ∧ s.LoneLogin Wire.runtime x)
    (fun u => u.online 7 = true ∧ ∀ v < u.workThreadNum,
      (u.workThread v).newMsgFd = [] ∧ (u.workThread v).redis = [])
    (by simp [awaited, announced, connect, login, plainEnv]) (by decide +kernel)
    (by decide +kernel)
  have hlast := presence_agrees hs hx ht hch ⟨ascii "9", by decide, by decide⟩ hsub hrun hu hq
  rw [hon] at hlast
  exact ⟨u, hu, hon, hlast⟩

/-- A string field at the start of short data. -/
theorem writeString_eq {number : ℕ} {str tail data : Bytes} {tag n : UInt8} (hnum : number < 15)
    (hdata : data.length < 126) (h : Wire.writeString number str ++ tail = tag :: n :: data) :
    tag = UInt8.ofNat (number * 8 + 2) ∧ str.length = n.toNat ∧ str ++ tail = data := by
  have hlen := congrArg List.length h
  simp only [Wire.writeString, List.length_append, List.length_cons] at hlen
  have hshort : str.length < 128 := by omega
  have htag : number * 8 + 2 < 128 := by omega
  simp only [Wire.writeString, Wire.encodeVarint, if_pos htag, if_pos hshort, List.cons_append,
    List.nil_append, List.cons.injEq] at h
  obtain ⟨rfl, rfl, rfl⟩ := h
  refine ⟨rfl, ?_, rfl⟩
  rw [UInt8.toNat_ofNat']
  omega

/-- The frame that says that 7 is offline does not say that it is online. -/
theorem offline_not_online (env : Env) :
    ¬ Tells Wire.runtime 7 true (presenceFrame Wire.runtime env 7 0) := by
  rintro ⟨⟨ids, status⟩, mem, hb, ⟨str, hstr, -⟩, hall⟩
  have hm : OnlineStatus.serialize Wire.runtime ⟨ids, status⟩ = [10, 1, 55, 18, 1, 0] :=
    (packData_inj hb).symm.trans (by decide)
  have hcons : ∀ a rest, OnlineStatus.serialize Wire.runtime ⟨a :: rest, status⟩ =
      Wire.writeString 1 a ++ OnlineStatus.serialize Wire.runtime ⟨rest, status⟩ := by
    intro a rest
    simp [OnlineStatus.serialize, repString, Wire.runtime]
  cases ids with
  | nil => simp at hstr
  | cons a rest =>
    rw [hcons] at hm
    obtain ⟨-, ha, hbody⟩ := writeString_eq (by decide) (by decide) hm
    obtain ⟨c, rfl⟩ := List.length_eq_one_iff.mp ha
    obtain ⟨rfl, hrest⟩ := List.cons.inj hbody
    change OnlineStatus.serialize Wire.runtime ⟨rest, status⟩ = [18, 1, 0] at hrest
    cases rest with
    | cons a' rest =>
      rw [hcons] at hrest
      exact absurd (writeString_eq (by decide) (by decide) hrest).1 (by decide)
    | nil =>
      cases status with
      | none => simp [OnlineStatus.serialize, repString, optString] at hrest
      | some st =>
        have hfield : Wire.writeString 2 st ++ [] = [18, 1, 0] := by
          simpa [OnlineStatus.serialize, repString, optString, Wire.runtime] using hrest
        obtain ⟨-, -, hst⟩ := writeString_eq (by decide) (by decide) hfield
        obtain rfl : st = [0] := by simpa using hst
        exact absurd (hall 0 [55] rfl (by decide)) (by decide)

/-- 7 was logged in on worker 1, its connection was closed, and it has sent a login frame to worker
0 while worker 1 waits for the list of its friends. -/
def reconnected : List (Env × Event) :=
  connect 0 1 ++ login 0 1 9 ++ connect 1 2 ++
    [(plainEnv 2, .clientRead 2 (loginFrame 7)), (plainEnv 2, .redisReply 1 0 tokenReply),
      (plainEnv 2, .redisReply 1 0 friendReply), (plainEnv 2, .newMsg 0)] ++
    connect 0 3 ++
    [(plainEnv 3, .clientEvent 2 { eof := true }), (plainEnv 3, .clientRead 3 (loginFrame 7))]

/-- Worker 0 gets the list for the new session before worker 1 gets the one for the old session. -/
def overtaking : List (Env × Event) :=
  [(plainEnv 3, .redisReply 0 0 friendReply), (plainEnv 3, .newMsg 0),
    (plainEnv 3, .redisReply 1 0 friendReply), (plainEnv 3, .newMsg 0)]

/-- Nothing is pending, 7 is subscribed on worker 0, and the last frame about 7 on the connection of
9 says that it is offline. -/
theorem reconnected_disagrees :
    ∃ s t u,
      Reached Wire.runtime (fun v y => ReliablePipes v y ∧ v.FixedFriends friendOfSeven y) s ∧
      step Wire.runtime s (plainEnv 3, .redisReply 0 0 tokenReply) = some t ∧
      t.online 7 ≠ s.online 7 ∧ s.SubscribedOn 0 1 0 9 ∧
      Transition.Reach (step Wire.runtime) (· = t) (fun v y =>
        (ReliablePipes v y ∧ v.FixedFriends friendOfSeven y) ∧ v.SubscribedOn 0 1 0 9) u ∧
      u.SubscribedOn 0 1 0 9 ∧
      (∀ v < u.workThreadNum, (u.workThread v).newMsgFd = [] ∧ (u.workThread v).redis = []) ∧
      (∀ b ∈ u.heap.keys, (u.client b).isSome) ∧ u.online 7 = true ∧
      ∃ e, (u.news friendOfSeven 7 0).getLast? = some e ∧
        Tells Wire.runtime 7 false e.bytes ∧ ¬ Tells Wire.runtime 7 true e.bytes := by
  obtain ⟨s, t, u, hs, -, ht, hch, hsub, hrun, hu, hq, hheap, hon, hlast⟩ :=
    exists_change 2 reconnected overtaking (plainEnv 3, .redisReply 0 0 tokenReply)
      (FixedFriends friendOfSeven)
      (fun u => (∀ v < u.workThreadNum,
          (u.workThread v).newMsgFd = [] ∧ (u.workThread v).redis = []) ∧
        (∀ b ∈ u.heap.keys, (u.client b).isSome) ∧ u.online 7 = true ∧
        (u.news friendOfSeven 7 0).getLast?.map Sent.bytes =
          some (presenceFrame Wire.runtime (plainEnv 3) 7 0))
      (by simp [reconnected, overtaking, connect, login, plainEnv]) (by decide +kernel)
      (by decide +kernel)
  obtain ⟨e, he, hbytes⟩ := Option.map_eq_some_iff.mp hlast
  refine ⟨s, t, u, hs, ht, hch, hsub, hrun, hu, hq, hheap, hon, e, he, ?_⟩
  rw [hbytes]
  exact ⟨tells_presenceFrame Wire.runtime (plainEnv 3) 7 false, offline_not_online (plainEnv 3)⟩

end Runs

end Server

end EglComet
