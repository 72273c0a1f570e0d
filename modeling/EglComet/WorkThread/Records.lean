import EglComet.WorkThread.Relay
import EglComet.WorkThread.StepEffects

/-!
The numbers of records. Every login request and every relay frame that is read
gets a number of its own; whatever is pending or was answered later names a
record that was read, and its number says which one.
-/
namespace EglComet

open Protobuf

/-- The number of the record that an entry of the history reads. -/
def Obs.number : Obs → Option ℕ
  | .loginRead _ _ d => some d.seq
  | .relayRead _ _ _ d => some d.seq
  | _ => none

/-- A login request was read. -/
def LoginRead (log : List Obs) (d : LoginData) : Prop := .loginRead d.workThread d.bev d ∈ log

section Sent

variable {σ : Type} (R : Runtime σ)

/-- What was sent answers or forwards a record that was read; a login reply is what the encoder
makes, and a forwarded record has the bytes it was read with. -/
def Sent.Recorded (log : List Obs) (e : Sent) : Prop :=
  match e.source with
  | .loginRsp d isSuccess => LoginRead log d ∧ IsReply R isSuccess e.bytes
  | .relay d => d.origin = .client →
      e.bytes = d.data.take d.dataSize.toNat ∧ ∃ r : Relay, r.toTransData = d ∧ ReadFrom log r
  | _ => True

variable {R}

theorem Sent.Recorded.mono {log log' : List Obs} {e : Sent} (h : e.Recorded R log)
    (hl : log ⊆ log') : e.Recorded R log' := by
  obtain ⟨conn, source, bs⟩ := e
  cases source with
  | echo => trivial
  | loginRsp d ok => exact ⟨hl h.1, h.2⟩
  | relay d =>
    intro ho
    obtain ⟨hbs, r, hr, hread⟩ := h ho
    exact ⟨hbs, r, hr, hread.mono hl⟩
  | friends info => trivial

end Sent

namespace Server

/-- Pending login requests and everything sent name records that were read, and the numbers of the
records read increase. -/
structure Recorded {σ : Type} (R : Runtime σ) (s : Server) : Prop where
  login : ∀ d, s.PendingLogin d → LoginRead s.log d
  sent : ∀ e ∈ s.sent, e.Recorded R s.log
  sorted : (s.log.filterMap Obs.number).Pairwise (· < ·)
  bound : ∀ n ∈ s.log.filterMap Obs.number, n < s.nextSeq

/-- What may be added without reading a frame, after a history. -/
def Logged {σ : Type} (R : Runtime σ) (log : List Obs) : Item → Prop
  | .cmd _ c => ∀ d, c.callback = .login d → LoginRead log d
  | .owner o => ∀ d sent, o = .httpLogin d sent → LoginRead log d
  | .obs o => o.number = none
  | .sent e => e.Recorded R log
  | _ => True

section Rules

variable {σ : Type} {R : Runtime σ} {s t : Server}

theorem tolerant_logged (log : List Obs) : Tolerant (Logged R log) where
  obs o ho := by cases o <;> simp_all [Logged, Obs.number, Obs.minor]
  offline w id := by rintro d ⟨⟩
  client w conn := by rintro d sent ⟨⟩
  sent e he := by
    obtain ⟨conn, source, bs⟩ := e
    cases source with
    | echo | friends => trivial
    | loginRsp d ok => simp [Source.number] at he
    | relay d =>
      intro ho
      simp [Source.number, TransData.number, ho] at he

/-- Two entries with the same number are the same entry. -/
theorem Recorded.unique (h : s.Recorded R) {o o' : Obs} {n : ℕ} (ho : o ∈ s.log) (ho' : o' ∈ s.log)
    (hn : o.number = some n) (hn' : o'.number = some n) : o = o' := by
  have hs := h.sorted
  generalize s.log = log at ho ho' hs
  induction log with
  | nil => simp at ho
  | cons p log ih =>
    have hlt : ∀ q ∈ log, ∀ m k, p.number = some m → q.number = some k → m < k := by
      intro q hq m k hm hk
      rw [List.filterMap_cons_some hm, List.pairwise_cons] at hs
      exact hs.1 k (List.mem_filterMap.mpr ⟨q, hq, hk⟩)
    have htail : (log.filterMap Obs.number).Pairwise (· < ·) := by
      cases hp : p.number with
      | none => rwa [List.filterMap_cons_none hp] at hs
      | some m =>
        rw [List.filterMap_cons_some hp, List.pairwise_cons] at hs
        exact hs.2
    rcases List.mem_cons.mp ho with rfl | hmem
    · rcases List.mem_cons.mp ho' with rfl | hmem'
      · rfl
      · exact absurd (hlt o' hmem' n n hn hn') (lt_irrefl n)
    · rcases List.mem_cons.mp ho' with rfl | hmem'
      · exact absurd (hlt o hmem n n hn' hn) (lt_irrefl n)
      · exact ih hmem hmem' htail

/-- The part of `Recorded` about what is pending and was sent, after a step that may read. -/
theorem Recorded.login_grows {log : List Obs} (h : s.Recorded R) (hl : log ⊆ t.log)
    (hg : Grows (fun i => Logged R log i ∨ ∃ o, i = .obs o) s t) :
    (∀ d, t.PendingLogin d → LoginRead t.log d) ∧ ∀ e ∈ t.sent, e.Recorded R t.log := by
  have hsub : s.log ⊆ t.log := fun o ho => hg.mem_log ho
  constructor
  · rintro d (⟨w, c, hc, hcb⟩ | ⟨a, be, sent, hb, ho⟩)
    · rcases hg.redis w c hc with hold | hnew | ⟨o, ho⟩
      · exact hsub (h.login d (Or.inl ⟨w, c, hold, hcb⟩))
      · exact hl (hnew d hcb)
      · simp at ho
    · rcases hg.heap a be hb with ⟨a', be', hb', ho'⟩ | hnew | ⟨o, ho'⟩
      · exact hsub (h.login d (Or.inr ⟨a', be', sent, hb', ho'.trans ho⟩))
      · exact hl (hnew d sent ho)
      · simp at ho'
  · intro e he
    obtain ⟨added, hs, hadd⟩ := hg.sent
    rw [hs] at he
    rcases List.mem_append.mp he with hold | hnew
    · exact (h.sent e hold).mono hsub
    · rcases hadd e hnew with hrec | ⟨o, ho⟩
      · exact Sent.Recorded.mono hrec hl
      · simp at ho

theorem Recorded.grows (h : s.Recorded R) (hg : Grows (Logged R s.log) s t) : t.Recorded R := by
  obtain ⟨hlogin, hsent⟩ :=
    h.login_grows (fun o ho => hg.mem_log ho) (hg.mono fun _ hi => Or.inl hi)
  obtain ⟨added, hl, hadd⟩ := hg.log
  have hnum : t.log.filterMap Obs.number = s.log.filterMap Obs.number := by
    have hnone : added.filterMap Obs.number = [] := List.filterMap_eq_nil_iff.mpr hadd
    rw [hl, List.filterMap_append, hnone, List.append_nil]
  refine ⟨hlogin, hsent, hnum ▸ h.sorted, ?_⟩
  intro n hn
  rw [hnum] at hn
  exact (h.bound n hn).trans_le hg.nextSeq

/-- Reading the next frame keeps the numbers increasing. -/
theorem Recorded.read (log : List Obs) (h : s.Recorded R) {o : Obs} (hl : t.log = s.log ++ [o])
    (hn : o.number = some s.nextSeq) (hseq : t.nextSeq = s.nextSeq + 1) (hlog : log ⊆ t.log)
    (hg : Grows (fun i => Logged R log i ∨ ∃ o, i = .obs o) s t) : t.Recorded R := by
  obtain ⟨hlogin, hsent⟩ := h.login_grows hlog hg
  have hnum : t.log.filterMap Obs.number = s.log.filterMap Obs.number ++ [s.nextSeq] := by
    simp [hl, List.filterMap_append, hn]
  refine ⟨hlogin, hsent, ?_, ?_⟩
  · rw [hnum, List.pairwise_append]
    refine ⟨h.sorted, List.pairwise_singleton _ _, ?_⟩
    intro m hm k hk
    rw [List.mem_singleton.mp hk]
    exact h.bound m hm
  · intro m hm
    rw [hnum, List.mem_append, List.mem_singleton] at hm
    rw [hseq]
    rcases hm with hm | rfl
    · exact (h.bound m hm).trans (Nat.lt_succ_self _)
    · exact Nat.lt_succ_self _

end Rules

section Turn

variable {σ : Type} {R : Runtime σ} {s t : Server} {env : Env} {w conn : ℕ} {b : Addr} {id : UInt64}

theorem Recorded.startLogin (h : s.Recorded R) (d : Option LoginData) :
    (startLogin w b conn s d).Recorded R := by
  cases d with
  | none => exact h
  | some l =>
    apply h.read _ (o := .loginRead w b (stampLogin w b conn s.nextSeq l)) rfl rfl rfl
      (List.Subset.refl _)
    apply grows_startLogin
    rintro _ ⟨⟩
    refine ⟨Or.inl ?_, Or.inr ⟨_, rfl⟩⟩
    rintro _ ⟨⟩
    exact List.mem_append_right _ (List.mem_singleton_self _)

theorem Recorded.refreshHeartbeat {isHeart : Bool} (h : s.Recorded R) :
    (refreshHeartbeat env w b id s isHeart).Recorded R :=
  h.grows (grows_refreshHeartbeat fun _ _ _ _ => ⟨trivial, rfl⟩)

theorem Recorded.startTrans (h : s.Recorded R) (d : Option TransData) :
    (startTrans env w b id s d).Recorded R := by
  cases d with
  | none => exact h
  | some l =>
    let u := { s with nextSeq := s.nextSeq + 1 }.emit
      (.relayRead w b (((s.workThread w).bevId.lookup b).getD 0) (stampRelay w s.nextSeq l))
    have hu : u.Recorded R := by
      apply h.read s.log rfl rfl rfl
      · exact fun o ho => List.mem_append_left _ ho
      · exact grows_nextSeq.trans (grows_emit (Or.inr ⟨_, rfl⟩))
    apply hu.grows
    simp only [Server.startTrans]
    split_ifs
    · exact grows_transmit (fun _ => rfl) rfl
    · apply grows_redisAsyncCommand
      rintro _ ⟨⟩
    · exact grows_deleteTrans rfl

theorem Recorded.handleRequest {r : Analysed} (h : s.Recorded R) :
    (handleRequest env w b conn id s r).Recorded R :=
  ((h.startLogin _).refreshHeartbeat).startTrans _

end Turn

section Step

variable {σ : Type} {R : Runtime σ} {s t : Server}

theorem permits_logged {x : Env × Event} (h : s.Recorded R) (hp : s.Provenance R)
    (hx : ∀ w b conn buffer, ¬ s.Reads x w b conn buffer) : s.Permits R x (Logged R s.log) where
  toTolerant := tolerant_logged s.log
  conns _ _ := trivial
  taken _ _ _ _ _ _ := trivial
  popped _ _ := trivial
  forwarded w _ d hd _ := by
    intro ho
    exact ⟨rfl, hp.queued hd ho⟩
  handled _ _ _ _ := rfl
  parser w b conn buffer hread := absurd hread (hx w b conn buffer)
  login w b conn buffer _ _ _ _ hread := absurd hread (hx w b conn buffer)
  heartbeat w b conn buffer _ _ _ _ hread := absurd hread (hx w b conn buffer)
  relay w b conn buffer _ _ _ _ hread := absurd hread (hx w b conn buffer)
  loginOwner d hd sent := by
    rintro _ _ ⟨⟩
    exact h.login d (checkedLogin_pending hd).2
  refused d hd _ _ hr := ⟨h.login d (checkedLogin_pending hd).2, hr⟩
  admitted d hd := by
    refine ⟨rfl, trivial, ?_, fun _ _ hr => ⟨?_, hr⟩⟩
    · rintro _ ⟨⟩
    · exact h.login d (checkedLogin_pending (approval_checked R hd).1).2
  transOwner d _ sent := by rintro _ _ ⟨⟩
  enqueued _ _ _ := rfl
  dropped _ _ := rfl
  friends _ _ _ _ _ _ _ _ _ := rfl

theorem Recorded.step {x : Env × Event} (h : s.Recorded R) (hp : s.Provenance R)
    (ht : step R s x = some t) : t.Recorded R := by
  by_cases hx : ∃ w b conn buffer, s.Reads x w b conn buffer
  · obtain ⟨w, b, conn, buffer, hread⟩ := hx
    obtain ⟨output, hb, ht⟩ := hread.callback R ht
    obtain ⟨u, hu, -, -, -, htail⟩ := bufferEventReadCallback_turns R (P := Recorded R) rfl hb h
      (fun _ _ _ _ _ _ hu _ => hu.handleRequest) ht
    exact hu.grows (htail _ (tolerant_logged u.log) trivial)
  · push Not at hx
    exact h.grows ((permits_logged h hp hx).step ht)

theorem recorded_started (h : s.Started) : s.Recorded R := by
  obtain ⟨num, cap, ping, url, heart, rfl⟩ := h
  constructor <;> simp [start, PendingLogin]

end Step

end Server

end EglComet
