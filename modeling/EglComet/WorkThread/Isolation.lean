import EglComet.AnalyseReq.RoundTrip
import EglComet.WorkThread.StepEffects

/-!
One parser serves all connections of a worker. Between callbacks it has nothing
pending, what it hands out comes from the bytes just consumed, and the flag it
is created with is gone before any of the worker's connections is logged in.
-/
namespace EglComet

open Protobuf

namespace Server

section Isolation

variable {σ : Type} (R : Runtime σ)

/-- A heartbeat frame is consumed on a connection that is logged in as `id`. -/
def HeartbeatOn (s : Server) (x : Env × Event) (w : ℕ) (b : Addr) (id : UInt64) : Prop :=
  ((s.workThread w).bevId.lookup b = some id ∧ id ≠ 0) ∧
    ∃ conn buffer before frame rest, s.Reads x w b conn buffer ∧
      buffer = before ++ (frame ++ rest) ∧ HeartbeatFrame frame ∧
        Yields R x.1.mem frame rest none none

/-- A record is attributed to the connection whose bytes produced it, and a heartbeat to the
connection on which it arrived. -/
def Traced (s : Server) (x : Env × Event) : Obs → Prop
  | .loginRead w b d => ∃ buffer before frame rest l, s.Reads x w b d.conn buffer ∧
      buffer = before ++ (frame ++ rest) ∧ Yields R x.1.mem frame rest (some l) none ∧
        d = stampLogin w b d.conn d.seq l
  | .relayRead w b _ d => ∃ conn buffer before rest l, s.Reads x w b conn buffer ∧
      buffer = before ++ (l.data ++ rest) ∧ Yields R x.1.mem l.data rest none (some l) ∧
        d = stampRelay w d.seq l
  | .heartbeat w b id => s.HeartbeatOn R x w b id
  | _ => True

/-- What an event may add: login requests are asked for where they are read, heartbeat times change
with a login or a heartbeat, and a parser is used where bytes are read. -/
def Isolated (s : Server) (x : Env × Event) : Item → Prop
  | .cmd w c => ∀ d, c.callback = .login d →
      d.workThread = w ∧ ∃ buffer, s.Reads x w d.bev d.conn buffer
  | .owner o => ∀ d sent, o = .httpLogin d sent → s.PendingLogin d
  | .obs o => s.Traced R x o
  | .sub w id _ => (∃ d ∈ s.approval R x.2, d.workThread = w ∧ d.id = id) ∨
      ∃ b, s.HeartbeatOn R x w b id
  | .parser w => ∃ b conn buffer, s.Reads x w b conn buffer
  | _ => True

/-- No parser has anything pending, and one that still has the flag it was created with belongs to a
worker that has no login, neither registered nor under way. -/
structure Unmixed (s : Server) : Prop where
  idle : ∀ w, Idle (s.workThread w).analyseReq
  unheard : ∀ w, (s.workThread w).analyseReq.isHeart = true →
    s.registry.Anonymous w ∧ ∀ d, s.PendingLogin d → d.workThread ≠ w

variable {R} {s t : Server} {x : Env × Event}

theorem permits_isolated (h : s.Unmixed) : s.Permits R x (s.Isolated R x) where
  obs o ho := by cases o <;> simp_all [Isolated, Traced, Obs.minor]
  offline w id := by rintro d ⟨⟩
  client w conn := by rintro d sent ⟨⟩
  sent _ _ := trivial
  conns _ _ := trivial
  taken _ _ _ _ _ _ := trivial
  popped _ _ := trivial
  forwarded _ _ _ _ _ := trivial
  handled _ _ _ _ := trivial
  parser w b conn buffer hread := ⟨b, conn, buffer, hread⟩
  login w b conn buffer a input output r hread hcall l hl seq := by
    obtain ⟨before, frame, rest, hbuf, hy⟩ := hcall.login (h.idle w) hl
    constructor
    · rintro _ ⟨⟩
      exact ⟨rfl, buffer, hread⟩
    · exact ⟨buffer, before, frame, rest, l, hread, hbuf, hy, rfl⟩
  heartbeat w b conn buffer a input output r hread hcall hheart id hid hne := by
    have hon : s.HeartbeatOn R x w b id := by
      rcases hcall.heartbeat (h.idle w) hheart with hset | ⟨before, frame, rest, hbuf, hf, hy⟩
      · exact absurd ((h.unheard w hset).1 b id hid) hne
      · exact ⟨⟨hid, hne⟩, conn, buffer, before, frame, rest, hread, hbuf, hf, hy⟩
    exact ⟨fun _ => Or.inr ⟨b, hon⟩, hon⟩
  relay w b conn buffer a input output r hread hcall l hl seq := by
    obtain ⟨before, rest, hbuf, hy⟩ := hcall.relay (h.idle w) hl
    refine ⟨fun _ => ⟨conn, buffer, before, rest, l, hread, hbuf, hy, rfl⟩, ?_, fun _ => trivial,
      trivial⟩
    rintro _ ⟨⟩
  loginOwner d hd sent := by
    rintro _ _ ⟨⟩
    exact (checkedLogin_pending hd).2
  refused _ _ _ _ _ := trivial
  admitted d hd := by
    refine ⟨trivial, Or.inl ⟨d, hd, rfl, rfl⟩, ?_, fun _ _ _ => trivial⟩
    rintro _ ⟨⟩
  transOwner d _ sent := by rintro _ _ ⟨⟩
  enqueued _ _ _ := trivial
  dropped _ _ := trivial
  friends _ _ _ _ _ _ _ _ _ := trivial

/-- A pending login was pending before, or was added. -/
theorem PendingLogin.of_grows {E : Item → Prop} {d : LoginData} (hg : Grows E s t)
    (h : t.PendingLogin d) : s.PendingLogin d ∨
      (∃ w c, E (.cmd w c) ∧ c.callback = .login d) ∨ ∃ sent, E (.owner (.httpLogin d sent)) := by
  rcases h with ⟨w, c, hc, hcb⟩ | ⟨a, be, sent, hb, ho⟩
  · rcases hg.redis w c hc with hold | hnew
    · exact Or.inl (Or.inl ⟨w, c, hold, hcb⟩)
    · exact Or.inr (Or.inl ⟨w, c, hnew, hcb⟩)
  · rcases hg.heap a be hb with ⟨a', be', hb', ho'⟩ | hnew
    · exact Or.inl (Or.inr ⟨a', be', sent, hb', ho'.trans ho⟩)
    · exact Or.inr (Or.inr ⟨sent, ho ▸ hnew⟩)

/-- An event that approves no login of worker `w` leaves its connections anonymous. -/
theorem anonymous_step {w : ℕ} (ht : step R s x = some t) (h : s.registry.Anonymous w)
    (hd : ∀ d ∈ s.approval R x.2, d.workThread ≠ w) : t.registry.Anonymous w := by
  refine (step_moves R ht).invariant (P := fun r => r.Anonymous w) ?_ h
  intro r l hr _ hl
  apply hr.apply
  rintro v b id told rfl
  obtain ⟨-, ⟨d, hap, rfl, -⟩, -⟩ := hl
  exact hd d hap

/-- What follows the turns of the read callback adds no login. -/
def NoLogin : Item → Prop
  | .cmd _ c => ∀ d, c.callback ≠ .login d
  | .owner o => ∀ d sent, o ≠ .httpLogin d sent
  | _ => True

theorem tolerant_noLogin : Tolerant NoLogin where
  obs _ _ := trivial
  offline w id := by rintro d ⟨⟩
  client w conn := by rintro d sent ⟨⟩
  sent _ _ := trivial

/-- The parser of a worker that runs its read callback has nothing pending afterwards, or all is as
it was. -/
theorem reads_cases {w : ℕ} {b : Addr} {conn : ℕ} {buffer : Bytes}
    (hread : s.Reads x w b conn buffer) (ht : step R s x = some t) :
    (t.workThread w).analyseReq.pending = (false, none, none) ∨
      (t.workThread w).analyseReq.pending = (s.workThread w).analyseReq.pending ∧
        Grows NoLogin s t := by
  obtain ⟨output, hb, ht⟩ := hread.callback R ht
  obtain ⟨u, -, -, hp | ⟨hp, rfl⟩, -, htail⟩ := bufferEventReadCallback_turns R
    (P := fun _ => True) rfl hb trivial (fun _ _ _ _ _ _ _ _ => trivial) ht
  · exact Or.inl hp
  · exact Or.inr ⟨hp, htail _ tolerant_noLogin trivial⟩

theorem Unmixed.step (h : s.Unmixed) (ht : step R s x = some t) : t.Unmixed := by
  have hg := (permits_isolated (R := R) (x := x) h).step ht
  constructor
  · intro w
    have hsame : ∀ p, p = (t.workThread w).analyseReq.pending →
        (p = (false, none, none) ∨ p = (s.workThread w).analyseReq.pending) →
          Idle (t.workThread w).analyseReq := by
      rintro _ rfl (hp | hp)
      · exact ⟨congrArg (fun p => p.2.1) hp, congrArg (fun p => p.2.2) hp⟩
      · exact ⟨(congrArg (fun p => p.2.1) hp).trans (h.idle w).1,
          (congrArg (fun p => p.2.2) hp).trans (h.idle w).2⟩
    apply hsame _ rfl
    rcases hg.parser w with hp | ⟨b, conn, buffer, hread⟩
    · exact Or.inr hp
    · exact (reads_cases hread ht).imp_right And.left
  · intro w hheart
    by_cases hr : ∃ b conn buffer, s.Reads x w b conn buffer
    · obtain ⟨b, conn, buffer, hread⟩ := hr
      rcases reads_cases hread ht with hp | ⟨hp, hn⟩
      · have hf : (t.workThread w).analyseReq.isHeart = false := congrArg Prod.fst hp
        simp [hf] at hheart
      · obtain ⟨hanon, hpend⟩ := h.unheard w ((congrArg Prod.fst hp).symm.trans hheart)
        constructor
        · apply anonymous_step ht hanon
          intro d hd
          exact hpend d (checkedLogin_pending (approval_checked R hd).1).2
        · intro d hd
          rcases hd.of_grows hn with hold | ⟨v, c, hnew, hcb⟩ | ⟨sent, hnew⟩
          · exact hpend d hold
          · exact absurd hcb (hnew d)
          · exact absurd rfl (hnew d sent)
    · have hp := (hg.parser w).resolve_right hr
      obtain ⟨hanon, hpend⟩ := h.unheard w ((congrArg Prod.fst hp).symm.trans hheart)
      constructor
      · apply anonymous_step ht hanon
        intro d hd
        exact hpend d (checkedLogin_pending (approval_checked R hd).1).2
      · intro d hd
        rcases hd.of_grows hg with hold | ⟨v, c, hnew, hcb⟩ | ⟨sent, hnew⟩
        · exact hpend d hold
        · obtain ⟨rfl, buffer, hread⟩ := hnew d hcb
          rintro rfl
          exact hr ⟨_, _, _, hread⟩
        · exact hpend d (hnew d sent rfl)

theorem unmixed_started (h : s.Started) : s.Unmixed := by
  obtain ⟨num, cap, ping, url, heart, rfl⟩ := h
  refine ⟨fun w => ⟨rfl, rfl⟩, fun w _ => ⟨fun b x hb => ?_, fun d hd => ?_⟩⟩
  · simp [registry, start, WorkThread.directory] at hb
  · simp [PendingLogin, start] at hd

/-- What the functions of `AnalyseReq` compute does not depend on the parser they are called on. -/
structure Stateless (R : Runtime σ) (a a' : AnalyseReq) : Prop where
  loginRsp : ∀ isSuccess msg pingTime mem mem',
    (getLoginRsp R a isSuccess msg pingTime mem).1 =
        (getLoginRsp R a' isSuccess msg pingTime mem').1
  loginPost : ∀ id token url,
    (getLoginPostData R a id token url).1 = (getLoginPostData R a' id token url).1
  relationPost : ∀ fromId toId url,
    (getRelationPostData R a fromId toId url).1 = (getRelationPostData R a' fromId toId url).1
  loginData : ∀ data, (analyseLoginData R a data).1 = (analyseLoginData R a' data).1
  relationData : ∀ data, (analyseRelationData R a data).1 = (analyseRelationData R a' data).1
  loginPack : ∀ data, (analyseLoginPack R a data).1 = (analyseLoginPack R a' data).1 ∧
    (analyseLoginPack R a data).2.loginData = (analyseLoginPack R a' data).2.loginData

theorem stateless (a a' : AnalyseReq) : Stateless R a a' where
  loginRsp isSuccess msg pingTime mem mem' := by rw [getLoginRsp_eq, getLoginRsp_eq]
  loginPost _ _ _ := rfl
  relationPost _ _ _ := rfl
  loginData data := by rw [Bool.eq_iff_iff, analyseLoginData_iff, analyseLoginData_iff]
  relationData data := by rw [Bool.eq_iff_iff, analyseRelationData_iff, analyseRelationData_iff]
  loginPack _ := ⟨rfl, rfl⟩

/-- In every run, whatever the flag of each parser is created with, no parser has a record pending
between callbacks; every record an event reads is what the bytes consumed on its connection yield,
whoever used the parser before; a heartbeat time that changes without a login does so for a
heartbeat frame consumed on the connection logged in under the id; and the functions of the parser
compute the same whatever it was used for. -/
theorem parser_isolated {ok : Server → Env × Event → Prop} (h : Reached R ok s) :
    (∀ w, Idle (s.workThread w).analyseReq) ∧
    (∀ x t, step R s x = some t →
      (∀ o ∈ t.log.drop s.log.length, s.Traced R x o) ∧
      ∀ w id sub, (t.workThread w).subMap.lookup id = some sub →
        (∃ old, (s.workThread w).subMap.lookup id = some old ∧
          old.lastHeartbeatTime = sub.lastHeartbeatTime) ∨
        (∃ d ∈ s.approval R x.2, d.workThread = w ∧ d.id = id) ∨ ∃ b, s.HeartbeatOn R x w b id) ∧
    ∀ a a', Stateless R a a' := by
  have hu : s.Unmixed := Transition.Reach.invariant (fun s hs => unmixed_started hs)
    (fun s x t hi _ ht => hi.step ht) h
  refine ⟨hu.idle, ?_, stateless⟩
  intro x t ht
  have hg := (permits_isolated (R := R) (x := x) hu).step ht
  constructor
  · intro o ho
    obtain ⟨added, hl, hadd⟩ := hg.log
    rw [hl, List.drop_left] at ho
    exact hadd o ho
  · intro w id sub hs
    rcases hg.subs w id sub hs with hold | hnew
    · exact Or.inl ⟨sub, hold, rfl⟩
    · exact Or.inr hnew

/-- The connections of 7 and 8 share a worker; a relay frame of the first is cut in two, with a
heartbeat of the second between the halves. -/
def interleaved : List (Env × Event) :=
  connect 0 1 ++ connect 0 2 ++ login 0 1 7 ++ login 0 2 8 ++
    [(plainEnv 1, .clientRead 1 [0x15, 0x40, 0x00, 0x00, 0x00]),
      (plainEnv 2, .clientRead 2 [0x15, 0x20, 0x00, 0x00])]

theorem interleaved_isolated :
    ∃ s, Reached Wire.runtime (fun _ _ => True) s ∧ Obs.heartbeat 0 2 8 ∈ s.log ∧
      ∀ w, Idle (s.workThread w).analyseReq := by
  obtain ⟨s, hs, hp⟩ := exists_reached Wire.runtime 1 interleaved (fun _ _ => True)
    (fun s => Obs.heartbeat 0 2 8 ∈ s.log) (.of_forall (by simp) _) (by decide +kernel)
  exact ⟨s, hs, hp, (parser_isolated hs).1⟩

end Isolation

end Server

end EglComet
