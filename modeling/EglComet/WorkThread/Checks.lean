import EglComet.AnalyseReq.CutReply
import EglComet.WorkThread.Ledger
import EglComet.WorkThread.PipeRetry

/-!
What the backends decide. The redis path accepts a login when the reply has a
string that agrees with the token as a C string; the HTTP paths decide on the
bytes of the first read callback and free the bufferevent after it.
-/
namespace EglComet

open Protobuf

/-- The reply is a string reply with the bytes of the token. -/
def ExactMatch (d : LoginData) (reply : Option RedisReply) : Prop :=
  ∃ r, reply = some r ∧ r.type = .string ∧ r.str = some d.token

/-- The reply carries a text that agrees with the token up to the first NUL byte, but is of another
type or has other bytes. -/
def LooseMatch (d : LoginData) (reply : Option RedisReply) : Prop :=
  ∃ r str, reply = some r ∧ r.str = some str ∧ cstr d.token = cstr str ∧
    (r.type ≠ .string ∨ str ≠ d.token)

namespace Server

/-- Between two states a table changed, or the request was answered with success. -/
def Registers (s t : Server) (d : LoginData) : Prop :=
  t.registry ≠ s.registry ∨ ∃ e ∈ t.sent.drop s.sent.length, e.source = .loginRsp d true

/-- The connection of a request is known and is not yet the session of its id. -/
def AwaitsLogin (s : Server) (d : LoginData) : Prop :=
  d.bev ∈ (s.workThread d.workThread).bevId ∧
    ((s.workThread d.workThread).subMap.lookup d.id).map Subscriber.bev ≠ some d.bev

variable {s t : Server} {d : LoginData} {reply : Option RedisReply}

theorem registers_of_approved {env : Env} (h : Approved env s d t.registry) : Registers s t d := by
  obtain ⟨told, hr, -⟩ := h
  left
  intro he
  have hlog := congrArg (fun r => r.log.length) (hr.symm.trans he)
  simp [Registry.apply, Registry.onDir, Registry.kick] at hlog

theorem not_registers (hr : t.registry = s.registry) {added : List Sent}
    (hs : t.sent = s.sent ++ added) (ha : ∀ e ∈ added, e.source = .loginRsp d false) :
    ¬ Registers s t d := by
  rintro (h | ⟨e, he, hsrc⟩)
  · exact h hr
  · rw [hs, List.drop_left] at he
    simp [ha e he] at hsrc

theorem RedisAccepts.not_of_str (hs : reply.bind RedisReply.str = none) :
    ¬ RedisAccepts s d reply := by
  rintro ⟨-, ⟨str, hstr, -⟩, -⟩
  simp [hs] at hstr

section Redis

variable {σ : Type} (R : Runtime σ)

/-- Every entry that the start of an HTTP check adds refuses the request. -/
theorem sent_httpLoginCheck (env : Env) (s : Server) (d : LoginData) :
    ∃ added, (s.httpLoginCheck R env d).sent = s.sent ++ added ∧
      ∀ e ∈ added, e.source = .loginRsp d false := by
  simp only [httpLoginCheck]
  split
  · exact ⟨[], by simp⟩
  · obtain ⟨bs, hs⟩ := sent_httpLoginEvent R env
      (s.setHeap (s.heap.insert (env.alloc.next s.heap) { owner := .httpLogin d false }))
      (env.alloc.next s.heap) d { error := true }
    refine ⟨_, hs, ?_⟩
    intro e he
    split_ifs at he
    · exact (mem_entryAt.mp he).2.1
    · simp at he
  · exact ⟨[], by simp⟩

theorem registers_redis_iff (env : Env) (s : Server) (d : LoginData) (reply : Option RedisReply) :
    Registers s (s.redisLoginCallback R env d reply) d ↔ RedisAccepts s d reply := by
  have ht := redisLoginCallback_outcome R env s d reply
  generalize s.redisLoginCallback R env d reply = t at ht ⊢
  cases ht with
  | gone hb =>
    apply iff_of_false
    · exact not_registers (registry_deleteLogin s d) (List.append_nil _).symm (by simp)
    · exact fun ha => hb ha.1
  | repeated hb hs hsame =>
    apply iff_of_false
    · exact not_registers (registry_deleteLogin s d) (List.append_nil _).symm (by simp)
    · exact fun ha => ha.2.2 hsame
  | asked hb hs =>
    obtain ⟨added, hsent, ha⟩ := sent_httpLoginCheck R env s d
    apply iff_of_false
    · exact not_registers (registry_httpLoginCheck R env s d) hsent ha
    · exact RedisAccepts.not_of_str hs
  | refused hb hs =>
    obtain ⟨bs, hsent⟩ := sent_replyLogin R env s d false "wrong id or token"
    apply iff_of_false
    · refine not_registers ?_ hsent fun e he => (mem_entryAt.mp he).2.1
      rw [registry_deleteLogin, registry_replyLogin]
    · rintro ⟨-, ⟨str', hs', ht⟩, -⟩
      obtain ⟨str, hs, hne⟩ := hs
      obtain rfl : str = str' := by simpa [hs] using hs'
      exact hne ht
  | accepted ha => exact iff_of_true (registers_of_approved (ha.approved R env)) ha

/-- The redis path is sound on every worker state and reply, except where a login that can still
be accepted meets a reply that matches the token loosely. -/
theorem redis_authentication_sound_iff (env : Env) (s : Server) (d : LoginData)
    (reply : Option RedisReply) :
    (Registers s (s.redisLoginCallback R env d reply) d → ExactMatch d reply) ↔
      ¬ (s.AwaitsLogin d ∧ LooseMatch d reply) := by
  rw [registers_redis_iff]
  constructor
  · rintro h ⟨⟨hb, hsame⟩, r, str, rfl, hstr, hc, hne⟩
    obtain ⟨r', hr, htype, hexact⟩ := h ⟨hb, ⟨str, hstr, hc⟩, hsame⟩
    obtain rfl := Option.some.inj hr
    obtain rfl : str = d.token := by simpa [hstr] using hexact
    rcases hne with hne | hne
    · exact hne htype
    · exact hne rfl
  · rintro h ⟨hb, ⟨str, hstr, hc⟩, hsame⟩
    obtain ⟨r, rfl, hr⟩ := Option.bind_eq_some_iff.mp hstr
    by_contra hn
    refine h ⟨⟨hb, hsame⟩, r, str, rfl, hr, hc, ?_⟩
    by_contra hall
    push Not at hall
    exact hn ⟨r, rfl, hall.1, hall.2 ▸ hr⟩

end Redis

/-- The request of a connection at address 1 for the id 7. -/
def requestWith (token : Bytes) : LoginData where
  id := 7
  token := token
  workThread := 0
  bev := 1

/-- An error reply. -/
def errorReply (text : Bytes) : Option RedisReply := some { type := .error, str := some text }

/-- A login frame for the id 7 with the three-byte token `t`, NUL, `x`. -/
def nulTokenFrame : Bytes :=
  [0x11, 0x00, 0x00, 0x00, 0x00, 0x0a, 0x01, 0x00, 0x07, 0x08, 0x07, 0x12, 0x03, 0x74, 0x00, 0x78]

/-- The request waits for its token, and a reply to it is answered with success. -/
def WaitsAndPasses (d : LoginData) (reply : Option RedisReply) (s : Server) : Prop :=
  tokenCommand d ∈ (s.workThread 0).redis ∧
    ∃ e ∈ (s.redisLoginCallback Wire.runtime (plainEnv 1) d reply).sent.drop s.sent.length,
      e.source = .loginRsp d true

instance (d : LoginData) (reply : Option RedisReply) : DecidablePred (WaitsAndPasses d reply) :=
  fun _ => inferInstanceAs (Decidable (_ ∧ ∃ e ∈ _, _))

/-- An error reply whose text is the token, and a string reply that the token only extends behind a
NUL byte, both register the id. -/
theorem loose_replies_register :
    (∃ s, Reached Wire.runtime (fun _ _ => True) s ∧
      tokenCommand (requestWith [0x74]) ∈ (s.workThread 0).redis ∧
      Registers s (s.redisLoginCallback Wire.runtime (plainEnv 1) (requestWith [0x74])
        (errorReply [0x74])) (requestWith [0x74]) ∧
      ¬ ExactMatch (requestWith [0x74]) (errorReply [0x74])) ∧
    ∃ s, Reached Wire.runtime (fun _ _ => True) s ∧
      tokenCommand (requestWith [0x74, 0x00, 0x78]) ∈ (s.workThread 0).redis ∧
      Registers s (s.redisLoginCallback Wire.runtime (plainEnv 1) (requestWith [0x74, 0x00, 0x78])
        tokenReply) (requestWith [0x74, 0x00, 0x78]) ∧
      ¬ ExactMatch (requestWith [0x74, 0x00, 0x78]) tokenReply := by
  have hrun (frame : Bytes) (d : LoginData) (reply : Option RedisReply)
      (h : (Transition.run (step Wire.runtime) (deployment 1)
        (connect 0 1 ++ [(plainEnv 1, .clientRead 1 frame)])).any
          (fun s => decide (WaitsAndPasses d reply s)) = true) :
      ∃ s, Reached Wire.runtime (fun _ _ => True) s ∧ WaitsAndPasses d reply s :=
    exists_reached Wire.runtime 1 _ _ _ (Transition.RunOk.of_forall (fun _ _ _ => trivial) _) h
  constructor
  · obtain ⟨s, hs, hw, hp⟩ := hrun (loginFrame 7) (requestWith [0x74]) (errorReply [0x74])
      (by decide +kernel)
    refine ⟨s, hs, hw, Or.inr hp, ?_⟩
    rintro ⟨r, hr, htype, -⟩
    obtain rfl := Option.some.inj hr
    simp at htype
  · obtain ⟨s, hs, hw, hp⟩ := hrun nulTokenFrame (requestWith [0x74, 0x00, 0x78]) tokenReply
      (by decide +kernel)
    refine ⟨s, hs, hw, Or.inr hp, ?_⟩
    rintro ⟨r, hr, -, hstr⟩
    obtain rfl := Option.some.inj hr
    simp [requestWith] at hstr

section Http

variable {σ : Type} (R : Runtime σ)

/-- The segments of a reply arrive one by one. What arrives for a bufferevent that is gone reaches
no callback. -/
def deliverSegments (env : Env) (h : Addr) : List Bytes → Server → Server
  | [], s => s
  | seg :: segs, s => deliverSegments env h segs ((step R s (env, .httpRead h seg)).getD s)

/-- Between two states a worker was handed the record. -/
def Forwards (s t : Server) (d : Relay) : Prop :=
  ∃ j, .enqueued j d.toTransData ∈ t.log.drop s.log.length

theorem deliverSegments_of_free {env : Env} {h : Addr} (hs : s.heap.lookup h = none)
    (segs : List Bytes) : deliverSegments R env h segs s = s := by
  induction segs with
  | nil => rfl
  | cons seg segs ih =>
    have hstep : step R s (env, .httpRead h seg) = none := by simp [step, hs]
    rw [deliverSegments, hstep]
    exact ih

theorem lookup_bufferEventFree (s : Server) (h : Addr) :
    (s.bufferEventFree h).heap.lookup h = none := by
  simp [bufferEventFree, setHeap]

/-- Only the first segment is looked at by a login check. -/
theorem deliverSegments_login {env : Env} {h : Addr} {out : Bytes}
    (hb : s.heap.lookup h = some ⟨.httpLogin d true, [], out⟩) (hr : s.runs d.workThread = true)
    (first : Bytes) (rest : List Bytes) :
    deliverSegments R env h (first :: rest) s = s.httpLoginRead R env h d first := by
  have hstep : step R s (env, .httpRead h first) = some (s.httpLoginRead R env h d first) := by
    simp [step, hb, hr]
  rw [deliverSegments, hstep]
  apply deliverSegments_of_free
  exact lookup_bufferEventFree _ h

theorem deliverSegments_trans {env : Env} {h : Addr} {out : Bytes} {d : Relay}
    (hb : s.heap.lookup h = some ⟨.httpTrans d true, [], out⟩) (hr : s.runs d.workThread = true)
    (first : Bytes) (rest : List Bytes) :
    deliverSegments R env h (first :: rest) s = s.httpTransRead R env h d first := by
  have hstep : step R s (env, .httpRead h first) = some (s.httpTransRead R env h d first) := by
    simp [step, hb, hr]
  rw [deliverSegments, hstep]
  apply deliverSegments_of_free
  exact lookup_bufferEventFree _ h

theorem registers_http_iff {env : Env} {h : Addr} (hc : s.client h = none) (data : Bytes) :
    Registers s (s.httpLoginRead R env h d data) d ↔
      d.bev ∈ (s.workThread d.workThread).bevId ∧ AcceptsCheck R rspCheckTokenByID data := by
  rw [← analyseLoginData_iff R (s.workThread d.workThread).analyseReq]
  have ht := httpLoginRead_verdict R env s h d data
  generalize s.httpLoginRead R env h d data = t at ht ⊢
  cases ht with
  | gone hb =>
    apply iff_of_false
    · refine not_registers ?_ (List.append_nil _).symm (by simp)
      exact (registry_deleteLogin _ d).trans (registry_free_of_eq rfl hc)
    · exact fun ha => hb ha.1
  | accepted hb ha a _ =>
    exact iff_of_true (registers_of_approved (Approved.httpLoginRead R hc hb a)) ⟨hb, ha⟩
  | refused hb hn a _ =>
    obtain ⟨bs, hsent⟩ := sent_replyLogin R env (s.setAnalyseReq d.workThread a) d false
      "wrong id or token"
    apply iff_of_false
    · refine not_registers ?_ hsent fun e he => (mem_entryAt.mp he).2.1
      rw [registry_deleteLogin]
      exact registry_free_of_eq (by simp) hc
    · rintro ⟨-, ha⟩
      simp [hn] at ha

/-- One of the workers that have the id takes what is written into its pipe. -/
def Taken (env : Env) (s : Server) (id : UInt64) : Prop :=
  ∃ k < s.holders id, env.write (s.writes + k) = .full

theorem forwards_iff {env : Env} {h : Addr} {d : Relay} (data : Bytes) :
    Forwards s (s.httpTransRead R env h d data) d ↔
      AcceptsCheck R rspCheckRelationByID data ∧ Taken env s d.toId := by
  rw [← analyseRelationData_iff R (s.workThread d.workThread).analyseReq, Taken, holders,
    ← taker_isSome_iff]
  simp only [Forwards, httpTransRead]
  generalize analyseRelationData R (s.workThread d.workThread).analyseReq data = r
  cases hr : r.1 with
  | false =>
    simp only [Bool.false_eq_true, if_false, deleteTrans, log_bufferEventFree, log_emit,
      log_setAnalyseReq, List.append_assoc, List.drop_left]
    simp
  | true =>
    have htaker : ∀ u, u = (s.setAnalyseReq d.workThread r.2).emit (.relationAnswer d data true) →
        taker env u.workThread d.toId (List.range u.workThreadNum) u.writes =
          taker env s.workThread d.toId (List.range s.workThreadNum) s.writes := by
      rintro u rfl
      apply taker_congr
      intro j
      simp only [emit, setAnalyseReq, modify, Function.update_apply]
      split_ifs with hj
      · rw [hj]
      · rfl
    simp only [if_true, log_bufferEventFree, log_transmit, log_emit, log_setAnalyseReq,
      List.append_assoc, List.drop_left, htaker _ rfl]
    cases (taker env s.workThread d.toId (List.range s.workThreadNum) s.writes).1 <;> simp

end Http

/-- A connection asks for the id 7, redis has no token, and the request to the HTTP service has been
sent from a bufferevent at address 2. -/
def httpCheck : List (Env × Event) :=
  connect 0 1 ++ [(plainEnv 1, .clientRead 1 (loginFrame 7)),
    (plainEnv 2, .redisReply 0 0 (some { type := .nil })),
    (plainEnv 2, .httpEvent 2 { connected := true })]

/-- The login of the connection at address 1 is being checked from address 2. -/
def Checking (s : Server) : Prop :=
  (s.heap.lookup 2).map (fun be => (be.owner, be.input)) =
      some (.httpLogin (requestWith [0x74]) true, []) ∧
    s.runs 0 = true ∧ 1 ∈ (s.workThread 0).bevId

instance : DecidablePred Checking := fun _ => inferInstanceAs (Decidable (_ ∧ _ ∧ _))

theorem httpCheck_reached : ∃ s, Reached Wire.runtime (fun _ _ => True) s ∧ s.Checking := by
  apply exists_reached Wire.runtime 1 httpCheck
  · exact Transition.RunOk.of_forall (fun _ _ _ => trivial) _
  · decide +kernel

theorem Checking.lookup (h : s.Checking) :
    ∃ out, s.heap.lookup 2 = some ⟨.httpLogin (requestWith [0x74]) true, [], out⟩ := by
  obtain ⟨⟨owner, input, out⟩, hb, heq⟩ := Option.map_eq_some_iff.mp h.1
  obtain ⟨rfl, rfl⟩ := Prod.mk.inj heq
  exact ⟨out, hb⟩

/-- A reply whose only check result has code 1. -/
def refusing : CheckReply Wire.runtime where
  head := okHead
  packet :=
    { mask := some 0, rescode := some 0, resmsg := some [],
      params := [RspCheck.serialize Wire.runtime ⟨some 1, some []⟩] }
  checks := [⟨some 1, some []⟩]
  head_plain := by decide +kernel
  packet_params := rfl
  rescode_int32 := by simp [Int32Range]
  body_short := by decide +kernel
  body_line := by
    intro h
    exact absurd (h.subset (List.mem_cons_self : (0x0d : UInt8) ∈ crlf)) (by decide +kernel)

theorem bytes_refusing : refusing.bytes = okHead ++ crlf ++ crlf ++ checkBody 1 := by decide +kernel

end Server

end EglComet
