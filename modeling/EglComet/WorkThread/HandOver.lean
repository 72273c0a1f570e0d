import EglComet.WorkThread.Delivery
import EglComet.WorkThread.Releases

/-!
A record after it was written to a pipe. `notify_new_msg` reads the record for
its debug line once the write has succeeded, and so do the callers that pass a
relay on; by then the worker at the other end of the pipe may have deleted it.
Here a callback is run up to its last write. Its reads follow one by one, with
callbacks of other workers in between, and its own worker starts no other
callback before the last of them.
-/
namespace EglComet

open Protobuf Holdings

/-- The worker that runs the callbacks of a bufferevent. -/
def Owner.worker : Owner → ℕ
  | .client w _ => w
  | .httpLogin d _ => d.workThread
  | .httpTrans d _ => d.workThread

namespace Server

/-- The worker that runs the callback of an event; `none` is the main thread. -/
def runner (s : Server) : Event → Option ℕ
  | .acceptConn _ | .timer | .stop _ => none
  | .newConn w | .newMsg w | .redisReply w _ _ => some w
  | .clientRead b _ | .clientEvent b _ | .httpRead b _ | .httpEvent b _ =>
    (s.heap.lookup b).map fun be => be.owner.worker

/-- What a callback that leads from `s` to `t` has written to the pipe of worker `j`. -/
def written (s t : Server) (j : ℕ) : List TransData :=
  (t.workThread j).newMsgFd.drop (s.workThread j).newMsgFd.length

/-- The record with this number has been deleted. -/
def deleted (s : Server) (n : ℕ) : Bool := s.log.any fun o => o.released = some n

theorem deleted_eq_false {s : Server} {n : ℕ} (h : (s.books []).count .released n = 0) :
    s.deleted n = false := by
  rw [deleted, List.any_eq_false]
  intro o ho hn
  exact List.countP_eq_zero.mp h o ho hn

/-- A record in a pipe has not been deleted. -/
theorem Released.not_deleted {s : Server} (h : s.Released) {w : ℕ} {d : TransData}
    (hd : d ∈ (s.workThread w).newMsgFd) : s.deleted d.seq = false := by
  have hpos : 0 < (s.books []).count (.queue w) d.seq :=
    List.countP_pos_iff.mpr ⟨d, hd, decide_eq_true rfl⟩
  exact deleted_eq_false (h.sound.elsewhere hpos (by simp))

/-- A callback up to its last write, or the next read for a debug line in worker `w`; the caller of
`notify_new_msg` may read the record again. -/
inductive WriteEvent where
  | callback (x : Env × Event)
  | read (w : ℕ) (again : Bool)

/-- The callback that an event runs. -/
def WriteEvent.event : WriteEvent → Option (Env × Event)
  | .callback x => some x
  | .read _ _ => none

/-- The server with the records that each worker has written and will still read, and two histories:
the records that were written to the pipe of another worker, and those that were read after they
had been deleted. -/
structure Writing where
  server : Server
  unread : ℕ → List TransData := fun _ => []
  handed : List TransData := []
  late : List TransData := []

namespace Writing

section Step

variable {σ : Type} (R : Runtime σ)

/-- Worker `w` has run a callback that leads to `t`. -/
def wrote (z : Writing) (w : ℕ) (t : Server) : Writing where
  server := t
  unread := Function.update z.unread w ((List.range t.workThreadNum).flatMap (z.server.written t))
  handed := z.handed ++ ((List.range t.workThreadNum).filter (· ≠ w)).flatMap (z.server.written t)
  late := z.late

def step (z : Writing) : WriteEvent → Option Writing
  | .callback x =>
    match z.server.runner x.2 with
    | some w => if z.unread w = [] then (Server.step R z.server x).map (z.wrote w) else none
    | none => (Server.step R z.server x).map fun t => { z with server := t }
  | .read w again =>
    match z.unread w with
    | [] => none
    | d :: ds =>
      some { z with
        unread := Function.update z.unread w (if again then d :: ds else ds)
        late := if z.server.deleted d.seq then z.late ++ [d] else z.late }

/-- No thread has written a record yet. -/
def Started (z : Writing) : Prop := ∃ s : Server, s.Started ∧ z = { server := s }

/-- States that are reached while every callback satisfies `ok`. -/
def Reached (ok : Server → Env × Event → Prop) : Writing → Prop :=
  Transition.Reach (step R) Started fun z e => ∀ x ∈ e.event, ok z.server x

variable {R} {z z' : Writing} {e : WriteEvent}

/-- The records of the server are accounted for; what a worker will still read is in its own pipe
or was handed to another worker, and only such a record was read too late. -/
structure Safe (z : Writing) : Prop where
  released : z.server.Released
  unread : ∀ w, ∀ d ∈ z.unread w, d ∈ z.handed ∨ d ∈ (z.server.workThread w).newMsgFd
  late : ∀ d ∈ z.late, d ∈ z.handed

theorem safe_started (h : z.Started) : z.Safe := by
  obtain ⟨s, hs, rfl⟩ := h
  exact ⟨released_started hs, fun _ _ hd => (List.not_mem_nil hd).elim,
    fun _ hd => (List.not_mem_nil hd).elim⟩

/-- Records stay in a pipe until its worker runs the callback for it. -/
theorem mem_newMsgFd_step {s t : Server} {x : Env × Event} {w : ℕ} {d : TransData}
    (ht : Server.step R s x = some t) (hw : s.runner x.2 ≠ some w)
    (hd : d ∈ (s.workThread w).newMsgFd) : d ∈ (t.workThread w).newMsgFd := by
  rcases (step_pops ht).popped w with hkept | hpop
  · exact hkept.subset hd
  · have hx : x.2 = .newMsg w := hpop
    exact absurd (by rw [hx, runner]) hw

theorem Safe.wrote (h : z.Safe) {w : ℕ} {t : Server} {x : Env × Event} (hr : t.Released)
    (hw : z.server.runner x.2 = some w) (ht : Server.step R z.server x = some t) :
    (z.wrote w t).Safe where
  released := hr
  unread := by
    intro v d hd
    by_cases hv : v = w
    · subst hv
      -- What the worker has just written is in its own pipe or has been handed over.
      simp only [Writing.wrote, Function.update_self] at hd
      obtain ⟨j, hj, hdj⟩ := List.mem_flatMap.mp hd
      by_cases hjv : j = v
      · subst hjv
        exact Or.inr (List.mem_of_mem_drop hdj)
      · refine Or.inl (List.mem_append_right _ (List.mem_flatMap.mpr ⟨j, ?_, hdj⟩))
        exact List.mem_filter.mpr ⟨hj, decide_eq_true hjv⟩
    · simp only [Writing.wrote, Function.update_of_ne hv] at hd
      have hne : z.server.runner x.2 ≠ some v := by
        rw [hw]
        exact fun he => hv (Option.some.inj he).symm
      exact (h.unread v d hd).imp (List.mem_append_left _) (mem_newMsgFd_step ht hne)
  late d hd := List.mem_append_left _ (h.late d hd)

theorem Safe.read (h : z.Safe) {w : ℕ} {again : Bool} (ht : z.step R (.read w again) = some z') :
    z'.Safe := by
  cases hu : z.unread w with
  | nil => simp [step, hu] at ht
  | cons d ds =>
    have hd : d ∈ z.handed ∨ d ∈ (z.server.workThread w).newMsgFd :=
      h.unread w d (hu ▸ List.mem_cons_self)
    simp only [step, hu, Option.some.injEq] at ht
    subst ht
    refine ⟨h.released, ?_, ?_⟩
    · intro v e he
      by_cases hv : v = w
      · subst hv
        apply h.unread v e
        simp only [Function.update_self] at he
        rw [hu]
        cases again with
        | true => exact he
        | false => exact List.mem_cons_of_mem d he
      · simp only [Function.update_of_ne hv] at he
        exact h.unread v e he
    · intro e he
      cases hdel : z.server.deleted d.seq with
      | false =>
        simp only [hdel] at he
        exact h.late e he
      | true =>
        simp only [hdel, if_true, List.mem_append, List.mem_singleton] at he
        rcases he with he | rfl
        · exact h.late e he
        · refine hd.resolve_right fun hq => ?_
          rw [h.released.not_deleted hq] at hdel
          cases hdel

theorem Safe.step (h : z.Safe)
    (hok : ∀ x ∈ e.event, z.server.FreshLogin R x ∧ z.server.HandsOver x)
    (ht : z.step R e = some z') : z'.Safe := by
  cases e with
  | read w again => exact h.read ht
  | callback x =>
    obtain ⟨hf, hh⟩ := hok x rfl
    cases hw : z.server.runner x.2 with
    | some w =>
      simp only [Writing.step, hw] at ht
      split_ifs at ht
      obtain ⟨t, hs, rfl⟩ := Option.map_eq_some_iff.mp ht
      exact h.wrote (h.released.step hf hh hs) hw hs
    | none =>
      simp only [Writing.step, hw] at ht
      obtain ⟨t, hs, rfl⟩ := Option.map_eq_some_iff.mp ht
      refine ⟨h.released.step hf hh hs, fun v d hd => ?_, h.late⟩
      exact (h.unread v d hd).imp id (mem_newMsgFd_step hs (by rw [hw]; nofun))

end Step

section Runs

variable {σ : Type} {R : Runtime σ} {z : Writing}

/-- In runs in which no login replaces the session of its own connection, no connect fails at once
and every offline notice is taken by its pipe, every record is deleted once and then is nowhere, or
has not been deleted and exactly one holder has it; no parser keeps a record, no bufferevent is
freed twice, and a record that is read after its deletion was written to the pipe of another
worker. -/
theorem records_released_once
    (h : Reached R (fun s x => s.FreshLogin R x ∧ s.HandsOver x) z) :
    (∀ n < z.server.nextSeq, (z.server.books []).Kept n) ∧
      (∀ w, Idle (z.server.workThread w).analyseReq) ∧
      (∀ b live, Obs.freed b live ∈ z.server.log → live = true) ∧
        ∀ d ∈ z.late, d ∈ z.handed := by
  have hsafe : z.Safe := Transition.Reach.invariant (fun _ => safe_started)
    (fun _ _ _ hz hok ht => hz.step hok ht) h
  exact ⟨hsafe.released.sound.kept, hsafe.released.unmixed.idle, hsafe.released.freed, hsafe.late⟩

/-- What a run of callbacks and reads from a deployment ends in is reached. -/
theorem exists_reached (R : Runtime σ) (n : ℕ) (events : List WriteEvent)
    (ok ok' : Server → Env × Event → Prop) (P : Writing → Prop) [DecidablePred P]
    (hok : Transition.RunOk (step R) (fun z e => ∀ x ∈ e.event, ok z.server x)
      { server := deployment n } events)
    (hok' : ∀ x ∈ events.filterMap WriteEvent.event, ∀ s, ok' s x)
    (hr : (Transition.run (step R) { server := deployment n } events).any (fun z => decide (P z)) =
      true) : ∃ z, Reached R (fun s x => ok s x ∧ ok' s x) z ∧ P z := by
  have hevery : Transition.RunOk (step R) (fun z e => ∀ x ∈ e.event, ok' z.server x)
      { server := deployment n } events :=
    .of_forall (fun e he z x hx => hok' x (List.mem_filterMap.mpr ⟨e, he, hx⟩) z.server) _
  exact Transition.Reach.exists_of_run ⟨_, deployment_started n, rfl⟩
    ((hok.and hevery).imp fun _ _ h x hx => ⟨h.1 x hx, h.2 x hx⟩) hr

theorem handsOver_of_plainEnv {xs : List (Env × Event)} (h : ∀ x ∈ xs, ∃ a, x.1 = plainEnv a) :
    ∀ x ∈ xs, ∀ s : Server, s.HandsOver x := by
  intro x hx s
  obtain ⟨a, ha⟩ := h x hx
  rw [HandsOver, ha]
  exact ⟨nofun, fun _ _ => rfl⟩

/-- Worker 0 empties its pipe, and the login of a third connection is checked over HTTP and
refused. -/
def emptiedThenRefused : List (Env × Event) :=
  (plainEnv 1, .newMsg 0) :: connect 0 3 ++ [(plainEnv 3, .clientRead 3 (loginFrame 8)),
    (plainEnv 4, .redisReply 0 0 (some { type := .nil })),
    (plainEnv 4, .httpEvent 4 { connected := true }), (plainEnv 4, .httpEvent 4 { eof := true })]

/-- Worker 0 relays a message from 7 to 9 and reads its record twice before it goes on. -/
def relayedAlone : List WriteEvent :=
  relayed.map .callback ++ [.read 0 true, .read 0 false] ++ emptiedThenRefused.map .callback

theorem relayedAlone_released_once :
    ∃ z, Reached Wire.runtime (fun s x => s.FreshLogin Wire.runtime x ∧ s.HandsOver x) z ∧
      z.server.nextSeq = 4 ∧ z.handed = [] ∧ (z.server.books []).count .released 2 = 1 ∧
        Obs.freed 4 true ∈ z.server.log ∧ (∀ n < 4, (z.server.books []).Kept n) ∧ z.late = [] := by
  have hevents : relayedAlone.filterMap WriteEvent.event = relayed ++ emptiedThenRefused := rfl
  have hover : ∀ x ∈ relayed ++ emptiedThenRefused, ∀ s : Server, s.HandsOver x := by
    apply handsOver_of_plainEnv
    simp [relayed, emptiedThenRefused, connect, login]
  obtain ⟨z, hz, hn, hh, hd, hf⟩ := exists_reached Wire.runtime 1 relayedAlone
    (FreshLogin Wire.runtime) HandsOver (fun z => z.server.nextSeq = 4 ∧ z.handed = [] ∧
      (z.server.books []).count .released 2 = 1 ∧ Obs.freed 4 true ∈ z.server.log)
    (by decide +kernel) (hevents ▸ hover) (by decide +kernel)
  obtain ⟨hkept, -, -, hlate⟩ := records_released_once hz
  rw [hh] at hlate
  exact ⟨z, hz, hn, hh, hd, hf, hn ▸ hkept, List.eq_nil_iff_forall_not_mem.mpr fun d hd =>
    List.not_mem_nil (hlate d hd)⟩

/-- The connect of the HTTP check of a login fails at once. -/
def failedConnect : List (Env × Event) :=
  connect 0 1 ++ [(plainEnv 1, .clientRead 1 (loginFrame 7)),
    ({ plainEnv 2 with connect := .failed }, .redisReply 0 0 (some { type := .nil }))]

/-- A message from 7 on worker 0 to 9 on worker 1, which takes it out of its pipe before worker 0
writes its debug line. -/
def relayedAcross : List WriteEvent :=
  (connect 0 1 ++ connect 1 2 ++ login 0 1 7 ++ login 1 2 9 ++
    [(plainEnv 1, .clientRead 1 (relayFrame 7 9)), confirmed,
      (plainEnv 1, .newMsg 1)]).map .callback ++ [.read 0 false]

/-- In the first run the event callback and the callers that report the failure both release the
request and its bufferevent. In the second one, in which no connect fails and every pipe takes what
is written to it, worker 0 reads a record that worker 1 has deleted. -/
theorem records_released_twice_or_read_late :
    (∃ s, Server.Reached Wire.runtime (fun _ _ => True) s ∧
      (s.books []).count .released 0 = 2 ∧ ¬ (s.books []).Kept 0 ∧
        Obs.freed 2 true ∈ s.log ∧ Obs.freed 2 false ∈ s.log) ∧
    ∃ z, Reached Wire.runtime (fun s x => s.FreshLogin Wire.runtime x ∧ s.HandsOver x) z ∧
      Obs.deletedTrans (relayRecord 2 7 9) ∈ z.server.log ∧ z.late = [relayRecord 2 7 9] := by
  constructor
  · obtain ⟨s, hs, htwice, hfreed⟩ := Server.exists_reached Wire.runtime 1 failedConnect
      (fun _ _ => True) (fun s => (s.books []).count .released 0 = 2 ∧ Obs.freed 2 true ∈ s.log ∧
        Obs.freed 2 false ∈ s.log) (.of_forall (by simp) _) (by decide +kernel)
    refine ⟨s, hs, htwice, ?_, hfreed⟩
    rintro ⟨p, hp⟩
    have hle : (s.books []).count .released 0 ≤ 1 := by
      rw [hp]
      split_ifs <;> decide
    omega
  · refine exists_reached Wire.runtime 2 relayedAcross (FreshLogin Wire.runtime) HandsOver _
      ?_ ?_ ?_
    · decide +kernel
    · apply handsOver_of_plainEnv
      simp [relayedAcross, connect, login, confirmed, WriteEvent.event]
    · decide +kernel

end Runs

end Writing

end Server

end EglComet
