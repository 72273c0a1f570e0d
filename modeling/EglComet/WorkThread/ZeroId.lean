import EglComet.WorkThread.Custody
import EglComet.WorkThread.Sweep

/-!
Id 0 marks a connection that is not logged in. A login payload that does not
parse, or that lacks the id, still becomes a request, and its id is then 0. As
long as no request with id 0 is read, the marker is no key of a session table,
and neither a close nor a sweep of a connection without an id takes a session.
-/
namespace EglComet

open Protobuf

/-- The id that a login request was read with. -/
def Obs.loginId : Obs → Option UInt64
  | .loginRead _ _ d => some d.id
  | _ => none

section Payload

variable {σ : Type} (R : Runtime σ)

/-- A payload that is a complete `C2SLogin`, which has both required fields, with an id other
than 0. -/
def SoundLogin (data : Bytes) : Prop :=
  (c2sLogin.parseFromArray R data).2 = true ∧ (loginOf R data).id ≠ 0

/-- A login record is built, and redis is asked about it, for a sound payload only. -/
structure ChecksLogin (a : AnalyseReq) (s : Server) (w : ℕ) (b : Addr) (conn : ℕ) (data : Bytes) :
    Prop where
  built : (analyseLoginPack R a data).2.loginData.isSome = true → SoundLogin R data
  asked : ((Server.startLogin w b conn s (analyseLoginPack R a data).2.loginData).workThread
    w).redis ≠ (s.workThread w).redis → SoundLogin R data

theorem checksLogin_iff (a : AnalyseReq) (s : Server) (w : ℕ) (b : Addr) (conn : ℕ)
    (data : Bytes) : ChecksLogin R a s w b conn data ↔ SoundLogin R data := by
  constructor
  · intro h
    exact h.built rfl
  · intro h
    exact ⟨fun _ => h, fun _ => h⟩

end Payload

namespace Server

section Marker

variable {σ : Type} {R : Runtime σ} {s t : Server} {w : ℕ} {b : Addr}

/-- A session of the marker comes from a login request that was read with id 0. -/
def MarkerRead (s : Server) : Prop :=
  ∀ w, 0 ∈ (s.workThread w).subMap → ∃ o ∈ s.log, o.loginId = some 0

theorem markerRead_started (h : s.Started) : s.MarkerRead := by
  obtain ⟨num, cap, ping, url, heart, rfl⟩ := h
  intro w hw
  exact absurd hw Finmap.notMem_empty

theorem MarkerRead.step {x : Env × Event} (h : s.MarkerRead) (hk : s.Kept R)
    (ht : step R s x = some t) : t.MarkerRead := by
  have hgrows := (permits_isolated (R := R) (x := x) hk.unmixed).step ht
  have hold : ∀ o ∈ s.log, o.loginId = some 0 → ∃ o ∈ t.log, o.loginId = some 0 :=
    fun o ho hid => ⟨o, hgrows.mem_log ho, hid⟩
  intro w hw
  obtain ⟨sub, hsub⟩ := Finmap.mem_iff.mp hw
  rcases hgrows.subs w 0 sub hsub with hsub | ⟨d, hd, -, hid⟩ | ⟨b, ⟨-, hne⟩, -⟩
  · obtain ⟨o, ho, hid⟩ := h w (Table.mem_of_lookup hsub)
    exact hold o ho hid
  · have hread := hk.recorded.login d (checkedLogin_pending (approval_checked R hd).1).2
    exact hold _ hread (congrArg some hid)
  · exact absurd rfl hne

theorem markerRead_reached {ok : Server → Env × Event → Prop} (h : Reached R ok s) :
    s.MarkerRead := by
  have hboth : s.Kept R ∧ s.MarkerRead :=
    Transition.Reach.invariant (P := fun s => s.Kept R ∧ s.MarkerRead)
      (fun s hs => ⟨kept_started hs, markerRead_started hs⟩)
      (fun s x t hi _ ht => ⟨hi.1.step ht, hi.2.step hi.1 ht⟩) h
  exact hboth.2

/-- Closing a connection without an id leaves every session table alone if the marker is no key. -/
theorem subMap_close (h0 : 0 ∉ (s.workThread w).subMap)
    (hb : ((s.workThread w).bevId.lookup b).getD 0 = 0) (flags : Flags) (j : ℕ) :
    ((s.bufferEventEventCallback w b flags).workThread j).subMap = (s.workThread j).subMap := by
  have herase : (s.workThread w).subMap.erase 0 = (s.workThread w).subMap :=
    Table.erase_of_notMem h0
  simp only [bufferEventEventCallback, hb, requestOffline, ne_eq, not_true_eq_false, ↓reduceIte,
    emit, bufferEventFree, setHeap]
  by_cases hj : j = w
  · subst hj
    split_ifs <;> simp [modify, herase]
  · split_ifs <;> simp [modify, hj]

theorem zero_notMem_expireEntry (now : ℤ) (h0 : 0 ∉ (s.workThread w).subMap) (b : Addr) :
    0 ∉ ((expireEntry w now s b).workThread w).subMap := by
  rcases expireEntry_cases w now s b with ⟨he, -⟩ | ⟨id, sub, -, -, -, -, hs, -⟩
  · rw [he]
    exact h0
  · rw [hs, Finmap.mem_erase]
    exact fun hin => h0 hin.2

theorem zero_notMem_sweep (now : ℤ) (h0 : 0 ∉ (s.workThread w).subMap) (bs : List Addr) :
    0 ∉ ((bs.foldl (expireEntry w now) s).workThread w).subMap := by
  induction bs generalizing s with
  | nil => exact h0
  | cons b bs ih => exact ih (zero_notMem_expireEntry now h0 b)

theorem zero_notMem_handleItem (env : Env) (h0 : 0 ∉ (s.workThread w).subMap) (data : ℤ) :
    0 ∉ ((handleItem env w s data).workThread w).subMap := by
  unfold handleItem
  split_ifs
  · simpa [newConnection, modify, setHeap, emit] using h0
  · simpa [modify] using h0
  · unfold delExpireClient
    cases env.now with
    | none => exact h0
    | some now => exact zero_notMem_sweep now h0 _
  · exact h0

theorem zero_notMem_items (env : Env) (h0 : 0 ∉ (s.workThread w).subMap) (items : List ℤ) :
    0 ∉ ((items.foldl (handleItem env w) s).workThread w).subMap := by
  induction items generalizing s with
  | nil => exact h0
  | cons data items ih => exact ih (zero_notMem_handleItem env h0 data)

/-- A turn of a sweep at a connection without an id does nothing if the marker is no key. -/
theorem expireEntry_anonymous (now : ℤ) (h0 : 0 ∉ (s.workThread w).subMap)
    (hb : ((s.workThread w).bevId.lookup b).getD 0 = 0) : expireEntry w now s b = s := by
  cases hl : (s.workThread w).bevId.lookup b with
  | none => simp only [expireEntry, hl]
  | some id =>
    obtain rfl : id = 0 := by simpa [hl] using hb
    simp only [expireEntry, hl, Finmap.lookup_eq_none.mpr h0]

/-- Login payloads are checked exactly where they are sound to begin with. In every run in which no
login request with id 0 is read, though, the marker 0 is no key of a session table, closing a
connection without an id takes no session, and neither does any turn of a sweep at such a
connection, whatever items of the pipe and turns of the sweep came before it. -/
theorem malformed_login_effect :
    (∀ (a : AnalyseReq) (u : Server) (w : ℕ) (b : Addr) (conn : ℕ) (data : Bytes),
      ChecksLogin R a u w b conn data ↔ SoundLogin R data) ∧
    ∀ (ok : Server → Env × Event → Prop) (s : Server), Reached R ok s →
      (∀ o ∈ s.log, o.loginId ≠ some 0) →
      (∀ w, 0 ∉ (s.workThread w).subMap) ∧
      (∀ w b flags, ((s.workThread w).bevId.lookup b).getD 0 = 0 →
        ∀ j, ((s.bufferEventEventCallback w b flags).workThread j).subMap =
          (s.workThread j).subMap) ∧
      ∀ env w (items : List ℤ) now (turns : List Addr) u b,
        u = turns.foldl (expireEntry w now) (items.foldl (handleItem env w) s) →
          ((u.workThread w).bevId.lookup b).getD 0 = 0 → expireEntry w now u b = u := by
  refine ⟨checksLogin_iff R, fun ok s h hread => ?_⟩
  have hmarker : ∀ w, 0 ∉ (s.workThread w).subMap := by
    intro w hw
    obtain ⟨o, ho, hid⟩ := markerRead_reached h w hw
    exact hread o ho hid
  refine ⟨hmarker, ?_, ?_⟩
  · intro w b flags hb j
    exact subMap_close (hmarker w) hb flags j
  · rintro env w items now turns _ b rfl hb
    exact expireEntry_anonymous now
      (zero_notMem_sweep now (zero_notMem_items env (hmarker w) items) turns) hb

end Marker

end Server

/-- A login frame whose payload has the token `t` and no id. -/
def namelessFrame : Bytes :=
  [0x11, 0x00, 0x00, 0x00, 0x00, 0x0a, 0x01, 0x00, 0x03, 0x12, 0x01, 0x74]

/-- Two connections arrive; the first sends a login without an id, and redis has the token `t` for
id 0. -/
def namelessLogin : List (Env × Event) :=
  connect 0 1 ++ connect 0 2 ++
    [(plainEnv 1, .clientRead 1 namelessFrame), (plainEnv 1, .redisReply 0 0 tokenReply)]

/-- The marker becomes a key, and the session under it is lost when the other connection, which
never logged in, closes. -/
theorem namelessLogin_takes_session :
    ¬ SoundLogin Wire.runtime [0x12, 0x01, 0x74] ∧
    ∃ s t : Server, s.Reached Wire.runtime (fun _ _ => True) ∧
      0 ∈ (s.workThread 0).subMap ∧ (s.workThread 0).bevId.lookup 2 = some 0 ∧
      s.step Wire.runtime (plainEnv 1, .clientEvent 2 { eof := true }) = some t ∧
      0 ∉ (t.workThread 0).subMap ∧ 1 ∈ t.heap := by
  constructor
  · rintro ⟨hparse, -⟩
    exact absurd hparse (by decide +kernel)
  · obtain ⟨s, hs, h0, hb, hclose⟩ := Server.exists_reached Wire.runtime 1 namelessLogin
      (fun _ _ => True) (fun s => 0 ∈ (s.workThread 0).subMap ∧
        (s.workThread 0).bevId.lookup 2 = some 0 ∧
        (s.step Wire.runtime (plainEnv 1, .clientEvent 2 { eof := true })).any (fun t =>
          decide (0 ∉ (t.workThread 0).subMap ∧ 1 ∈ t.heap)) = true)
      (.of_forall (by simp) _) (by decide +kernel)
    obtain ⟨t, ht, hgone⟩ := (Option.any_eq_true _ _).mp hclose
    exact ⟨s, t, hs, h0, hb, ht, of_decide_eq_true hgone⟩

theorem plainLogin_keeps_marker :
    ∃ s : Server, s.Reached Wire.runtime (fun _ _ => True) ∧ 7 ∈ (s.workThread 0).subMap ∧
      (s.workThread 0).bevId.lookup 2 = some 0 ∧ (∀ o ∈ s.log, o.loginId ≠ some 0) ∧
      0 ∉ (s.workThread 0).subMap ∧
      ((s.bufferEventEventCallback 0 2 { eof := true }).workThread 0).subMap =
        (s.workThread 0).subMap := by
  obtain ⟨s, hs, h7, hb, hread⟩ := Server.exists_reached Wire.runtime 1
    (connect 0 1 ++ connect 0 2 ++ login 0 1 7) (fun _ _ => True) (fun s =>
      7 ∈ (s.workThread 0).subMap ∧ (s.workThread 0).bevId.lookup 2 = some 0 ∧
      ∀ o ∈ s.log, o.loginId ≠ some 0) (.of_forall (by simp) _) (by decide +kernel)
  obtain ⟨hmarker, hclose, -⟩ := Server.malformed_login_effect.2 _ s hs hread
  refine ⟨s, hs, h7, hb, hread, hmarker 0, ?_⟩
  apply hclose
  rw [hb]
  rfl

end EglComet
