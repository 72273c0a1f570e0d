import EglComet.WorkThread.Dispatch
import Mathlib.Data.List.Perm.Basic

/-!
What a sweep leaves. `del_expire_client` erases from the table it walks and from
the one it consults at every turn. While the two point at each other, a turn
touches no session but that of its own entry, so the turns drop exactly the
sessions that were late at the start, one after the other and in any order.
-/
namespace EglComet

open Protobuf MachineInt

namespace WorkThread

/-- The connection that the session of an id is on. -/
def connOf (t : WorkThread) (id : UInt64) : Addr :=
  ((t.subMap.lookup id).map Subscriber.bev).getD 0

/-- The two tables point at each other, and the marker 0 has no session. -/
structure Paired (t : WorkThread) : Prop where
  iff : ∀ id, id ≠ 0 → ∀ b,
    (t.subMap.lookup id).map Subscriber.bev = some b ↔ t.bevId.lookup b = some id
  zero : 0 ∉ t.subMap

/-- The last heartbeat of an id is more than twice the ping time before `now`; the product is one
of `int`s. -/
def Late (now : ℤ) (t : WorkThread) (id : UInt64) : Prop :=
  ∃ sub, t.subMap.lookup id = some sub ∧ now - sub.lastHeartbeatTime > wrap32 (2 * t.pingTime)

variable {t : WorkThread} {id : UInt64} {b : Addr}

theorem Late.mem {now : ℤ} (h : t.Late now id) : id ∈ t.subMap := by
  obtain ⟨sub, hsub, -⟩ := h
  exact Table.mem_of_lookup hsub

theorem Paired.ne_zero (h : t.Paired) (hid : id ∈ t.subMap) : id ≠ 0 := by
  rintro rfl
  exact h.zero hid

/-- A session is on a connection that carries its id. -/
theorem Paired.lookup_connOf (h : t.Paired) (hid : id ∈ t.subMap) :
    t.bevId.lookup (t.connOf id) = some id := by
  obtain ⟨sub, hsub⟩ := Finmap.mem_iff.mp hid
  apply (h.iff id (h.ne_zero hid) _).mp
  simp [connOf, hsub]

/-- A connection that carries the id of a session is the one the session is on. -/
theorem Paired.connOf_eq (h : t.Paired) (hid : id ∈ t.subMap) (hb : t.bevId.lookup b = some id) :
    t.connOf id = b := by
  rw [connOf, (h.iff id (h.ne_zero hid) b).mpr hb, Option.getD_some]

end WorkThread

namespace Server

/-- The sessions of the listed ids are dropped from worker `w`, in this order: each is erased from
both tables, its connection is freed and counted out, and redis is asked for the friends of the id,
to whom the answer is to bring the offline notice. Nothing else of any worker changes. -/
structure Dropped (w : ℕ) (ids : List UInt64) (s t : Server) : Prop where
  nodup : ids.Nodup
  known : ∀ id ∈ ids, id ∈ (s.workThread w).subMap
  subMap : ∀ id, (t.workThread w).subMap.lookup id =
    if id ∈ ids then none else (s.workThread w).subMap.lookup id
  bevId : ∀ b, (t.workThread w).bevId.lookup b =
    if b ∈ ids.map (s.workThread w).connOf then none else (s.workThread w).bevId.lookup b
  heap : ∀ b, t.heap.lookup b =
    if b ∈ ids.map (s.workThread w).connOf then none else s.heap.lookup b
  connNum : (t.workThread w).connNum = (s.workThread w).connNum - ids.length
  redis : (t.workThread w).redis =
    (s.workThread w).redis ++ ids.map fun id =>
      { text := "ZRANGE ssUD:" ++ toString id.toInt64.toInt ++ " 0 -1"
        callback := .offline { id := id, workThread := w } }
  freed : t.freedAddrs = s.freedAddrs ++ ids.map (s.workThread w).connOf
  rest : t.workThread w = { s.workThread w with
    connNum := (t.workThread w).connNum
    subMap := (t.workThread w).subMap
    bevId := (t.workThread w).bevId
    redis := (t.workThread w).redis }
  others : ∀ j, j ≠ w → t.workThread j = s.workThread j

section Dropped

/-- Erasing the keys of two lists one after the other erases those of both. -/
theorem ite_mem_append {K V : Type} [DecidableEq K] (k : K) (ks ks' : List K) (v : Option V) :
    (if k ∈ ks' then none else if k ∈ ks then none else v) =
      if k ∈ ks ++ ks' then none else v := by
  by_cases hk : k ∈ ks'
  · rw [if_pos hk, if_pos (List.mem_append_right ks hk)]
  · rw [if_neg hk]
    simp only [List.mem_append, hk, or_false]

variable {w : ℕ} {now : ℤ} {ids ids' : List UInt64} {s t u : Server}

theorem Dropped.refl (w : ℕ) (s : Server) : Dropped w [] s s := by
  constructor <;> simp

theorem Dropped.pingTime (h : Dropped w ids s t) :
    (t.workThread w).pingTime = (s.workThread w).pingTime := by
  rw [h.rest]

theorem Dropped.mem_subMap (h : Dropped w ids s t) {id : UInt64} :
    id ∈ (t.workThread w).subMap ↔ id ∉ ids ∧ id ∈ (s.workThread w).subMap := by
  rw [← Finmap.lookup_isSome, h.subMap, ← Finmap.lookup_isSome]
  split_ifs with hid
  · simp [hid]
  · simp [hid]

theorem Dropped.connOf (h : Dropped w ids s t) {id : UInt64} (hid : id ∉ ids) :
    (t.workThread w).connOf id = (s.workThread w).connOf id := by
  rw [WorkThread.connOf, WorkThread.connOf, h.subMap, if_neg hid]

theorem Dropped.late (h : Dropped w ids s t) {id : UInt64} :
    (t.workThread w).Late now id ↔ id ∉ ids ∧ (s.workThread w).Late now id := by
  rw [WorkThread.Late, WorkThread.Late, h.subMap, h.pingTime]
  split_ifs with hid
  · simp [hid]
  · simp [hid]

theorem Dropped.trans (h : Dropped w ids s t) (h' : Dropped w ids' t u) :
    Dropped w (ids ++ ids') s u := by
  have hfresh : ∀ id ∈ ids', id ∉ ids ∧ id ∈ (s.workThread w).subMap := by
    intro id hid
    exact h.mem_subMap.mp (h'.known id hid)
  have hconns : ids'.map (t.workThread w).connOf = ids'.map (s.workThread w).connOf := by
    apply List.map_congr_left
    intro id hid
    exact h.connOf (hfresh id hid).1
  constructor
  · rw [List.nodup_append']
    refine ⟨h.nodup, h'.nodup, ?_⟩
    intro id hid hid'
    exact (hfresh id hid').1 hid
  · intro id hid
    rcases List.mem_append.mp hid with hid | hid
    · exact h.known id hid
    · exact (hfresh id hid).2
  · intro id
    rw [h'.subMap, h.subMap, ite_mem_append]
  · intro b
    rw [h'.bevId, h.bevId, hconns, List.map_append, ite_mem_append]
  · intro b
    rw [h'.heap, h.heap, hconns, List.map_append, ite_mem_append]
  · rw [h'.connNum, h.connNum, List.length_append]
    push_cast
    ring
  · rw [h'.redis, h.redis, List.map_append, List.append_assoc]
  · rw [h'.freed, h.freed, hconns, List.map_append, List.append_assoc]
  · rw [h'.rest, h.rest]
  · intro j hj
    rw [h'.others j hj, h.others j hj]

/-- The tables still point at each other. -/
theorem Dropped.paired (h : Dropped w ids s t) (hp : (s.workThread w).Paired) :
    (t.workThread w).Paired := by
  constructor
  · intro id h0 b
    rw [h.subMap, h.bevId]
    by_cases hid : id ∈ ids
    · have hdropped : b ∉ ids.map (s.workThread w).connOf →
          (s.workThread w).bevId.lookup b ≠ some id := by
        intro hb hcarries
        apply hb
        rw [← hp.connOf_eq (h.known id hid) hcarries]
        exact List.mem_map_of_mem hid
      simp only [if_pos hid, Option.map_none, reduceCtorEq, false_iff]
      split_ifs with hb
      · simp
      · exact hdropped hb
    · have hkept : (s.workThread w).bevId.lookup b = some id →
          b ∉ ids.map (s.workThread w).connOf := by
        intro hcarries hb
        obtain ⟨x, hx, rfl⟩ := List.mem_map.mp hb
        rw [hp.lookup_connOf (h.known x hx), Option.some.injEq] at hcarries
        exact hid (hcarries ▸ hx)
      rw [if_neg hid, hp.iff id h0 b]
      constructor
      · intro hcarries
        rw [if_neg (hkept hcarries)]
        exact hcarries
      · intro hcarries
        split_ifs at hcarries
        exact hcarries
  · intro hz
    exact hp.zero (h.mem_subMap.mp hz).2

theorem signed_eq_toInt (id : UInt64) : signed id = id.toInt64.toInt := by
  have hcond : id.toInt64.toInt = if 2 * id.toNat < 2 ^ 64 then (id.toNat : ℤ)
      else id.toNat - 2 ^ 64 := BitVec.toInt_eq_toNat_cond id.toBitVec
  rw [hcond, signed]
  split_ifs <;> omega

/-- One turn at a late session drops it. -/
theorem dropped_of_late {b : Addr} {id : UInt64} {sub : Subscriber}
    (hp : (s.workThread w).Paired) (hb : (s.workThread w).bevId.lookup b = some id)
    (hsub : (s.workThread w).subMap.lookup id = some sub)
    (hlate : now - sub.lastHeartbeatTime > (s.workThread w).timeout) :
    Dropped w [id] s (expireEntry w now s b) := by
  have hid : id ∈ (s.workThread w).subMap := Table.mem_of_lookup hsub
  have h0 : id ≠ 0 := hp.ne_zero hid
  have hconn : (s.workThread w).connOf id = b := hp.connOf_eq hid hb
  have hturn : expireEntry w now s b = (((s.emit (.expired w b (s.occupant b) id)).bufferEventFree
      b).modify w fun t => { t with
        bevId := t.bevId.erase b, connNum := t.connNum - 1, subMap := t.subMap.erase id
        redis := t.redis ++ [friendsCommand id (.offline ⟨id, w⟩)] }) := by
    simp only [expireEntry, hb, hsub, if_pos hlate, requestOffline, if_pos h0, redisAsyncCommand,
      modify, Function.update_self, Function.update_idem]
  have hown : (expireEntry w now s b).workThread w = { s.workThread w with
      bevId := (s.workThread w).bevId.erase b
      connNum := (s.workThread w).connNum - 1
      subMap := (s.workThread w).subMap.erase id
      redis := (s.workThread w).redis ++ [friendsCommand id (.offline ⟨id, w⟩)] } := by
    rw [hturn]
    exact Function.update_self _ _ _
  constructor
  · simp
  · simpa using hid
  · intro x
    simp [hown, Table.lookup_erase_eq]
  · intro c
    simp [hown, Table.lookup_erase_eq, hconn]
  · intro c
    rw [hturn]
    simp [modify, bufferEventFree, setHeap, emit, Table.lookup_erase_eq, hconn]
  · simp [hown]
  · simp [hown, friendsCommand, signed_eq_toInt]
  · have hemit : (s.emit (.expired w b (s.occupant b) id)).freedAddrs = s.freedAddrs := by
      rw [freedAddrs_emit]
      exact List.append_nil _
    rw [hturn, List.map_cons, List.map_nil, hconn, ← hemit]
    exact freedAddrs_bufferEventFree (s.emit (.expired w b (s.occupant b) id)) b
  · rw [hown]
  · intro j hj
    rw [hturn]
    exact Function.update_of_ne hj _ _

/-- One turn drops the session on its connection if that is late, and nothing otherwise. -/
theorem dropped_expireEntry (hp : (s.workThread w).Paired) (now : ℤ) (b : Addr) :
    ∃ ids, Dropped w ids s (expireEntry w now s b) ∧
      ∀ id, id ∈ ids ↔ (s.workThread w).Late now id ∧ (s.workThread w).connOf id = b := by
  by_cases hdue : ∃ id, (s.workThread w).Late now id ∧ (s.workThread w).connOf id = b
  · obtain ⟨id, hlate, rfl⟩ := hdue
    have hb := hp.lookup_connOf hlate.mem
    obtain ⟨sub, hsub, hold⟩ := hlate
    refine ⟨[id], dropped_of_late hp hb hsub hold, ?_⟩
    intro x
    rw [List.mem_singleton]
    constructor
    · rintro rfl
      exact ⟨⟨sub, hsub, hold⟩, rfl⟩
    · rintro ⟨hx, hconn⟩
      have hbx := hp.lookup_connOf hx.mem
      rw [hconn, hb, Option.some.injEq] at hbx
      exact hbx.symm
  · have hstay : expireEntry w now s b = s := by
      cases hb : (s.workThread w).bevId.lookup b with
      | none => simp only [expireEntry, hb]
      | some id =>
        cases hsub : (s.workThread w).subMap.lookup id with
        | none => simp only [expireEntry, hb, hsub]
        | some sub =>
          have hrecent : ¬ now - sub.lastHeartbeatTime > (s.workThread w).timeout := by
            intro hold
            exact hdue ⟨id, ⟨sub, hsub, hold⟩, hp.connOf_eq (Table.mem_of_lookup hsub) hb⟩
          simp only [expireEntry, hb, hsub, if_neg hrecent]
    refine ⟨[], ?_, ?_⟩
    · rw [hstay]
      exact Dropped.refl w s
    · intro id
      simpa using fun hlate hconn => hdue ⟨id, hlate, hconn⟩

/-- The turns at some entries drop the sessions on them that were late at the start. -/
theorem dropped_foldl (hp : (s.workThread w).Paired) (now : ℤ) (bs : List Addr) :
    ∃ ids, Dropped w ids s (bs.foldl (expireEntry w now) s) ∧
      ∀ id, id ∈ ids ↔ (s.workThread w).Late now id ∧ (s.workThread w).connOf id ∈ bs := by
  induction bs generalizing s with
  | nil => exact ⟨[], Dropped.refl w s, by simp⟩
  | cons b bs ih =>
    obtain ⟨first, hfirst, hmem⟩ := dropped_expireEntry hp now b
    obtain ⟨later, hlater, hmem'⟩ := ih (hfirst.paired hp)
    refine ⟨first ++ later, hfirst.trans hlater, ?_⟩
    intro id
    rw [List.mem_append, hmem', hfirst.late, List.mem_cons]
    by_cases hid : id ∈ first
    · have hnow := (hmem id).mp hid
      simp [hid, hnow]
    · have hnot := mt (hmem id).mpr hid
      rw [hfirst.connOf hid]
      simp only [hid, not_false_eq_true, true_and, false_or, and_congr_right_iff]
      intro hlate
      have hne : (s.workThread w).connOf id ≠ b := fun hconn => hnot ⟨hlate, hconn⟩
      simp [hne]

theorem dropped_delExpireClient (hp : (s.workThread w).Paired) {env : Env}
    (hnow : env.now = some now) :
    ∃ ids, Dropped w ids s (s.delExpireClient env w) ∧
      ∀ id, id ∈ ids ↔ (s.workThread w).Late now id := by
  obtain ⟨ids, hdropped, hmem⟩ := dropped_foldl hp now (env.order.toList (s.workThread w).bevId)
  refine ⟨ids, ?_, ?_⟩
  · simpa only [delExpireClient, hnow] using hdropped
  · intro id
    rw [hmem, and_iff_left_iff_imp]
    intro hlate
    exact (env.order.mem_toList _ _).mpr (Table.mem_of_lookup (hp.lookup_connOf hlate.mem))

end Dropped

/-- Two outcomes of a sweep of worker `w` that differ at most in the order of what was done: the
tables and the counts are the same, and the same lookups were issued and connections freed. -/
structure SameSweep (w : ℕ) (t u : Server) : Prop where
  subMap : (t.workThread w).subMap = (u.workThread w).subMap
  bevId : (t.workThread w).bevId = (u.workThread w).bevId
  heap : t.heap = u.heap
  connNum : (t.workThread w).connNum = (u.workThread w).connNum
  redis : (t.workThread w).redis.Perm (u.workThread w).redis
  freed : t.freedAddrs.Perm u.freedAddrs
  others : ∀ j, j ≠ w → t.workThread j = u.workThread j

theorem Dropped.same {w : ℕ} {ids ids' : List UInt64} {s t u : Server} (h : Dropped w ids s t)
    (h' : Dropped w ids' s u) (hids : ids.Perm ids') : SameSweep w t u := by
  have hmem : ∀ id, id ∈ ids ↔ id ∈ ids' := fun id => hids.mem_iff
  have hconns : ∀ b, b ∈ ids.map (s.workThread w).connOf ↔ b ∈ ids'.map (s.workThread w).connOf :=
    fun b => (hids.map _).mem_iff
  constructor
  · apply Finmap.ext_lookup
    intro id
    simp only [h.subMap, h'.subMap, hmem]
  · apply Finmap.ext_lookup
    intro b
    simp only [h.bevId, h'.bevId, hconns]
  · apply Finmap.ext_lookup
    intro b
    simp only [h.heap, h'.heap, hconns]
  · rw [h.connNum, h'.connNum, hids.length_eq]
  · rw [h.redis, h'.redis]
    exact (hids.map _).append_left _
  · rw [h.freed, h'.freed]
    exact (hids.map _).append_left _
  · intro j hj
    rw [h.others j hj, h'.others j hj]

/-- A sweep is exact. On tables that point at each other, at any time and in any order of iteration,
it drops the late ids and no others, each once, and leaves tables that point at each other; the
order of iteration is no part of the outcome. -/
theorem sweep_exact (s : Server) (w : ℕ) (now : ℤ) (hp : (s.workThread w).Paired) :
    (∀ env : Env, env.now = some now →
      (∃ ids, (∀ id, id ∈ ids ↔ (s.workThread w).Late now id) ∧
        Dropped w ids s (s.delExpireClient env w)) ∧
      ((s.delExpireClient env w).workThread w).Paired) ∧
    ∀ env env' : Env, env.now = some now → env'.now = some now →
      SameSweep w (s.delExpireClient env w) (s.delExpireClient env' w) := by
  constructor
  · intro env hnow
    obtain ⟨ids, hdropped, hmem⟩ := dropped_delExpireClient hp hnow
    exact ⟨⟨ids, hmem, hdropped⟩, hdropped.paired hp⟩
  · intro env env' hnow hnow'
    obtain ⟨ids, hdropped, hmem⟩ := dropped_delExpireClient hp hnow
    obtain ⟨ids', hdropped', hmem'⟩ := dropped_delExpireClient hp hnow'
    apply hdropped.same hdropped'
    rw [List.perm_ext_iff_of_nodup hdropped.nodup hdropped'.nodup]
    intro id
    rw [hmem, hmem']

end Server

/-- Connection 1 logs in as 7 at time 100 and connection 2 as 9 at time 950; connection 3 does not
log in. -/
def staggered : List (Env × Event) :=
  connect 0 1 ++ connect 0 2 ++ connect 0 3 ++ login 0 1 7 ++
    [({ plainEnv 2 with now := some 950 }, .clientRead 2 (loginFrame 9)),
      ({ plainEnv 2 with now := some 950 }, .redisReply 0 0 tokenReply)]

theorem staggered_swept :
    ∃ s : Server, s.Reached Wire.runtime (fun _ _ => True) ∧ (s.workThread 0).Paired ∧
      ∃ ids, (∀ id, id ∈ ids ↔ (s.workThread 0).Late 1000 id) ∧ 7 ∈ ids ∧ 9 ∉ ids ∧
        Server.Dropped 0 ids s (s.delExpireClient { plainEnv 1 with now := some 1000 } 0) := by
  obtain ⟨s, hs, hsubs, hconns, hping⟩ := Server.exists_reached Wire.runtime 1 staggered
    (fun _ _ => True) (fun s =>
      (s.workThread 0).subMap = ((∅ : Table UInt64 Subscriber).insert 7 ⟨100, 7, 1⟩).insert 9
        ⟨950, 9, 2⟩ ∧
      (s.workThread 0).bevId = (((∅ : Table Addr UInt64).insert 1 7).insert 2 9).insert 3 0 ∧
      (s.workThread 0).pingTime = 60) (.of_forall (by simp) _) (by decide +kernel)
  have hpaired : (s.workThread 0).Paired := by
    constructor
    · intro id h0 b
      rw [hsubs, hconns]
      simp only [Table.lookup_insert_eq, Finmap.lookup_empty]
      grind
    · rw [hsubs]
      decide
  obtain ⟨⟨ids, hmem, hdropped⟩, -⟩ := (Server.sweep_exact s 0 1000 hpaired).1
    { plainEnv 1 with now := some 1000 } rfl
  refine ⟨s, hs, hpaired, ids, hmem, ?_, ?_, hdropped⟩
  · rw [hmem, WorkThread.Late, hsubs, hping]
    exact ⟨⟨100, 7, 1⟩, by decide, by decide⟩
  · rw [hmem, WorkThread.Late, hsubs, hping]
    rintro ⟨sub, hsub, hold⟩
    obtain rfl : ⟨950, 9, 2⟩ = sub := Option.some.inj hsub
    exact absurd hold (by decide)

end EglComet
