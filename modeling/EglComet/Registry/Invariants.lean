import EglComet.Registry.Basic

/-!
Invariants of a registry, each with the condition on the moves that keeps it.
Every move edits the directory of one worker, so the invariants of a single
directory lift to all workers at once; the others relate the directories to the
connections that are alive, to the counters and to the pending deletions.
-/
namespace EglComet

variable {I A : Type} [DecidableEq I] [DecidableEq A] [Zero I]

def Label.worker : Label I A → ℕ
  | .accept w _ _ => w
  | .leave w _ => w
  | .approve w _ _ _ => w
  | .deliver w _ _ => w

/-- The edit that a move makes to the directory of its worker. -/
def Label.edit : Label I A → Directory I A → Directory I A
  | .accept _ b _, d => d.enter 0 b
  | .leave _ b, d => d.leave b
  | .approve _ b x _, d => (d.remove x).bind x b
  | .deliver _ x _, d => d.remove x

/-- The number of connections that a move brings to its worker. -/
def Label.arrivals : Label I A → ℕ
  | .accept _ _ _ => 1
  | _ => 0

namespace Registry

variable {r r' : Registry I A} {l : Label I A}

theorem dir_apply (r : Registry I A) (l : Label I A) :
    (r.apply l).dir = Function.update r.dir l.worker (l.edit (r.dir l.worker)) := by
  cases l with
  | accept | leave | deliver => rfl
  | approve w b x told => simp [apply, onDir, kick, Label.worker, Label.edit]

@[simp] theorem num_apply (r : Registry I A) (l : Label I A) : (r.apply l).num = r.num := by
  cases l with
  | accept | leave | deliver => rfl
  | approve w b x told => simp [apply, onDir, kick]

/-- An invariant of single directories is kept if the edited one keeps it. -/
theorem forall_dir_apply {P : Directory I A → Prop} (h : ∀ w, P (r.dir w))
    (he : P (r.dir l.worker) → P (l.edit (r.dir l.worker))) (w : ℕ) : P ((r.apply l).dir w) := by
  rw [dir_apply]
  by_cases hw : w = l.worker
  · subst hw
    rw [Function.update_self]
    exact he (h _)
  · rw [Function.update_of_ne hw]
    exact h w

omit [Zero I] in
theorem holder_removed (d : Directory I A) (x : I) : (d.remove x).holder x = none := by
  simp [Directory.holder_remove]

/-- No connection of worker `w` carries an id. -/
def Anonymous (r : Registry I A) (w : ℕ) : Prop :=
  ∀ b x, (r.dir w).names.lookup b = some x → x = 0

/-- Connections get ids by approval alone. -/
theorem Anonymous.apply {w : ℕ} (h : r.Anonymous w)
    (hl : ∀ v b x told, l = .approve v b x told → v ≠ w) : (r.apply l).Anonymous w := by
  intro b x hb
  rw [dir_apply] at hb
  by_cases hw : w = l.worker
  · subst hw
    rw [Function.update_self] at hb
    cases l with
    | accept v c n =>
      simp only [Label.edit, Directory.enter, Table.lookup_insertNew] at hb
      split_ifs at hb
      · exact (Option.some.inj hb).symm
      · exact h b x hb
    | leave v c =>
      rw [Label.edit, Directory.lookup_leave] at hb
      split_ifs at hb
      exact h b x hb
    | approve v c y told => exact absurd rfl (hl v c y told rfl)
    | deliver v y rest =>
      rw [Label.edit, Directory.lookup_remove] at hb
      split_ifs at hb
      exact h b x hb
  · rw [Function.update_of_ne hw] at hb
    exact h b x hb

/-- Every id carried by a connection, apart from zero, has that connection as its session. -/
def Backed (r : Registry I A) : Prop := ∀ w, (r.dir w).Backed 0

omit [DecidableEq I] in
theorem backed_start (num : ℕ) : (start num : Registry I A).Backed := by
  intro w b x hx
  simp [start] at hx

theorem Backed.apply (h : r.Backed) (l : Label I A) : (r.apply l).Backed := by
  apply forall_dir_apply h
  intro hd
  cases l with
  | accept w b conn => exact hd.enter b
  | leave w b => exact hd.leave b
  | approve w b x told => exact (hd.remove x).bind b (holder_removed _ _)
  | deliver w x rest => exact hd.remove x

/-- An approval does not go to a connection that is logged in under another id. -/
def OneId (r : Registry I A) : Label I A → Prop
  | .approve w b x _ => ∀ y, y ≠ x → (r.dir w).holder y ≠ some b
  | _ => True

/-- The connection of every session carries its id, and no deletion missed its connection. -/
structure Coherent (r : Registry I A) : Prop where
  dir : ∀ w, (r.dir w).Coherent
  log : ∀ w x, Note.eraseEnd w x ∉ r.log

omit [DecidableEq I] [Zero I] in
theorem coherent_start (num : ℕ) : (start num : Registry I A).Coherent where
  dir w x b hb := by simp [start] at hb
  log w x := List.not_mem_nil

theorem Coherent.edit (h : r.Coherent) (ho : r.OneId l) :
    (l.edit (r.dir l.worker)).Coherent := by
  have hd := h.dir l.worker
  cases l with
  | accept w b conn => exact hd.enter 0 b
  | leave w b => exact hd.leave b
  | approve w b x told =>
    apply (hd.remove x).bind (holder_removed _ _)
    intro y hy hb
    rw [Directory.holder_remove, if_neg hy] at hb
    exact ho y hy hb
  | deliver w x rest => exact hd.remove x

omit [DecidableEq I] [Zero I] in
theorem Coherent.not_stale (h : r.Coherent) (w : ℕ) (x : I) :
    ¬ ((r.dir w).holder x ≠ none ∧ ∀ a ∈ (r.dir w).holder x, a ∉ (r.dir w).names) := by
  rintro ⟨hx, hs⟩
  obtain ⟨a, ha⟩ := Option.ne_none_iff_exists'.mp hx
  exact hs a ha (Table.mem_of_lookup (h.dir w x a ha))

theorem Coherent.apply (h : r.Coherent) (ho : r.OneId l) : (r.apply l).Coherent where
  dir := forall_dir_apply h.dir fun _ => h.edit ho
  log w y hm := by
    cases l with
    | accept | leave | approve =>
      simp only [Registry.apply, log_tell, kick, List.mem_append, List.mem_singleton, reduceCtorEq,
        or_false] at hm
      exact h.log w y hm
    | deliver v x rest =>
      simp only [Registry.apply, if_neg (h.not_stale v x), List.append_nil] at hm
      exact h.log w y hm

/-- A connection that is alive is known to its worker. -/
def LiveKnown (r : Registry I A) : Prop :=
  ∀ w b conn, r.live b = some (w, conn) → b ∈ (r.dir w).names

omit [Zero I] in
theorem LiveKnown.kick (h : r.LiveKnown) (w : ℕ) (x : I) : (r.kick w x).LiveKnown := by
  intro j b conn hl
  rw [live_kick] at hl
  split_ifs at hl with hx
  have hb := h j b conn hl
  apply mem_kick_of_mem hb
  rintro ⟨rfl, hh⟩
  exact hx ⟨hh, hb⟩

theorem LiveKnown.apply (h : r.LiveKnown) (l : Label I A) : (r.apply l).LiveKnown := by
  intro j b conn hl
  cases l with
  | accept w c n =>
    simp only [Registry.apply, Function.update_apply] at hl ⊢
    split_ifs at hl with hb
    · obtain ⟨rfl, -⟩ : w = j ∧ n = conn := by simpa using hl
      rw [if_pos rfl, Directory.mem_enter]
      exact Or.inl hb
    · split_ifs with hj
      · rw [Directory.mem_enter, ← hj]
        exact Or.inr (h j b conn hl)
      · exact h j b conn hl
  | leave w c =>
    simp only [Registry.apply, Function.update_apply] at hl ⊢
    split_ifs at hl with hb
    have hk := h j b conn hl
    split_ifs with hj
    · subst hj
      rw [Directory.mem_names_iff, Directory.lookup_leave, if_neg hb, ← Directory.mem_names_iff]
      exact hk
    · exact hk
  | approve w c x told =>
    have hk := h.kick w x j b conn (by simpa [Registry.apply, onDir] using hl)
    simp only [Registry.apply, onDir, dir_tell, Function.update_apply]
    split_ifs with hj
    · subst hj
      exact Directory.mem_bind.mpr (Or.inr hk)
    · exact hk
  | deliver w x rest => exact h.kick w x j b conn hl

/-- An approval does not go to the connection that already holds the id. -/
def Fresh (r : Registry I A) : Label I A → Prop
  | .approve w b x _ => (r.dir w).holder x ≠ some b
  | _ => True

/-- What a worker knows is alive and its own. -/
def KnownLive (r : Registry I A) : Prop :=
  ∀ w b, b ∈ (r.dir w).names → ∃ conn, r.live b = some (w, conn)

omit [DecidableEq I] [DecidableEq A] [Zero I] in
theorem knownLive_start (num : ℕ) : (start num : Registry I A).KnownLive := by
  intro w b hb
  exact absurd hb Finmap.notMem_empty

omit [DecidableEq I] [DecidableEq A] [Zero I] in
/-- Two workers never know the same connection. -/
theorem KnownLive.worker_eq (h : r.KnownLive) {i j : ℕ} {b : A} (hi : b ∈ (r.dir i).names)
    (hj : b ∈ (r.dir j).names) : i = j := by
  obtain ⟨m, hm⟩ := h i b hi
  obtain ⟨n, hn⟩ := h j b hj
  rw [hm] at hn
  exact congrArg Prod.fst (Option.some.inj hn)

omit [Zero I] in
theorem KnownLive.live_kick_eq (h : r.KnownLive) {w j : ℕ} {x : I} {b : A}
    (hb : b ∈ (r.dir j).names) (hx : ¬ (j = w ∧ (r.dir w).holder x = some b)) :
    (r.kick w x).live b = r.live b := by
  rw [live_kick, if_neg]
  rintro ⟨hh, hw⟩
  exact hx ⟨h.worker_eq hb hw, hh⟩

omit [Zero I] in
/-- Removing a session forgets its connection and frees it. -/
theorem KnownLive.kick (h : r.KnownLive) (w : ℕ) (x : I) : (r.kick w x).KnownLive := by
  intro j b hb
  obtain ⟨hm, hx⟩ := mem_kick hb
  rw [h.live_kick_eq hm hx]
  exact h j b hm

/-- What a worker knows after a move is a connection just accepted, or was known before and is
still the same connection. -/
theorem KnownLive.known_apply (h : r.KnownLive) (he : r.Enabled l) (hf : r.Fresh l) {j : ℕ} {b : A}
    (hb : b ∈ ((r.apply l).dir j).names) :
    (∃ n, l = .accept j b n ∧ (r.apply l).live b = some (j, n)) ∨
      b ∈ (r.dir j).names ∧ (r.apply l).live b = r.live b := by
  cases l with
  | accept w c n =>
    simp only [Registry.apply, Function.update_apply] at hb ⊢
    by_cases hc : b = c
    · subst hc
      split_ifs at hb with hj
      · subst hj
        exact Or.inl ⟨n, rfl, by simp⟩
      · obtain ⟨m, hm⟩ := h j b hb
        simp [Registry.Enabled, hm] at he
    · right
      rw [if_neg hc]
      refine ⟨?_, rfl⟩
      split_ifs at hb with hj
      · rw [hj]
        exact (Directory.mem_enter.mp hb).resolve_left hc
      · exact hb
  | leave w c =>
    right
    simp only [Registry.apply, Function.update_apply] at hb ⊢
    have hk : b ∈ (r.dir j).names ∧ (j = w → b ≠ c) := by
      split_ifs at hb with hj
      · subst hj
        exact ⟨(Directory.mem_leave hb).1, fun _ => (Directory.mem_leave hb).2⟩
      · exact ⟨hb, fun hw => absurd hw hj⟩
    obtain ⟨m, hm⟩ := h j b hk.1
    have hc : b ≠ c := by
      rintro rfl
      rcases he with ⟨n, hn⟩ | hw
      · rw [hm] at hn
        exact hk.2 (congrArg Prod.fst (Option.some.inj hn)) rfl
      · exact hk.2 (h.worker_eq hk.1 hw) rfl
    exact ⟨hk.1, by rw [if_neg hc]⟩
  | approve w c x told =>
    right
    have hc : c ∈ ((r.kick w x).dir w).names := mem_kick_of_mem he.1 fun hx => hf hx.2
    simp only [Registry.apply, onDir, dir_tell, live_tell, Function.update_apply] at hb ⊢
    have hb' : b ∈ ((r.kick w x).dir j).names := by
      split_ifs at hb with hj
      · subst hj
        rcases Directory.mem_bind.mp hb with rfl | hb
        · exact hc
        · exact hb
      · exact hb
    exact ⟨(mem_kick hb').1, h.live_kick_eq (mem_kick hb').1 (mem_kick hb').2⟩
  | deliver w x rest =>
    have hk := mem_kick (r := r) hb
    exact Or.inr ⟨hk.1, h.live_kick_eq hk.1 hk.2⟩

theorem KnownLive.apply (h : r.KnownLive) (he : r.Enabled l) (hf : r.Fresh l) :
    (r.apply l).KnownLive := by
  intro j b hb
  rcases h.known_apply he hf hb with ⟨n, -, hn⟩ | ⟨hk, hl⟩
  · exact ⟨n, hn⟩
  · rw [hl]
    exact h j b hk

/-- While a worker knows an address, the connection there is `conn`. -/
def Guarded (r : Registry I A) (w : ℕ) (b : A) (conn : ℕ) : Prop :=
  b ∈ (r.dir w).names → r.live b = some (w, conn)

theorem Guarded.apply {w conn : ℕ} {b : A} (h : r.Guarded w b conn) (hk : r.KnownLive)
    (he : r.Enabled l) (hf : r.Fresh l) (ha : ∀ n, l ≠ .accept w b n) :
    (r.apply l).Guarded w b conn := by
  intro hb
  rcases hk.known_apply he hf hb with ⟨n, hn, -⟩ | ⟨hm, hl⟩
  · exact absurd hn (ha n)
  · rw [hl]
    exact h hm

/-- A guarded address stays guarded in moves that accept no connection there. -/
theorem Guarded.moves {ok : Registry I A → Label I A → Prop} {w conn : ℕ} {b : A}
    (h : r.Guarded w b conn) (hk : r.KnownLive) (hm : Moves ok r r')
    (hf : ∀ r l, ok r l → r.Fresh l) (ha : ∀ r l, ok r l → ∀ n, l ≠ .accept w b n) :
    r'.Guarded w b conn :=
  (hm.invariant (P := fun r => r.Guarded w b conn ∧ r.KnownLive)
    (fun r l hr he ho => ⟨hr.1.apply hr.2 he (hf r l ho) (ha r l ho), hr.2.apply he (hf r l ho)⟩)
    ⟨h, hk⟩).1

/-- A move only adds to the log. -/
theorem log_apply (r : Registry I A) (l : Label I A) :
    ∃ added, (r.apply l).log = r.log ++ added := by
  cases l with
  | accept | leave => exact ⟨_, rfl⟩
  | approve w b x told => exact ⟨[_], by simp [Registry.apply, kick]; rfl⟩
  | deliver => exact ⟨_, rfl⟩

/-- Every connection accepted in a sequence of moves is in the part of the log it adds. -/
theorem Moves.logged {ok : Registry I A → Label I A → Prop} (h : Moves ok r r') :
    ∃ added, r'.log = r.log ++ added ∧
      Moves (fun m l => ok m l ∧ ∀ w b n, l = .accept w b n → .accepted w b n ∈ added) r r' := by
  induction h with
  | refl => exact ⟨[], by simp, Relation.ReflTransGen.refl⟩
  | tail hm hs ih =>
    obtain ⟨l, he, ho, rfl⟩ := hs
    obtain ⟨added, hl, hmoves⟩ := ih
    rename_i m
    obtain ⟨more, hmore⟩ := log_apply m l
    refine ⟨added ++ more, by rw [hmore, hl, List.append_assoc], ?_⟩
    refine Relation.ReflTransGen.tail (Moves.mono hmoves fun m l ⟨ho, ha⟩ => ⟨ho, fun w b n hl =>
      List.mem_append_left more (ha w b n hl)⟩) ⟨l, he, ⟨ho, ?_⟩, rfl⟩
    rintro w b n rfl
    obtain rfl : [Note.accepted w b n] = more := List.append_cancel_left hmore
    simp

/-- Removing the session of an id does not take an entry out of a table. -/
def Harmless (r : Registry I A) (w : ℕ) (x : I) : Prop :=
  ∀ a, (r.dir w).holder x = some a → a ∉ (r.dir w).names

/-- Neither an approval nor a deletion takes an entry out of a table. -/
def NoKick (r : Registry I A) : Label I A → Prop
  | .approve w _ x _ => r.Harmless w x
  | .deliver w x _ => r.Harmless w x
  | _ => True

omit [Zero I] in
theorem NoKick.fresh (hn : r.NoKick l) (he : r.Enabled l) : r.Fresh l := by
  cases l with
  | approve w b x told => exact fun hx => hn b hx he.1
  | accept | leave | deliver => trivial

/-- Every counter is the number of connections its worker knows, these are alive, and no live
connection is missing. -/
structure Exact (r : Registry I A) : Prop where
  count : ∀ w, r.count w = Table.size (r.dir w).names
  liveKnown : r.LiveKnown
  knownLive : r.KnownLive

omit [DecidableEq I] [DecidableEq A] [Zero I] in
theorem exact_start (num : ℕ) : (start num : Registry I A).Exact where
  count w := by simp [start]
  liveKnown w b conn hb := by simp [start] at hb
  knownLive := knownLive_start num

theorem Exact.size_edit (h : r.Exact) (he : r.Enabled l) (hn : r.NoKick l) :
    (r.apply l).count l.worker = Table.size (l.edit (r.dir l.worker)).names := by
  have hc := h.count l.worker
  cases l with
  | accept w b n =>
    have hb : b ∉ (r.dir w).names := by
      intro hb
      obtain ⟨m, hm⟩ := h.knownLive w b hb
      simp [Registry.Enabled, hm] at he
    simp only [Registry.apply, Label.worker, Label.edit, Function.update_self] at hc ⊢
    rw [Directory.size_enter 0 hb, hc]
    rfl
  | leave w b =>
    have hb : b ∈ (r.dir w).names := by
      rcases he with ⟨n, hn⟩ | hb
      · exact h.liveKnown w b n hn
      · exact hb
    have hs := Directory.size_leave hb
    simp only [Registry.apply, Label.worker, Label.edit, Function.update_self] at hc ⊢
    omega
  | approve w b x told =>
    have hs := Directory.names_remove_of_unknown hn
    have hb : b ∈ ((r.dir w).remove x).names := hs.symm ▸ he.1
    simp only [Registry.apply, Label.worker, Label.edit, onDir, count_tell, Registry.kick] at hc ⊢
    rw [Directory.size_bind hb, hs, hc]
  | deliver w x rest =>
    simp only [Registry.apply, Label.worker, Label.edit, Registry.kick] at hc ⊢
    rw [Directory.names_remove_of_unknown hn, hc]

theorem count_apply_of_ne {w : ℕ} (hw : w ≠ l.worker) : (r.apply l).count w = r.count w := by
  cases l with
  | accept | leave => exact Function.update_of_ne hw _ _
  | approve w b x told => simp [Registry.apply, onDir, kick]
  | deliver w x rest => rfl

theorem Exact.apply (h : r.Exact) (he : r.Enabled l) (hn : r.NoKick l) : (r.apply l).Exact where
  count w := by
    rw [dir_apply]
    by_cases hw : w = l.worker
    · subst hw
      rw [Function.update_self]
      exact h.size_edit he hn
    · rw [Function.update_of_ne hw, count_apply_of_ne hw]
      exact h.count w
  liveKnown := h.liveKnown.apply l
  knownLive := h.knownLive.apply he (hn.fresh he)

theorem size_edit_le (he : r.Enabled l) :
    Table.size (l.edit (r.dir l.worker)).names ≤
      Table.size (r.dir l.worker).names + l.arrivals := by
  cases l with
  | accept w b n => exact Table.size_insertNew_le _ _ _
  | leave w b => exact Table.size_le_of_subset fun c hc => (Directory.mem_leave hc).1
  | approve w b x told =>
    apply Table.size_le_of_subset
    intro c hc
    rcases Directory.mem_bind.mp hc with rfl | hc
    · exact he.1
    · exact (Directory.mem_remove hc).1
  | deliver w x rest => exact Table.size_le_of_subset fun c hc => (Directory.mem_remove hc).1

/-- No counter is below the number of connections its worker knows, and no live connection is
missing. -/
structure Covered (r : Registry I A) : Prop where
  count : ∀ w, (Table.size (r.dir w).names : ℤ) ≤ r.count w
  liveKnown : r.LiveKnown

omit [DecidableEq I] [DecidableEq A] [Zero I] in
theorem covered_start (num : ℕ) : (start num : Registry I A).Covered where
  count w := by simp [start]
  liveKnown w b conn hb := by simp [start] at hb

theorem Covered.size_edit_le (h : r.Covered) (he : r.Enabled l) :
    (Table.size (l.edit (r.dir l.worker)).names : ℤ) ≤ (r.apply l).count l.worker := by
  have hc := h.count l.worker
  have hs := Registry.size_edit_le he
  cases l with
  | accept w b n =>
    simp only [Registry.apply, Label.worker, Function.update_self, Label.arrivals] at hc hs ⊢
    omega
  | leave w b =>
    have hb : b ∈ (r.dir w).names := by
      rcases he with ⟨n, hn⟩ | hb
      · exact h.liveKnown w b n hn
      · exact hb
    have hl := Directory.size_leave hb
    simp only [Registry.apply, Label.worker, Label.edit, Function.update_self] at hc ⊢
    omega
  | approve w b x told =>
    simp only [Registry.apply, Label.worker, Label.arrivals, onDir, count_tell, Registry.kick]
      at hc hs ⊢
    omega
  | deliver w x rest =>
    simp only [Registry.apply, Label.worker, Label.arrivals, Registry.kick] at hc hs ⊢
    omega

theorem Covered.apply (h : r.Covered) (he : r.Enabled l) : (r.apply l).Covered where
  count w := by
    rw [dir_apply]
    by_cases hw : w = l.worker
    · subst hw
      rw [Function.update_self]
      exact h.size_edit_le he
    · rw [Function.update_of_ne hw, count_apply_of_ne hw]
      exact h.count w
  liveKnown := h.liveKnown.apply l

/-- A worker that nobody is brought to knows no more connections than before. -/
theorem size_apply_le (he : r.Enabled l) {w : ℕ} (hw : l.arrivals = 0 ∨ l.worker ≠ w) :
    Table.size ((r.apply l).dir w).names ≤ Table.size (r.dir w).names := by
  rw [dir_apply]
  by_cases hl : w = l.worker
  · subst hl
    have ha : l.arrivals = 0 := hw.resolve_right fun h => h rfl
    rw [Function.update_self]
    exact (size_edit_le he).trans (by rw [ha]; rfl)
  · rw [Function.update_of_ne hl]

/-- A worker that nobody is brought to does not count more connections than before. -/
theorem count_apply_le {w : ℕ} (hw : l.arrivals = 0 ∨ l.worker ≠ w) :
    (r.apply l).count w ≤ r.count w := by
  by_cases hl : w = l.worker
  · subst hl
    have ha : l.arrivals = 0 := hw.resolve_right fun h => h rfl
    cases l with
    | accept => exact absurd ha (by simp [Label.arrivals])
    | leave v b =>
      simp only [Registry.apply, Label.worker, Function.update_self]
      omega
    | approve v b x told => simp [Registry.apply, onDir, kick]
    | deliver => exact le_rfl
  · exact (count_apply_of_ne hl).le

/-- An approval tells every other worker that has a session of the id. -/
def TellsAll (r : Registry I A) : Label I A → Prop
  | .approve w _ x told => ∀ j < r.num, j ≠ w → (r.dir j).holder x ≠ none → j ∈ told
  | _ => True

/-- Of two workers with a session of one id, one is going to delete it. -/
def Resolving (r : Registry I A) : Prop :=
  ∀ i < r.num, ∀ j < r.num, i ≠ j → ∀ x, (r.dir i).holder x ≠ none → (r.dir j).holder x ≠ none →
    x ∈ r.dels i ∨ x ∈ r.dels j

omit [DecidableEq I] [DecidableEq A] [Zero I] in
theorem resolving_start (num : ℕ) : (start num : Registry I A).Resolving := by
  intro i hi j hj hij x hx
  simp [start] at hx

theorem holder_accept (w v n : ℕ) (b : A) (y : I) (r : Registry I A) :
    ((r.apply (.accept w b n)).dir v).holder y = (r.dir v).holder y := by
  rw [dir_apply, Function.update_apply]
  split_ifs with hv
  · rw [hv]
    rfl
  · rfl

theorem holder_leave (w v : ℕ) (b : A) (y : I) (r : Registry I A) :
    ((r.apply (.leave w b)).dir v).holder y =
      if v = w ∧ (r.dir w).names.lookup b = some y then none else (r.dir v).holder y := by
  rw [dir_apply]
  by_cases hv : v = w
  · subst hv
    simp [Label.worker, Label.edit, Directory.holder_leave]
  · simp [Label.worker, hv]

theorem holder_approve (w v : ℕ) (b : A) (x y : I) (told : List ℕ) (r : Registry I A) :
    ((r.apply (.approve w b x told)).dir v).holder y =
      if v = w ∧ y = x then some b else (r.dir v).holder y := by
  rw [dir_apply]
  by_cases hv : v = w
  · subst hv
    by_cases hy : y = x
    · simp [Label.worker, Label.edit, Directory.holder_bind, Directory.holder_remove, hy]
    · simp [Label.worker, Label.edit, Directory.holder_bind, Directory.holder_remove, hy]
  · simp [Label.worker, hv]

/-- Sessions appear only by approval. -/
theorem holder_apply_ne_none {j : ℕ} {y : I} (h : ((r.apply l).dir j).holder y ≠ none) :
    (r.dir j).holder y ≠ none ∨ ∃ b told, l = .approve j b y told := by
  cases l with
  | accept w b n =>
    rw [holder_accept] at h
    exact Or.inl h
  | leave w b =>
    rw [holder_leave, ite_ne_left_iff] at h
    exact Or.inl h.2.symm
  | approve w b x told =>
    by_cases hy : j = w ∧ y = x
    · obtain ⟨rfl, rfl⟩ := hy
      exact Or.inr ⟨b, told, rfl⟩
    · rw [holder_approve, if_neg hy] at h
      exact Or.inl h
  | deliver w x rest =>
    have hk : ((r.kick w x).dir j).holder y ≠ none := h
    rw [holder_kick, ite_ne_left_iff] at hk
    exact Or.inl hk.2.symm

theorem dels_apply_of_mem {j : ℕ} {y : I} (he : r.Enabled l)
    (h : ((r.apply l).dir j).holder y ≠ none) (hy : y ∈ r.dels j) : y ∈ (r.apply l).dels j := by
  cases l with
  | accept | leave => exact hy
  | approve w b x told =>
    simp only [Registry.apply, onDir]
    exact mem_dels_tell.mpr (Or.inl hy)
  | deliver w x rest =>
    simp only [Registry.apply, Function.update_apply]
    split_ifs with hj
    · subst hj
      rw [he] at hy
      rcases List.mem_cons.mp hy with rfl | hy
      · exact absurd (by simp [Registry.apply, holder_kick]) h
      · exact hy
    · exact hy

theorem Resolving.apply (h : r.Resolving) (he : r.Enabled l) (ht : r.TellsAll l) :
    (r.apply l).Resolving := by
  intro i hi j hj hij x hx hy
  rw [num_apply] at hi hj
  have key : ∀ i < r.num, ∀ j < r.num, i ≠ j → (∃ b told, l = .approve i b x told) →
      (r.dir j).holder x ≠ none → x ∈ (r.apply l).dels j := by
    rintro i hi j hj hij ⟨b, told, rfl⟩ hx
    simp only [Registry.apply, onDir]
    exact mem_dels_tell.mpr (Or.inr ⟨rfl, ht j hj (Ne.symm hij) hx⟩)
  rcases holder_apply_ne_none hx with hx' | hxa
  · rcases holder_apply_ne_none hy with hy' | hya
    · rcases h i hi j hj hij x hx' hy' with hd | hd
      · exact Or.inl (dels_apply_of_mem he hx hd)
      · exact Or.inr (dels_apply_of_mem he hy hd)
    · exact Or.inl (key j hj i hi (Ne.symm hij) hya hx')
  · rcases holder_apply_ne_none hy with hy' | ⟨c, told, hya⟩
    · exact Or.inr (key i hi j hj hij hxa hy')
    · obtain ⟨b, told', hxa⟩ := hxa
      rw [hxa] at hya
      simp only [Label.approve.injEq] at hya
      exact absurd hya.1 hij

/-- The last registration of `x` in a log was of the connection `conn`, which has not ended. -/
def NewestIn (log : List (Note I A)) (w : ℕ) (b : A) (x : I) (conn : ℕ) : Prop :=
  ∃ before after, log = before ++ .registered w b x (some conn) :: after ∧
    (∀ v c n, Note.registered v c x n ∉ after) ∧ Note.ended (some conn) ∉ after

omit [DecidableEq I] [DecidableEq A] [Zero I] in
theorem NewestIn.of_snoc {log : List (Note I A)} {n : Note I A} {w conn : ℕ} {b : A} {x : I}
    (h : NewestIn (log ++ [n]) w b x conn) :
    n = .registered w b x (some conn) ∨
      NewestIn log w b x conn ∧ (∀ v c m, n ≠ .registered v c x m) ∧ n ≠ .ended (some conn) := by
  obtain ⟨before, after, hl, hr, he⟩ := h
  rcases List.eq_nil_or_concat' after with rfl | ⟨after, m, rfl⟩
  · left
    exact (List.append_inj' hl rfl).2 |> List.singleton_inj.mp
  · right
    rw [← List.cons_append, ← List.append_assoc] at hl
    obtain ⟨hlog, hn⟩ := List.append_inj' hl rfl
    obtain rfl := List.singleton_inj.mp hn
    simp only [List.mem_append, List.mem_singleton, not_or] at hr he
    exact ⟨⟨before, after, hlog, fun v c k => (hr v c k).1, he.1⟩,
      fun v c k => Ne.symm (hr v c k).2, Ne.symm he.2⟩

/-- An approval of a real id, for a connection that holds no id, on a worker that has not been
told to delete the id. -/
def Settled (r : Registry I A) : Label I A → Prop
  | .approve w b x told =>
    x ≠ 0 ∧ r.OneId (.approve w b x told) ∧ r.Fresh (.approve w b x told) ∧ x ∉ r.dels w
  | _ => True

/-- The session of `x` is the connection `conn` at `b`, alive and not about to be deleted. -/
structure Session (r : Registry I A) (w : ℕ) (b : A) (x : I) (conn : ℕ) : Prop where
  nonzero : x ≠ 0
  holder : (r.dir w).holder x = some b
  name : (r.dir w).names.lookup b = some x
  live : r.live b = some (w, conn)
  kept : x ∉ r.dels w

section Newest

variable {w conn : ℕ} {b : A} {x : I}

/-- An approval that is settled starts a session. -/
theorem Session.of_approve {told : List ℕ} (hk : r.KnownLive)
    (he : r.Enabled (.approve w b x told)) (hs : r.Settled (.approve w b x told))
    (hc : (r.kick w x).connAt b = some conn) :
    (r.apply (.approve w b x told)).Session w b x conn := by
  obtain ⟨hx, -, hf, hd⟩ := hs
  have hl : (r.kick w x).live b = r.live b := hk.live_kick_eq he.1 fun h => hf h.2
  obtain ⟨m, hm⟩ := hk w b he.1
  obtain rfl : m = conn := by simpa [connAt, hl, hm] using hc
  refine ⟨hx, ?_, ?_, ?_, ?_⟩
  · simp [dir_apply, Label.worker, Label.edit, Directory.holder_bind, holder_removed]
  · simp [dir_apply, Label.worker, Label.edit, Directory.lookup_bind]
  · simp [Registry.apply, onDir, hl, hm]
  · simp only [Registry.apply, onDir, mem_dels_tell, not_or]
    refine ⟨hd, fun ht => he.2 w ht.2 ?_⟩
    simp [holder_kick]

omit [DecidableEq I] in
/-- The connection of a session is the connection of no other id. -/
theorem Session.holder_ne (h : r.Session w b x conn) (hc : r.Coherent) {y : I} (hy : y ≠ x) :
    (r.dir w).holder y ≠ some b := by
  intro hh
  have hxy := h.name.symm.trans (hc.dir w y b hh)
  exact hy (Option.some.inj hxy).symm

/-- Removing the session of another id, or on another worker, leaves the connection alive. -/
theorem Session.live_kick (h : r.Session w b x conn) (hk : r.KnownLive) (hc : r.Coherent) {v : ℕ}
    {y : I} (hy : ¬ (v = w ∧ y = x)) : (r.kick v y).live b = some (w, conn) := by
  have hne : ¬ (w = v ∧ (r.dir v).holder y = some b) := by
    rintro ⟨rfl, hh⟩
    exact h.holder_ne hc (fun hyx => hy ⟨rfl, hyx⟩) hh
  rw [hk.live_kick_eq (Table.mem_of_lookup h.name) hne]
  exact h.live

/-- A move that can happen while a session lasts: it neither registers the id again nor ends the
connection. -/
def Spares (r : Registry I A) (x : I) (conn : ℕ) : Label I A → Prop
  | .approve _ _ y _ => y ≠ x
  | .leave _ c => r.connAt c ≠ some conn
  | _ => True

omit [DecidableEq I] in
theorem Session.ne_of_leave (h : r.Session w b x conn) {v : ℕ} {c : A}
    (hp : r.Spares x conn (.leave v c)) : b ≠ c := by
  rintro rfl
  exact hp (by simp [connAt, h.live])

theorem Session.ne_of_accept (h : r.Session w b x conn) {v n : ℕ} {c : A}
    (he : r.Enabled (.accept v c n)) : b ≠ c := by
  rintro rfl
  simp [Registry.Enabled, h.live] at he

/-- A move of the worker of a session leaves its two entries in place. -/
theorem Session.edit (h : r.Session w b x conn) (hc : r.Coherent) (hb : r.Backed)
    (he : r.Enabled l) (hs : r.Settled l) (hp : r.Spares x conn l) (hw : l.worker = w) :
    (l.edit (r.dir w)).holder x = some b ∧ (l.edit (r.dir w)).names.lookup b = some x := by
  subst hw
  cases l with
  | accept w c n =>
    refine ⟨h.holder, ?_⟩
    simp only [Label.edit, Directory.enter]
    rw [Table.lookup_insertNew, if_neg fun hbc => h.ne_of_accept he hbc.1]
    exact h.name
  | leave w c =>
    have hne := h.ne_of_leave hp
    constructor
    · simp only [Label.edit]
      rw [Directory.holder_leave, if_neg]
      · exact h.holder
      · intro hl
        exact hne (Option.some.inj (h.holder.symm.trans (hb w c x hl h.nonzero)))
    · simp only [Label.edit]
      rw [Directory.lookup_leave, if_neg hne]
      exact h.name
  | approve w c y told =>
    have hyx : y ≠ x := hp
    constructor
    · simp only [Label.edit]
      rw [Directory.holder_bind, if_neg (Ne.symm hyx), Directory.holder_remove,
        if_neg (Ne.symm hyx)]
      exact h.holder
    · simp only [Label.edit]
      rw [Directory.lookup_bind, if_neg, Directory.lookup_remove, if_neg (h.holder_ne hc hyx)]
      · exact h.name
      · rintro rfl
        exact hs.2.1 x (Ne.symm hyx) h.holder
  | deliver w y rest =>
    have hyx : y ≠ x := by
      rintro rfl
      exact h.kept (he ▸ List.mem_cons_self)
    constructor
    · simp only [Label.edit]
      rw [Directory.holder_remove, if_neg (Ne.symm hyx)]
      exact h.holder
    · simp only [Label.edit]
      rw [Directory.lookup_remove, if_neg (h.holder_ne hc hyx)]
      exact h.name

theorem Session.live_apply (h : r.Session w b x conn) (hk : r.KnownLive) (hc : r.Coherent)
    (he : r.Enabled l) (hp : r.Spares x conn l) : (r.apply l).live b = some (w, conn) := by
  cases l with
  | accept v c n =>
    simp only [Registry.apply, Function.update_of_ne (h.ne_of_accept he)]
    exact h.live
  | leave v c =>
    simp only [Registry.apply, Function.update_of_ne (h.ne_of_leave hp)]
    exact h.live
  | approve v c y told =>
    simp only [Registry.apply, onDir, live_tell]
    exact h.live_kick hk hc fun hv => hp hv.2
  | deliver v y rest =>
    apply h.live_kick hk hc
    rintro ⟨rfl, rfl⟩
    exact h.kept (he ▸ List.mem_cons_self)

theorem Session.kept_apply (h : r.Session w b x conn) (he : r.Enabled l)
    (hp : r.Spares x conn l) : x ∉ (r.apply l).dels w := by
  cases l with
  | accept | leave => exact h.kept
  | approve v c y told =>
    simp only [Registry.apply, onDir, mem_dels_tell, not_or]
    exact ⟨h.kept, fun ht => hp ht.1.symm⟩
  | deliver v y rest =>
    simp only [Registry.apply, Function.update_apply]
    split_ifs with hv
    · intro hm
      subst hv
      exact h.kept (he ▸ List.mem_cons_of_mem y hm)
    · exact h.kept

theorem Session.apply (h : r.Session w b x conn) (hk : r.KnownLive) (hc : r.Coherent)
    (hb : r.Backed) (he : r.Enabled l) (hs : r.Settled l) (hp : r.Spares x conn l) :
    (r.apply l).Session w b x conn := by
  have hdir : ((r.apply l).dir w).holder x = some b ∧
      ((r.apply l).dir w).names.lookup b = some x := by
    rw [dir_apply]
    by_cases hw : w = l.worker
    · subst hw
      rw [Function.update_self]
      exact h.edit hc hb he hs hp rfl
    · rw [Function.update_of_ne hw]
      exact ⟨h.holder, h.name⟩
  exact ⟨h.nonzero, hdir.1, hdir.2, h.live_apply hk hc he hp, h.kept_apply he hp⟩

end Newest

/-- The newest login of every id is its session. -/
structure Current (r : Registry I A) : Prop where
  backed : r.Backed
  coherent : r.Coherent
  knownLive : r.KnownLive
  session : ∀ w b x conn, NewestIn r.log w b x conn → r.Session w b x conn

omit [DecidableEq I] in
theorem current_start (num : ℕ) : (start num : Registry I A).Current where
  backed := backed_start num
  coherent := coherent_start num
  knownLive := knownLive_start num
  session w b x conn h := by
    obtain ⟨before, after, hl, -⟩ := h
    simp [start] at hl

theorem Current.apply (h : r.Current) (he : r.Enabled l) (hs : r.Settled l) :
    (r.apply l).Current where
  backed := h.backed.apply l
  coherent := by
    apply h.coherent.apply
    cases l with
    | approve => exact hs.2.1
    | accept | leave | deliver => trivial
  knownLive := by
    apply h.knownLive.apply he
    cases l with
    | approve => exact hs.2.2.1
    | accept | leave | deliver => trivial
  session w b x conn hn := by
    have keep : NewestIn r.log w b x conn → r.Spares x conn l →
        (r.apply l).Session w b x conn :=
      fun ho => (h.session w b x conn ho).apply h.knownLive h.coherent h.backed he hs
    cases l with
    | accept v c n =>
      rcases hn.of_snoc with hn | ⟨ho, -, -⟩
      · simp at hn
      · exact keep ho trivial
    | leave v c =>
      rcases hn.of_snoc with hn | ⟨ho, -, hne⟩
      · simp at hn
      · exact keep ho fun hc => hne (by rw [hc])
    | approve v c y told =>
      simp only [Registry.apply] at hn
      rcases hn.of_snoc with hn | ⟨ho, hne, -⟩
      · obtain ⟨rfl, rfl, rfl, hc⟩ : v = w ∧ c = b ∧ y = x ∧
            ((r.kick v y).tell y told).connAt c = some conn := by simpa using hn
        exact Session.of_approve h.knownLive he hs (by simpa [connAt] using hc)
      · apply keep
        · simpa [kick] using ho
        · intro hyx
          exact hne v c _ (by rw [hyx])
    | deliver v y rest =>
      apply keep _ trivial
      simp only [Registry.apply, if_neg (h.coherent.not_stale v y), List.append_nil] at hn
      exact hn

end Registry

end EglComet
