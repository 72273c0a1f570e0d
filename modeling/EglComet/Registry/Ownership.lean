import EglComet.Registry.Invariants

/-!
Who a session belongs to. As long as no connection takes a second id and no
login replaces the session of its own connection, the holder of an id is alive
and is the very connection that was registered for the id.
-/
namespace EglComet.Registry

variable {I A : Type} [DecidableEq I] [DecidableEq A] [Zero I] {r : Registry I A} {l : Label I A}

/-- The holder of every id is alive and was registered for it. -/
def Owned (r : Registry I A) : Prop :=
  ∀ w x a, (r.dir w).holder x = some a →
    ∃ c, r.live a = some (w, c) ∧ Note.registered w a x (some c) ∈ r.log

/-- Owners, with what keeps them: a known address is alive, and a holder carries the id. -/
structure Attested (r : Registry I A) : Prop where
  coherent : r.Coherent
  knownLive : r.KnownLive
  owned : r.Owned

omit [DecidableEq I] [Zero I] in
theorem attested_start (num : ℕ) : (start num : Registry I A).Attested where
  coherent := coherent_start num
  knownLive := knownLive_start num
  owned w x a ha := by simp [start] at ha

omit [DecidableEq I] [Zero I] in
/-- An address holds one id, of one worker. -/
theorem Attested.holder_inj (h : r.Attested) {i j : ℕ} {x y : I} {a : A}
    (hx : (r.dir i).holder x = some a) (hy : (r.dir j).holder y = some a) : i = j ∧ x = y := by
  obtain ⟨c, hc, -⟩ := h.owned i x a hx
  obtain ⟨d, hd, -⟩ := h.owned j y a hy
  rw [hc] at hd
  obtain rfl : i = j := congrArg Prod.fst (Option.some.inj hd)
  have hnx := h.coherent.dir i x a hx
  rw [h.coherent.dir i y a hy] at hnx
  exact ⟨rfl, (Option.some.inj hnx).symm⟩

omit [Zero I] in
/-- Removing a session leaves the other holders alive. -/
theorem Attested.kick (h : r.Attested) (w : ℕ) (x : I) {j : ℕ} {y : I} {a : A}
    (hy : ((r.kick w x).dir j).holder y = some a) :
    (r.dir j).holder y = some a ∧ (r.kick w x).live a = r.live a := by
  rw [holder_kick] at hy
  split_ifs at hy with hjy
  refine ⟨hy, ?_⟩
  rw [live_kick, if_neg]
  rintro ⟨hx, -⟩
  exact hjy (h.holder_inj hy hx)

theorem Attested.apply (h : r.Attested) (he : r.Enabled l) (ho : r.OneId l) (hf : r.Fresh l) :
    (r.apply l).Attested where
  coherent := h.coherent.apply ho
  knownLive := h.knownLive.apply he hf
  owned j y a ha := by
    cases l with
    | accept w b conn =>
      have hold : (r.dir j).holder y = some a := by
        simp only [Registry.apply, Function.update_apply] at ha
        split_ifs at ha with hj
        · exact hj ▸ ha
        · exact ha
      obtain ⟨c, hc, hlog⟩ := h.owned j y a hold
      have hab : a ≠ b := by
        rintro rfl
        rw [show r.live a = none from he] at hc
        cases hc
      refine ⟨c, ?_, List.mem_append_left _ hlog⟩
      simpa [Registry.apply, hab] using hc
    | leave w b =>
      have hold : (r.dir j).holder y = some a ∧ a ≠ b := by
        simp only [Registry.apply, Function.update_apply] at ha
        split_ifs at ha with hj
        · subst hj
          rw [Directory.holder_leave] at ha
          split_ifs at ha with hb
          refine ⟨ha, ?_⟩
          rintro rfl
          exact hb (h.coherent.dir j y a ha)
        · refine ⟨ha, ?_⟩
          rintro rfl
          -- the address that is left is one of worker `w`
          obtain ⟨c, hc, -⟩ := h.owned j y a ha
          obtain ⟨d, hd⟩ : ∃ d, r.live a = some (w, d) :=
            Or.elim he id fun hm => h.knownLive w a hm
          rw [hc] at hd
          exact hj (congrArg Prod.fst (Option.some.inj hd))
      obtain ⟨c, hc, hlog⟩ := h.owned j y a hold.1
      refine ⟨c, ?_, List.mem_append_left _ hlog⟩
      simpa [Registry.apply, hold.2] using hc
    | approve w b x told =>
      have hlive : (r.apply (.approve w b x told)).live = (r.kick w x).live := by
        simp [Registry.apply, onDir]
      have hlogs : (r.apply (.approve w b x told)).log =
          r.log ++ [.registered w b x ((r.kick w x).connAt b)] := by
        simp [Registry.apply, onDir, connAt, Registry.kick]
      rw [hlive, hlogs]
      simp only [Registry.apply, onDir, dir_tell, Function.update_apply] at ha
      by_cases hnew : j = w ∧ y = x
      · obtain ⟨rfl, rfl⟩ := hnew
        have hnone : ((r.kick j y).dir j).holder y = none := by
          rw [holder_kick, if_pos ⟨rfl, rfl⟩]
        rw [if_pos rfl, Directory.holder_bind, if_pos rfl, hnone] at ha
        obtain rfl : b = a := Option.some.inj ha
        obtain ⟨c, hc⟩ := h.knownLive j b he.1
        have hsame := h.knownLive.live_kick_eq (w := j) (x := y) he.1 fun hh => hf hh.2
        refine ⟨c, hsame.trans hc, List.mem_append_right _ ?_⟩
        simp [connAt, hsame, hc]
      · have hk : ((r.kick w x).dir j).holder y = some a := by
          split_ifs at ha with hj
          · subst hj
            rwa [Directory.holder_bind, if_neg fun hy => hnew ⟨rfl, hy⟩] at ha
          · exact ha
        obtain ⟨hold, hsame⟩ := h.kick w x hk
        obtain ⟨c, hc, hlog⟩ := h.owned j y a hold
        exact ⟨c, hsame.trans hc, List.mem_append_left _ hlog⟩
    | deliver w x rest =>
      obtain ⟨hold, hsame⟩ := h.kick w x (j := j) (y := y) (a := a) ha
      obtain ⟨c, hc, hlog⟩ := h.owned j y a hold
      exact ⟨c, hsame.trans hc, List.mem_append_left _ hlog⟩

end EglComet.Registry
