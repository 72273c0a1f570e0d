import Mathlib.Algebra.Order.Group.Nat
import Mathlib.Logic.Relation

/-!
Numbered records and the places that hold them. A record is made in some place,
under the next number, and then moves from place to place; along any path every
record is in exactly one place. Being held by the running code and having been
disposed of are places like any other.
-/

/-- How often each record is in each place; the records are numbered below `next`. -/
structure Holdings (P : Type*) where
  next : ℕ
  count : P → ℕ → ℕ

namespace Holdings

variable {P : Type*} {h h' : Holdings P}

theorem eq_of_count (hn : h'.next = h.next) (hc : ∀ q m, h'.count q m = h.count q m) : h' = h := by
  cases h
  cases h'
  simp only [mk.injEq]
  exact ⟨hn, funext fun q => funext fun m => hc q m⟩

variable [DecidableEq P]

/-- One copy of record `n` in place `p`. -/
def one (p : P) (n : ℕ) (q : P) (m : ℕ) : ℕ := if q = p ∧ m = n then 1 else 0

/-- A record is made, or moves to another place. -/
inductive Step (h h' : Holdings P) : Prop where
  | make (p : P) (hn : h'.next = h.next + 1)
      (hc : ∀ q m, h'.count q m = h.count q m + one p h.next q m)
  | move (n : ℕ) (p q : P) (hn : h'.next = h.next)
      (hc : ∀ r m, h'.count r m + one p n r m = h.count r m + one q n r m)

def Path : Holdings P → Holdings P → Prop := Relation.ReflTransGen Step

/-- Record `n` is in exactly one place, once. -/
def Kept (h : Holdings P) (n : ℕ) : Prop := ∃ p, ∀ q, h.count q n = if q = p then 1 else 0

/-- Every record that was made is in exactly one place. -/
structure Sound (h : Holdings P) : Prop where
  kept : ∀ n < h.next, h.Kept n
  fresh : ∀ n, h.next ≤ n → ∀ q, h.count q n = 0

theorem one_of_ne {p : P} {n m : ℕ} (hm : m ≠ n) (q : P) : one p n q m = 0 :=
  if_neg fun h => hm h.2

theorem one_self (p : P) (n : ℕ) (q : P) : one p n q n = if q = p then 1 else 0 := by
  simp [one]

/-- A record that is somewhere is nowhere else. -/
theorem Sound.elsewhere (hs : h.Sound) {n : ℕ} {p q : P} (hp : 0 < h.count p n) (hq : q ≠ p) :
    h.count q n = 0 := by
  have hlt : n < h.next := by
    by_contra hn
    exact hp.ne' (hs.fresh n (Nat.le_of_not_lt hn) p)
  obtain ⟨o, ho⟩ := hs.kept n hlt
  have hpo : p = o := by
    by_contra hne
    rw [ho, if_neg hne] at hp
    exact Nat.lt_irrefl 0 hp
  rw [ho, if_neg (hpo ▸ hq)]

theorem Sound.step (hs : h.Sound) (ht : Step h h') : h'.Sound := by
  cases ht with
  | make p hn hc =>
    constructor
    · intro n hlt
      by_cases hnew : n = h.next
      · subst hnew
        refine ⟨p, fun q => ?_⟩
        rw [hc, hs.fresh _ le_rfl, one_self, zero_add]
      · obtain ⟨o, ho⟩ := hs.kept n (by omega)
        refine ⟨o, fun q => ?_⟩
        rw [hc, one_of_ne hnew, ho, add_zero]
    · intro n hle q
      rw [hc, one_of_ne (by omega), hs.fresh n (by omega)]
  | move k p q hn hc =>
    have hother : ∀ n, n ≠ k → ∀ r, h'.count r n = h.count r n := by
      intro n hne r
      have heq := hc r n
      rw [one_of_ne hne, one_of_ne hne] at heq
      exact heq
    by_cases hpq : p = q
    · subst hpq
      rw [eq_of_count hn fun r m => Nat.add_right_cancel (hc r m)]
      exact hs
    have hpos : 0 < h.count p k := by
      have heq := hc p k
      rw [one_self, one_self, if_pos rfl, if_neg hpq] at heq
      omega
    have hlt : k < h.next := by
      by_contra hle
      have hz := hs.fresh k (by omega) p
      omega
    constructor
    · intro n hlt'
      by_cases hne : n = k
      · subst hne
        obtain ⟨o, ho⟩ := hs.kept n hlt
        have hpo : p = o := by
          by_contra hne
          rw [ho, if_neg hne] at hpos
          exact Nat.lt_irrefl 0 hpos
        refine ⟨q, fun r => ?_⟩
        have heq := hc r n
        rw [one_self, one_self, ho, hpo] at heq
        omega
      · obtain ⟨o, ho⟩ := hs.kept n (by omega)
        exact ⟨o, fun r => (hother n hne r).trans (ho r)⟩
    · intro n hle r
      rw [hother n (by omega), hs.fresh n (by omega)]

theorem Sound.path (hs : h.Sound) (hp : Path h h') : h'.Sound := by
  induction hp with
  | refl => exact hs
  | tail _ ht ih => exact ih.step ht

theorem Path.of_eq (he : h' = h) : Path h h' := he ▸ Relation.ReflTransGen.refl

theorem Path.of_step (ht : Step h h') : Path h h' := Relation.ReflTransGen.single ht

end Holdings
