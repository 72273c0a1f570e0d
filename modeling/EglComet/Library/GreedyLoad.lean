import EglComet.Library.Transition
import Mathlib.Algebra.Order.Group.Int
import Mathlib.Data.Set.Basic

/-!
Work that is given, piece by piece, to a place whose load is among the smallest.
The loads of two places can only drift apart by what is given at the smallest
load, so the surplus of one over the other is one piece, the error `q` with
which the smallest load is known, and what the other place has lost since.
-/
namespace GreedyLoad

variable {σ ε ι : Type*}

/-- What place `j` loses in an execution: the sum of what its load drops by in single steps. -/
def lost (step : σ → ε → Option σ) (load : σ → ι → ℤ) (j : ι) : σ → List ε → ℤ
  | _, [] => 0
  | s, e :: es =>
    match step s e with
    | none => 0
    | some t => max 0 (load s j - load t j) + lost step load j t es

/-- From loads `a` to loads `b`, a place of `S` only gains a piece where its load exceeds no other
by more than `q`. -/
def Greedy (S : Set ι) (q : ℤ) (a b : ι → ℤ) : Prop :=
  ∀ i ∈ S, b i ≤ a i ∨ b i ≤ a i + 1 ∧ ∀ j ∈ S, a i ≤ a j + q

/-- No load exceeds another by more than `c`, where the other is credited with its losses. -/
def Level (S : Set ι) (c : ℤ) (a credit : ι → ℤ) : Prop :=
  ∀ i ∈ S, ∀ j ∈ S, a i ≤ a j + c + credit j

theorem Level.step {S : Set ι} {q : ℤ} {a b credit : ι → ℤ} (h : Level S (q + 1) a credit)
    (hc : ∀ j, 0 ≤ credit j) (hg : Greedy S q a b) :
    Level S (q + 1) b fun j => credit j + max 0 (a j - b j) := by
  intro i hi j hj
  have hcj := hc j
  have hlevel := h i hi j hj
  have hdrop : a j - b j ≤ max 0 (a j - b j) := le_max_right _ _
  show b i ≤ b j + (q + 1) + (credit j + max 0 (a j - b j))
  rcases hg i hi with hle | ⟨hle, hmin⟩
  · omega
  · have hij := hmin j hj
    omega

/-- An execution all of whose steps are greedy keeps the loads level. -/
theorem Level.run {step : σ → ε → Option σ} {ok : σ → ε → Prop} {I : σ → Prop}
    {load : σ → ι → ℤ} {S : Set ι} {q : ℤ}
    (hstep : ∀ s e t, I s → ok s e → step s e = some t → I t ∧ Greedy S q (load s) (load t))
    {s t : σ} {es : List ε} {credit : ι → ℤ} (hs : I s) (hok : Transition.RunOk step ok s es)
    (hr : Transition.run step s es = some t) (hc : ∀ j, 0 ≤ credit j)
    (h : Level S (q + 1) (load s) credit) :
    Level S (q + 1) (load t) fun j => credit j + lost step load j s es := by
  induction es generalizing s credit with
  | nil =>
    obtain rfl : s = t := by simpa [Transition.run] using hr
    simpa [lost] using h
  | cons e es ih =>
    obtain ⟨u, hu, hut⟩ := Option.bind_eq_some_iff.mp hr
    obtain ⟨hiu, hg⟩ := hstep s e u hs hok.1 hu
    have hnext := ih hiu (hok.2 u hu) hut
      (fun j => Int.add_nonneg (hc j) (le_max_left _ _)) (h.step hc hg)
    simpa only [lost, hu, add_assoc] using hnext

end GreedyLoad
