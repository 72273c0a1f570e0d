import Mathlib.Tactic.TypeStar

/-!
Machines that take operations and answer them, and what it means that one of
them implements an abstract one. The abstract machine is a relation, so that it
may leave answers open; an operation of the concrete machine may abort.
-/
namespace Refinement

variable {σ τ ε ο : Type*}

/-- The answers to a list of operations, absent when one of them aborts. -/
def run (step : σ → ε → Option (σ × ο)) : σ → List ε → Option (σ × List ο)
  | s, [] => some (s, [])
  | s, e :: es => (step s e).bind fun r => (run step r.1 es).map fun x => (x.1, r.2 :: x.2)

/-- The runs that an abstract machine allows. -/
inductive Allowed (spec : τ → ε → ο → τ → Prop) : τ → List ε → List ο → τ → Prop where
  | nil (t : τ) : Allowed spec t [] [] t
  | cons {t t' t'' : τ} {e : ε} {o : ο} {es : List ε} {os : List ο} (head : spec t e o t')
      (tail : Allowed spec t' es os t'') : Allowed spec t (e :: es) (o :: os) t''

/-- If an invariant excludes that an operation aborts and every operation keeps it and is allowed
under the abstraction, then no run aborts and every run is allowed. -/
theorem run_allowed {step : σ → ε → Option (σ × ο)} {spec : τ → ε → ο → τ → Prop} (abs : σ → τ)
    (inv : σ → Prop) (hstep : ∀ s e, inv s →
      ∃ s' o, step s e = some (s', o) ∧ inv s' ∧ spec (abs s) e o (abs s'))
    {s : σ} (hs : inv s) (es : List ε) :
    ∃ s' os, run step s es = some (s', os) ∧ inv s' ∧ Allowed spec (abs s) es os (abs s') := by
  induction es generalizing s with
  | nil => exact ⟨s, [], rfl, hs, .nil _⟩
  | cons e es ih =>
    obtain ⟨s₁, o, h₁, hs₁, hspec⟩ := hstep s e hs
    obtain ⟨s₂, os, h₂, hs₂, htail⟩ := ih hs₁
    refine ⟨s₂, o :: os, ?_, hs₂, .cons hspec htail⟩
    rw [run, h₁, Option.bind_some, h₂, Option.map_some]

end Refinement
