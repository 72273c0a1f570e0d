import Mathlib.Logic.Basic
import Mathlib.Tactic.TypeStar

/-!
Runs of a partial step function in which every step meets a side condition.
The invariant rule is stated once here; each safety result about a concrete
system supplies an initial case and a step case.
-/
namespace Transition

variable {σ ε : Type*}

/-- States reached from an initial state through steps that all satisfy `ok`. -/
inductive Reach (step : σ → ε → Option σ) (init : σ → Prop) (ok : σ → ε → Prop) : σ → Prop where
  | start {s : σ} : init s → Reach step init ok s
  | next {s t : σ} {e : ε} :
      Reach step init ok s → ok s e → step s e = some t → Reach step init ok t

theorem Reach.invariant {step : σ → ε → Option σ} {init : σ → Prop} {ok : σ → ε → Prop}
    {P : σ → Prop} (h0 : ∀ s, init s → P s)
    (hs : ∀ s e t, P s → ok s e → step s e = some t → P t)
    {s : σ} (h : Reach step init ok s) : P s := by
  induction h with
  | start hi => exact h0 _ hi
  | next _ ho ht ih => exact hs _ _ _ ih ho ht

/-- A state with a history forgets it: steps of the larger system are steps of the smaller one. -/
theorem Reach.map {τ : Type*} {step : σ → ε → Option σ} {init : σ → Prop} {ok : σ → ε → Prop}
    {step' : τ → ε → Option τ} {init' : τ → Prop} {ok' : τ → ε → Prop} (f : σ → τ)
    (h0 : ∀ s, init s → init' (f s))
    (hs : ∀ s e t, ok s e → step s e = some t → ok' (f s) e ∧ step' (f s) e = some (f t))
    {s : σ} (h : Reach step init ok s) : Reach step' init' ok' (f s) := by
  induction h with
  | start hi => exact .start (h0 _ hi)
  | next _ ho ht ih =>
    obtain ⟨ho', ht'⟩ := hs _ _ _ ho ht
    exact .next ih ho' ht'

/-- Execute a list of steps in order, stopping at the first one that is not enabled. -/
def run (step : σ → ε → Option σ) : σ → List ε → Option σ
  | s, [] => some s
  | s, e :: es => (step s e).bind (run step · es)

/-- Every step of an execution meets `ok` in the state it is taken from. -/
def RunOk (step : σ → ε → Option σ) (ok : σ → ε → Prop) : σ → List ε → Prop
  | _, [] => True
  | s, e :: es => ok s e ∧ ∀ t ∈ step s e, RunOk step ok t es

instance RunOk.decidable (step : σ → ε → Option σ) (ok : σ → ε → Prop)
    [∀ s e, Decidable (ok s e)] : ∀ (s : σ) (es : List ε), Decidable (RunOk step ok s es)
  | _, [] => inferInstanceAs (Decidable True)
  | s, e :: es =>
    have : ∀ t, Decidable (RunOk step ok t es) := fun t => RunOk.decidable step ok t es
    inferInstanceAs (Decidable (ok s e ∧ ∀ t ∈ step s e, RunOk step ok t es))

/-- A condition that every step of a list meets in any state. -/
theorem RunOk.of_forall {step : σ → ε → Option σ} {ok : σ → ε → Prop} {es : List ε}
    (h : ∀ e ∈ es, ∀ s, ok s e) (s : σ) : RunOk step ok s es := by
  induction es generalizing s with
  | nil => trivial
  | cons e es ih =>
    have hes : ∀ e' ∈ es, ∀ s, ok s e' := fun e' he => h e' (List.mem_cons_of_mem e he)
    exact ⟨h e List.mem_cons_self s, fun t _ => ih hes t⟩

theorem RunOk.and {step : σ → ε → Option σ} {ok ok' : σ → ε → Prop} {s : σ} {es : List ε}
    (h : RunOk step ok s es) (h' : RunOk step ok' s es) :
    RunOk step (fun s e => ok s e ∧ ok' s e) s es := by
  induction es generalizing s with
  | nil => trivial
  | cons e es ih => exact ⟨⟨h.1, h'.1⟩, fun t ht => ih (h.2 t ht) (h'.2 t ht)⟩

theorem RunOk.imp {step : σ → ε → Option σ} {ok ok' : σ → ε → Prop} {s : σ} {es : List ε}
    (h : RunOk step ok s es) (hi : ∀ s e, ok s e → ok' s e) : RunOk step ok' s es := by
  induction es generalizing s with
  | nil => trivial
  | cons e es ih => exact ⟨hi s e h.1, fun t ht => ih (h.2 t ht)⟩

theorem Reach.run {step : σ → ε → Option σ} {init : σ → Prop} {ok : σ → ε → Prop}
    {s t : σ} {es : List ε} (hs : Reach step init ok s) (hok : RunOk step ok s es)
    (hr : run step s es = some t) : Reach step init ok t := by
  induction es generalizing s with
  | nil =>
    obtain rfl : s = t := by simpa [Transition.run] using hr
    exact hs
  | cons e es ih =>
    obtain ⟨u, hu, hut⟩ := Option.bind_eq_some_iff.mp hr
    exact ih (.next hs hok.1 hu) (hok.2 u hu) hut

/-- A run that ends in a state with a decidable property reaches such a state. -/
theorem Reach.exists_of_run {step : σ → ε → Option σ} {init : σ → Prop} {ok : σ → ε → Prop}
    {s : σ} {es : List ε} {P : σ → Prop} [DecidablePred P] (hs : init s) (hok : RunOk step ok s es)
    (hr : (Transition.run step s es).any (fun t => decide (P t)) = true) :
    ∃ t, Reach step init ok t ∧ P t := by
  obtain ⟨t, ht, hp⟩ := (Option.any_eq_true _ _).mp hr
  exact ⟨t, Reach.run (.start hs) hok ht, of_decide_eq_true hp⟩

end Transition
