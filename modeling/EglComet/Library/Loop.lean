import Mathlib.Data.Nat.Notation
import Mathlib.Tactic.TypeStar

/-!
Loops as repeated turns. A turn goes round again, ends the loop with a value, or aborts it.
A measure that every turn going round again lowers bounds the number of turns.
-/
namespace Loop

variable {α β : Type*}

/-- How a loop stands after some turns. -/
inductive Outcome (α β : Type*) where
  | running (a : α)
  | aborted
  | finished (b : β)

/-- The loop after at most `n` turns. -/
def run (turn : α → Option (α ⊕ β)) : ℕ → α → Outcome α β
  | 0, a => .running a
  | n + 1, a =>
    match turn a with
    | none => .aborted
    | some (.inl a) => run turn n a
    | some (.inr b) => .finished b

/-- The end of a loop whose abortion is an absent value. -/
def Outcome.ofOption : Option β → Outcome α β
  | none => .aborted
  | some b => .finished b

/-- A value that satisfies the loop's equation is what the loop ends with, and it takes no more
turns than the measure of the start and the turn that ends it. -/
theorem run_eq_ofOption {turn : α → Option (α ⊕ β)} (size : α → ℕ) (value : α → Option β)
    (hlower : ∀ a a', turn a = some (.inl a') → size a' < size a)
    (hvalue : ∀ a, value a = (turn a).bind (Sum.elim value some))
    {n : ℕ} {a : α} (hn : size a < n) : run turn n a = .ofOption (value a) := by
  induction n generalizing a with
  | zero => omega
  | succ n ih =>
    rw [hvalue a, run]
    cases ht : turn a with
    | none => rfl
    | some next =>
      cases next with
      | inl a' =>
        have hlt : size a' < size a := hlower a a' ht
        exact ih (by omega)
      | inr b => rfl

/-- A loop ends, with what its last turn establishes, if an invariant excludes that it aborts and
every turn going round again keeps the invariant and lowers the measure. -/
theorem run_finishes {turn : α → Option (α ⊕ β)} (size : α → ℕ) (P : α → Prop) (Q : β → Prop)
    (hgoes : ∀ a, P a → turn a ≠ none)
    (hagain : ∀ a a', P a → turn a = some (.inl a') → P a' ∧ size a' < size a)
    (hlast : ∀ a b, P a → turn a = some (.inr b) → Q b)
    {n : ℕ} {a : α} (ha : P a) (hn : size a < n) : ∃ b, run turn n a = .finished b ∧ Q b := by
  induction n generalizing a with
  | zero => omega
  | succ n ih =>
    rw [run]
    cases ht : turn a with
    | none => exact absurd ht (hgoes a ha)
    | some next =>
      cases next with
      | inl a' =>
        obtain ⟨ha', hlt⟩ := hagain a a' ha ht
        exact ih ha' (by omega)
      | inr b => exact ⟨b, rfl, hlast a b ha ht⟩

end Loop
