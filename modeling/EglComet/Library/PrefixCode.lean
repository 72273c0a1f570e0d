import Mathlib.Data.List.Basic
import Mathlib.Tactic.TypeStar

/-!
Words that delimit themselves. No word of a prefix code is empty or begins
another one, so a concatenation of words can be cut back in one way only.
-/
namespace PrefixCode

variable {α : Type*}

/-- A set of nonempty words of which none begins another. -/
structure IsPrefixCode (C : List α → Prop) : Prop where
  ne_nil : ∀ {w}, C w → w ≠ []
  eq_of_append : ∀ {w w' x x'}, C w → C w' → w ++ x = w' ++ x' → w = w'

theorem IsPrefixCode.flatten_inj {C : List α → Prop} (hC : IsPrefixCode C) {ws ws' : List (List α)}
    (hws : ∀ w ∈ ws, C w) (hws' : ∀ w ∈ ws', C w) (h : ws.flatten = ws'.flatten) : ws = ws' := by
  induction ws generalizing ws' with
  | nil =>
    cases ws' with
    | nil => rfl
    | cons w' ws' =>
      have hnil : w' = [] := by
        simpa using (List.flatten_eq_nil_iff.mp h.symm) w' List.mem_cons_self
      exact absurd hnil (hC.ne_nil (hws' w' List.mem_cons_self))
  | cons w ws ih =>
    cases ws' with
    | nil =>
      have hnil : w = [] := by simpa using (List.flatten_eq_nil_iff.mp h) w List.mem_cons_self
      exact absurd hnil (hC.ne_nil (hws w List.mem_cons_self))
    | cons w' ws' =>
      -- the two first words begin one concatenation, so they are one word
      rw [List.flatten_cons, List.flatten_cons] at h
      obtain rfl := hC.eq_of_append (hws w List.mem_cons_self) (hws' w' List.mem_cons_self) h
      rw [ih (fun v hv => hws v (List.mem_cons_of_mem w hv))
        (fun v hv => hws' v (List.mem_cons_of_mem w hv)) (List.append_cancel_left h)]

end PrefixCode
