import Mathlib.Data.List.Pairwise
import Mathlib.Data.Set.Insert

/-!
A line of numbered items with a detour. Items wait in a queue in the order of
their numbers; the first one leaves the line for the output, or for a side
track from which it goes to the output later. The output stays in order as long
as nothing passes an older item on the side track.
-/

/-- What has been put out, what waits in line, and what is on the side track. -/
structure Lane (α : Type*) where
  out : List α
  queue : List α
  side : Set α

namespace Lane

variable {α : Type*} [Preorder α] {l l' : Lane α} {b b' n : α} {q : List α}

/-- The output is in order and before all that is to come, and the side track is between the output
and the queue; every number is below `b`. -/
structure Ordered (l : Lane α) (b : α) : Prop where
  line : (l.out ++ l.queue).Pairwise (· < ·)
  side : ∀ m ∈ l.side, (∀ n ∈ l.out, n < m) ∧ ∀ n ∈ l.queue, m < n
  below : ∀ n ∈ l.out ++ l.queue, n < b
  belowSide : ∀ n ∈ l.side, n < b

/-- Items may be lost. -/
theorem Ordered.shrink (h : l.Ordered b) (ho : l'.out.Sublist l.out)
    (hq : l'.queue.Sublist l.queue) (hs : l'.side ⊆ l.side) (hb : b ≤ b') : l'.Ordered b' where
  line := h.line.sublist (ho.append hq)
  side m hm := by
    obtain ⟨hout, hqueue⟩ := h.side m (hs hm)
    exact ⟨fun n hn => hout n (ho.subset hn), fun n hn => hqueue n (hq.subset hn)⟩
  below n hn := (h.below n ((ho.append hq).subset hn)).trans_le hb
  belowSide n hn := (h.belowSide n (hs hn)).trans_le hb

/-- A new item joins the queue. -/
theorem Ordered.ask (h : l.Ordered b) (hn : b ≤ n) (hb : n < b') :
    ({ l with queue := l.queue ++ [n] } : Lane α).Ordered b' where
  line := by
    rw [← List.append_assoc, List.pairwise_append]
    refine ⟨h.line, List.pairwise_singleton _ _, ?_⟩
    intro m hm k hk
    obtain rfl := List.mem_singleton.mp hk
    exact (h.below m hm).trans_le hn
  side m hm := by
    obtain ⟨hout, hqueue⟩ := h.side m hm
    refine ⟨hout, fun k hk => ?_⟩
    rcases List.mem_append.mp hk with hk | hk
    · exact hqueue k hk
    · obtain rfl := List.mem_singleton.mp hk
      exact (h.belowSide m hm).trans_le hn
  below m hm := by
    rw [← List.append_assoc] at hm
    rcases List.mem_append.mp hm with hm | hm
    · exact ((h.below m hm).trans_le hn).trans hb
    · obtain rfl := List.mem_singleton.mp hm
      exact hb
  belowSide m hm := ((h.belowSide m hm).trans_le hn).trans hb

/-- The first item of the queue is put out, past no older one. -/
theorem Ordered.hand (h : l.Ordered b) (hq : l.queue = n :: q) (hs : ∀ m ∈ l.side, ¬ m < n) :
    ({ l with out := l.out ++ [n], queue := q } : Lane α).Ordered b := by
  have he : l.out ++ [n] ++ q = l.out ++ l.queue := by
    rw [hq, List.append_assoc, List.singleton_append]
  constructor
  · exact he ▸ h.line
  · intro m hm
    exact absurd ((h.side m hm).2 n (hq ▸ List.mem_cons_self)) (hs m hm)
  · exact fun m hm => h.below m (he ▸ hm)
  · exact h.belowSide

/-- A new item is put out at once while nothing else is on its way. -/
theorem Ordered.send (h : l.Ordered b) (hq : l.queue = []) (hs : l.side = ∅) (hn : b ≤ n)
    (hb : n < b') : ({ l with out := l.out ++ [n] } : Lane α).Ordered b' := by
  have hask := h.ask hn hb
  rw [hq] at hask
  have hout := hask.hand rfl (by simp [hs])
  exact hq ▸ hout

/-- The first item of the queue takes the side track. -/
theorem Ordered.detour (h : l.Ordered b) (hq : l.queue = n :: q) :
    ({ l with queue := q, side := insert n l.side } : Lane α).Ordered b := by
  have hsub : (l.out ++ q).Sublist (l.out ++ l.queue) := by
    rw [hq]
    exact (List.Sublist.refl _).append (List.sublist_cons_self n q)
  have hline := h.line
  rw [hq, List.pairwise_append, List.pairwise_cons] at hline
  constructor
  · exact h.line.sublist hsub
  · rintro m (rfl | hm)
    · exact ⟨fun k hk => hline.2.2 k hk m List.mem_cons_self, hline.2.1.1⟩
    · obtain ⟨hout, hqueue⟩ := h.side m hm
      exact ⟨hout, fun k hk => hqueue k (hq ▸ List.mem_cons_of_mem n hk)⟩
  · exact fun m hm => h.below m (hsub.subset hm)
  · rintro m (rfl | hm)
    · exact h.below m (by simp [hq])
    · exact h.belowSide m hm

/-- The oldest item of the side track is put out. -/
theorem Ordered.join {side : Set α} (h : l.Ordered b) (hn : n ∈ l.side) (hs : side ⊆ l.side)
    (hlt : ∀ m ∈ side, n < m) :
    ({ l with out := l.out ++ [n], side := side } : Lane α).Ordered b := by
  obtain ⟨hout, hqueue⟩ := h.side n hn
  have hline := List.pairwise_append.mp h.line
  constructor
  · rw [List.append_assoc, List.pairwise_append]
    refine ⟨hline.1, ?_, ?_⟩
    · rw [List.singleton_append, List.pairwise_cons]
      exact ⟨hqueue, hline.2.1⟩
    · intro m hm k hk
      rcases List.mem_cons.mp hk with rfl | hk
      · exact hout m hm
      · exact hline.2.2 m hm k hk
  · intro m hm
    refine ⟨fun k hk => ?_, (h.side m (hs hm)).2⟩
    rcases List.mem_append.mp hk with hk | hk
    · exact (h.side m (hs hm)).1 k hk
    · obtain rfl := List.mem_singleton.mp hk
      exact hlt m hm
  · intro m hm
    rw [List.append_assoc] at hm
    rcases List.mem_append.mp hm with hm | hm
    · exact h.below m (List.mem_append_left _ hm)
    · rcases List.mem_cons.mp hm with rfl | hm
      · exact h.belowSide m hn
      · exact h.below m (List.mem_append_right _ hm)
  · exact fun m hm => h.belowSide m (hs hm)

end Lane
