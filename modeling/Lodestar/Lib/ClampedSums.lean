import Mathlib.Algebra.BigOperators.Group.List.Basic
import Mathlib.Algebra.Order.Group.MinMax
/-!
# ClampedSums — a running total that is kept from going below zero

Amounts are added one after the other, and whenever the total would be negative it is zero instead.  The end is the greatest of the
plain sum and of the sums of what is still to come at each point (`foldl_addClamped_le_iff`).  So one clamp at the end is enough just
when the plain total is never negative before a gain: `foldl_addClamped_eq_iff`.
-/
namespace Lib

variable {α : Type} [AddCommGroup α] [LinearOrder α] [IsOrderedAddMonoid α]

def addClamped (total amount : α) : α := max 0 (total + amount)

theorem foldl_addClamped_le_iff : ∀ (amounts : List α) (total x : α), amounts.foldl addClamped total ≤ x ↔
    total + amounts.sum ≤ x ∧ ∀ before after, amounts = before ++ after → before ≠ [] → after.sum ≤ x
  | [], total, x => by
    rw [List.foldl_nil, List.sum_nil, add_zero]
    refine ⟨fun h => ⟨h, fun before after hsplit hne => ?_⟩, fun h => h.1⟩
    exact absurd (List.append_eq_nil_iff.1 hsplit.symm).1 hne
  | amount :: amounts, total, x => by
    have hfirst : addClamped total amount + amounts.sum ≤ x ↔ amounts.sum ≤ x ∧ total + (amount + amounts.sum) ≤ x := by
      unfold addClamped
      rw [max_add, zero_add, max_le_iff, add_assoc]
    rw [List.foldl_cons, foldl_addClamped_le_iff amounts, hfirst, List.sum_cons]
    constructor
    · rintro ⟨⟨hrest, hall⟩, hsplits⟩
      refine ⟨hall, fun before after hsplit hne => ?_⟩
      rcases before with _ | ⟨b, before⟩
      · exact absurd rfl hne
      · obtain ⟨-, hsplit⟩ := List.cons.inj hsplit
        by_cases hbefore : before = []
        · subst hbefore
          obtain rfl : amounts = after := hsplit
          exact hrest
        · exact hsplits before after hsplit hbefore
    · rintro ⟨hall, hsplits⟩
      refine ⟨⟨hsplits [amount] amounts rfl (List.cons_ne_nil _ _), hall⟩, fun before after hsplit hne => ?_⟩
      exact hsplits (amount :: before) after (by rw [hsplit]; rfl) (List.cons_ne_nil _ _)

/-- **Clamping at every step is clamping once** just when no negative total is followed by a gain. -/
theorem foldl_addClamped_eq_iff (amounts : List α) {total : α} (h : 0 ≤ total) :
    amounts.foldl addClamped total = max 0 (total + amounts.sum) ↔
      ∀ before after, amounts = before ++ after → after.sum ≤ 0 ∨ 0 ≤ total + before.sum := by
  have hle := foldl_addClamped_le_iff amounts total (max 0 (total + amounts.sum))
  have hge : max 0 (total + amounts.sum) ≤ amounts.foldl addClamped total := by
    obtain ⟨hall, hsplits⟩ := (foldl_addClamped_le_iff amounts total _).1 le_rfl
    refine max_le ?_ hall
    by_cases hnil : amounts = []
    · subst hnil
      exact h
    · have hend := hsplits amounts [] (List.append_nil _).symm hnil
      rwa [List.sum_nil] at hend
  constructor
  · intro heq before after hsplit
    by_cases hbefore : before = []
    · subst hbefore
      right
      rw [List.sum_nil, add_zero]
      exact h
    · have hafter := (hle.1 heq.le).2 before after hsplit hbefore
      rw [hsplit, List.sum_append, ← add_assoc, le_max_iff] at hafter
      rcases hafter with hafter | hafter
      · exact .inl hafter
      · exact .inr (le_of_add_le_add_right (by rwa [zero_add]))
  · intro hsplits
    refine le_antisymm (hle.2 ⟨le_max_right _ _, fun before after hsplit _ => ?_⟩) hge
    rw [hsplit, List.sum_append, ← add_assoc, le_max_iff]
    rcases hsplits before after hsplit with hafter | hbefore
    · exact .inl hafter
    · right
      have hsum := add_le_add_left hbefore after.sum
      rwa [zero_add] at hsum

end Lib
