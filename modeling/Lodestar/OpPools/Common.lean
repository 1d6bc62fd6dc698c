import Mathlib.Data.Nat.Basic
import Lodestar.Lib.Numerals
import Lodestar.Lib.Ranks
import Lodestar.Lib.OrderedMap
/-!
# Common — what the operation pools share

The outcome of adding an aggregatable object, the errors of the pools, and the pruning of a map indexed by slot.

A pool is pruned to its newest slots, but the slots are sorted as texts, and `"9"` is after `"10"`.  What is kept is the newest
exactly where the texts put each of the newest slots after each of the others (`pruneBySlot_keepsNewest_iff`).
-/
namespace Lodestar.OpPools

open Lib Ranks

inductive InsertOutcome
  /-- The data had not been seen before and was added to the pool. -/
  | NewData
  | AlreadyKnown
  /-- The data is known, and the new participants have been added to the aggregated signature. -/
  | Aggregated
deriving DecidableEq, Repr

inductive OpPoolError
  | SLOT_TOO_LOW (slot lowestPermissibleSlot : Nat)
  /-- Reached max number of unique objects per slot. This is a DoS protection function. -/
  | REACHED_MAX_PER_SLOT
deriving DecidableEq, Repr

/-- `slots.sort()`: numbers in the order of their decimal texts. -/
def sortAsText (slots : List Nat) : List Nat := slots.mergeSort (fun a b => !decide (toString b < toString a))

/-- Prune a map indexed by slot to `slotsRetained` slots; the lowest slot that may still be added. -/
def pruneBySlot {α : Type} (map : OrderedMap Nat α) (slot slotsRetained : Nat) : OrderedMap Nat α × Nat :=
  let lowestPermissibleSlot := slot - slotsRetained
  if map.size ≤ slotsRetained then (map, lowestPermissibleSlot)
  else
    let slots := map.entries.map (·.1)
    let slotsToDelete := (sortAsText slots).reverse.drop slotsRetained
    (slotsToDelete.foldl OrderedMap.delete map, lowestPermissibleSlot)

theorem get?_pruneBySlot {α : Type} {map : OrderedMap Nat α} {slot slotsRetained s : Nat} {value : α}
    (h : (pruneBySlot map slot slotsRetained).1.get? s = some value) : map.get? s = some value := by
  unfold pruneBySlot at h
  split at h
  · exact h
  · rw [OrderedMap.get?_foldl_delete] at h
    split at h
    · cases h
    · exact h

/-! ## Which slots are kept -/

section Pruned

variable {α : Type} {map : OrderedMap Nat α} {slotsRetained : Nat}

def slotsOf (map : OrderedMap Nat α) : List Nat := map.entries.map (·.1)

def Newest (map : OrderedMap Nat α) (slotsRetained slot : Nat) : Prop := rank (· > ·) (slotsOf map) slot < slotsRetained

instance (map : OrderedMap Nat α) (slotsRetained slot : Nat) : Decidable (Newest map slotsRetained slot) :=
  inferInstanceAs (Decidable (_ < _))

/-- The newest slots are left, each with what it had, and nothing else. -/
def KeepsNewest (map pruned : OrderedMap Nat α) (slotsRetained : Nat) : Prop :=
  ∀ slot, pruned.get? slot = if Newest map slotsRetained slot then map.get? slot else none

/-! ## Slots in the order of their texts -/

def TextAfter (slot slot' : Nat) : Prop := toString slot' < toString slot

instance : DecidableRel TextAfter := fun slot slot' => inferInstanceAs (Decidable (toString slot' < toString slot))

instance : IsStrictTotalOrder Nat TextAfter where
  trichotomous _ _ h h' := Decimal.toString_inj (String.le_antisymm (String.not_lt.1 h) (String.not_lt.1 h'))
  irrefl _ := String.lt_irrefl _
  trans _ _ _ h h' := String.lt_trans h' h

theorem pairwise_sortAsText (map : OrderedMap Nat α) : (sortAsText (slotsOf map)).reverse.Pairwise TextAfter := by
  have hswap : IsStrictTotalOrder Nat (Function.swap TextAfter) := inferInstance
  rw [List.pairwise_reverse]
  exact @pairwise_mergeSort Nat (Function.swap TextAfter) hswap (slotsOf map) _ map.nodup

theorem perm_sortAsText (slots : List Nat) : (sortAsText slots).reverse.Perm slots :=
  (List.reverse_perm _).trans (List.mergeSort_perm _ _)

/-! ## What is kept -/

theorem get?_pruneBySlot_eq (map : OrderedMap Nat α) (slot slotsRetained s : Nat) :
    (pruneBySlot map slot slotsRetained).1.get? s =
      if rank TextAfter (slotsOf map) s < slotsRetained then map.get? s else none := by
  have hperm := perm_sortAsText (slotsOf map)
  have habsent : s ∉ slotsOf map → map.get? s = none := OrderedMap.get?_eq_none_iff.2
  have hdrop : s ∈ (sortAsText (slotsOf map)).reverse.drop slotsRetained ↔
      s ∈ slotsOf map ∧ ¬ rank TextAfter (slotsOf map) s < slotsRetained := by
    rw [mem_drop_iff (pairwise_sortAsText map), hperm.mem_iff, rank_perm hperm]
  have hread : (pruneBySlot map slot slotsRetained).1.get? s =
      if s ∈ (sortAsText (slotsOf map)).reverse.drop slotsRetained then none else map.get? s := by
    have hlength : (sortAsText (slotsOf map)).reverse.length = map.size := hperm.length_eq.trans (List.length_map _)
    unfold pruneBySlot
    split
    · rename_i hsize
      rw [List.drop_of_length_le (by omega), if_neg List.not_mem_nil]
    · exact OrderedMap.get?_foldl_delete _ map s
  rw [hread]
  by_cases hmem : s ∈ slotsOf map
  · by_cases hrank : rank TextAfter (slotsOf map) s < slotsRetained
    · rw [if_neg fun h => (hdrop.1 h).2 hrank, if_pos hrank]
    · rw [if_pos (hdrop.2 ⟨hmem, hrank⟩), if_neg hrank]
  · rw [habsent hmem, ite_self, ite_self]

/-- **What is kept is the newest exactly where the texts say so**: where the text of each of the `slotsRetained` newest slots is
after the texts of all others. -/
theorem pruneBySlot_keepsNewest_iff (map : OrderedMap Nat α) (slot slotsRetained : Nat) :
    KeepsNewest map (pruneBySlot map slot slotsRetained).1 slotsRetained ↔
      ∀ kept ∈ slotsOf map, ∀ dropped ∈ slotsOf map, Newest map slotsRetained kept → ¬ Newest map slotsRetained dropped →
        toString dropped < toString kept := by
  refine Iff.trans ?_ (@rank_agrees_iff Nat (· > ·) TextAfter _ _ (slotsOf map) _ _ map.nodup slotsRetained)
  constructor
  · intro hkeeps s hs
    obtain ⟨value, hvalue⟩ := Option.ne_none_iff_exists'.1 fun h => OrderedMap.get?_eq_none_iff.1 h hs
    have hread := hkeeps s
    rw [get?_pruneBySlot_eq, hvalue] at hread
    by_cases htext : rank TextAfter (slotsOf map) s < slotsRetained <;> by_cases hnew : Newest map slotsRetained s
    · exact ⟨fun _ => hnew, fun _ => htext⟩
    · rw [if_pos htext, if_neg hnew] at hread
      cases hread
    · rw [if_neg htext, if_pos hnew] at hread
      cases hread
    · exact ⟨fun h => absurd h htext, fun h => absurd h hnew⟩
  · intro hagrees s
    rw [get?_pruneBySlot_eq]
    by_cases hs : s ∈ slotsOf map
    · exact if_congr (hagrees s hs) rfl rfl
    · rw [OrderedMap.get?_eq_none_iff.2 hs, ite_self, ite_self]

def nineToTwelve : OrderedMap Nat Unit := ⟨[(9, ()), (10, ()), (11, ()), (12, ())], by decide⟩

/-- Slot 9 is kept and slot 10 is dropped. -/
theorem pruneBySlot_drops_newer : ¬ KeepsNewest nineToTwelve (pruneBySlot nineToTwelve 12 3).1 3 := by
  intro h
  have hread := h 9
  rw [get?_pruneBySlot_eq] at hread
  exact absurd hread (by decide)

end Pruned

end Lodestar.OpPools
