import Lodestar.ReqResp.BlocksByRange
/-!
# SequentialBlocks — which responses to a range request are accepted

The client looks at the first and the last slot, at the number of blocks, and at the distance of neighbours.  It accepts exactly
the blocks in the span of the request that are at least a step apart; whether a slot is one of those requested it does not ask
(`assertSequentialBlocksInRange_iff`).
-/
namespace Lodestar.ReqResp

variable {request : BeaconBlocksByRangeRequest} {step : Nat} {slots : List Nat}

def StepsApart (step : Nat) (slots : List Nat) : Prop := slots.IsChain fun slotL slotR => slotL + step ≤ slotR

/-- A slot from the first requested one up to the step after the last. -/
def InSpan (request : BeaconBlocksByRangeRequest) (slot : Nat) : Prop :=
  request.startSlot ≤ slot ∧ slot < request.startSlot + request.count * request.step

theorem assertSequence_ok_iff : ∀ {slots : List Nat}, assertSequence step slots = .ok () ↔ StepsApart step slots
  | [] => by simp [assertSequence, StepsApart]
  | [_] => by simp [assertSequence, StepsApart]
  | slotL :: slotR :: slots => by
    unfold assertSequence StepsApart
    rw [List.isChain_cons_cons]
    by_cases hgap : slotL + step > slotR
    · rw [if_pos hgap]
      exact ⟨fun h => absurd h (by simp), fun h => absurd h.1 (by omega)⟩
    · rw [if_neg hgap, assertSequence_ok_iff]
      exact ⟨fun h => ⟨by omega, h⟩, fun h => h.2⟩

namespace StepsApart

theorem pairwise (h : StepsApart step slots) : slots.Pairwise fun slotL slotR => slotL + step ≤ slotR := by
  have htrans : IsTrans Nat fun slotL slotR => slotL + step ≤ slotR := ⟨fun a b c hab hbc => by omega⟩
  exact List.isChain_iff_pairwise.1 h

theorem bounds (h : StepsApart step slots) {firstSlot lastSlot : Nat} (hfirst : slots.head? = some firstSlot)
    (hlast : slots.getLast? = some lastSlot) {slot : Nat} (hslot : slot ∈ slots) : firstSlot ≤ slot ∧ slot ≤ lastSlot := by
  have hpairwise := h.pairwise
  constructor
  · obtain ⟨rest, rfl⟩ := List.head?_eq_some_iff.1 hfirst
    rcases List.mem_cons.1 hslot with rfl | hmem
    · exact Nat.le_refl _
    · have := (List.pairwise_cons.1 hpairwise).1 slot hmem
      omega
  · obtain ⟨init, rfl⟩ := List.getLast?_eq_some_iff.1 hlast
    rcases List.mem_append.1 hslot with hmem | hmem
    · have := (List.pairwise_append.1 hpairwise).2.2 slot hmem lastSlot List.mem_cons_self
      omega
    · rw [List.mem_singleton.1 hmem]

theorem length_le : ∀ {slots : List Nat} {firstSlot lastSlot : Nat}, StepsApart step slots → slots.head? = some firstSlot →
    slots.getLast? = some lastSlot → firstSlot + slots.length * step ≤ lastSlot + step
  | [_], firstSlot, lastSlot, _, hfirst, hlast => by
    cases hfirst
    cases hlast
    simp
  | slotL :: slotR :: slots, firstSlot, lastSlot, h, hfirst, hlast => by
    obtain ⟨hgap, hrest⟩ := List.isChain_cons_cons.1 h
    have hlength := length_le hrest rfl (List.getLast?_cons_cons ▸ hlast)
    cases hfirst
    rw [List.length_cons, Nat.succ_mul]
    omega

end StepsApart

theorem assertSequentialBlocksInRange_ok_iff (hstep : 1 ≤ request.step) (slots : List Nat) :
    assertSequentialBlocksInRange slots request = .ok () ↔ StepsApart request.step slots ∧ ∀ slot ∈ slots, InSpan request slot := by
  unfold assertSequentialBlocksInRange
  cases hhead : slots.head? with
  | none =>
    rw [List.head?_eq_none_iff.1 hhead]
    exact ⟨fun _ => ⟨List.IsChain.nil, by simp⟩, fun _ => rfl⟩
  | some firstSlot =>
    obtain ⟨lastSlot, hlast⟩ : ∃ lastSlot, slots.getLast? = some lastSlot := by
      refine Option.ne_none_iff_exists'.1 fun hnone => ?_
      rw [List.getLast?_eq_none_iff.1 hnone] at hhead
      cases hhead
    have hfirstMem := List.mem_of_mem_head? hhead
    have hlastMem := List.mem_of_mem_getLast? hlast
    rw [hlast]
    dsimp only
    rw [if_neg (c := request.step = 0) (by omega)]
    constructor
    · intro haccepted
      split at haccepted
      · cases haccepted
      · split at haccepted
        · cases haccepted
        · split at haccepted
          · cases haccepted
          · rename_i hlength hlow hhigh
            have happart := assertSequence_ok_iff.1 haccepted
            have hpos : 0 < request.count * request.step := by
              have := List.length_pos_of_mem hfirstMem
              exact Nat.mul_pos (by omega) hstep
            refine ⟨happart, fun slot hslot => ?_⟩
            obtain ⟨hfirst, hlast⟩ := happart.bounds hhead hlast hslot
            exact ⟨by omega, by omega⟩
    · rintro ⟨happart, hspan⟩
      have hfirst := (hspan firstSlot hfirstMem).1
      have hlast' := (hspan lastSlot hlastMem).2
      -- more blocks than steps do not fit the span
      have hcount : slots.length ≤ request.count := by
        have hlength := happart.length_le hhead hlast
        by_contra hmore
        have := Nat.mul_le_mul_right request.step (Nat.not_le.1 hmore)
        rw [Nat.succ_mul] at this
        omega
      rw [if_neg (by omega), if_neg (by omega), if_neg (by omega)]
      exact assertSequence_ok_iff.2 happart

/-- **What the client accepts.**  Slots of the span that are at least a step apart, and nothing else; so all requested slots in
their order, and only these among the slots that are whole steps from the first. -/
theorem assertSequentialBlocksInRange_iff (hstep : 1 ≤ request.step) (slots : List Nat) :
    (assertSequentialBlocksInRange slots request = .ok () ↔
      StepsApart request.step slots ∧ ∀ slot ∈ slots, InSpan request slot) ∧
    (slots.Pairwise (· < ·) ∧ (∀ slot ∈ slots, Requested request slot) → assertSequentialBlocksInRange slots request = .ok ()) ∧
    ((∀ slot ∈ slots, (slot - request.startSlot : Int) % request.step = 0) →
      (assertSequentialBlocksInRange slots request = .ok () ↔
        slots.Pairwise (· < ·) ∧ ∀ slot ∈ slots, Requested request slot)) := by
  have hrequested : slots.Pairwise (· < ·) ∧ (∀ slot ∈ slots, Requested request slot) →
      assertSequentialBlocksInRange slots request = .ok () := fun h => assertSequentialBlocksInRange_ok hstep h.1 h.2
  refine ⟨assertSequentialBlocksInRange_ok_iff hstep slots, hrequested, fun hwhole => ⟨fun haccepted => ?_, hrequested⟩⟩
  obtain ⟨happart, hspan⟩ := (assertSequentialBlocksInRange_ok_iff hstep slots).1 haccepted
  exact ⟨happart.pairwise.imp fun hle => by omega, fun slot hslot => (requested_iff hstep).2 ⟨hspan slot hslot, hwhole slot hslot⟩⟩

/-- A request of the slots 1, 4 and 7: what is said of two responses. -/
theorem assertSequentialBlocksInRange_iff_steps :
    (StepsApart 3 [1, 4, 9] ∧ ∀ slot ∈ [1, 4, 9], InSpan ⟨1, 3, 3⟩ slot) ∧
      assertSequentialBlocksInRange [1, 7] ⟨1, 3, 3⟩ = .ok () ∧ ∀ slot ∈ [1, 7], Requested ⟨1, 3, 3⟩ slot := by
  have h := @assertSequentialBlocksInRange_iff ⟨1, 3, 3⟩ (by decide)
  have hrequested : ∀ slot ∈ [1, 7], Requested ⟨1, 3, 3⟩ slot := by
    intro slot hslot
    rcases List.mem_cons.1 hslot with rfl | hslot
    · exact ⟨0, by decide, rfl⟩
    · exact ⟨2, by decide, List.mem_singleton.1 hslot⟩
  have haccepted : assertSequentialBlocksInRange [1, 7] ⟨1, 3, 3⟩ = .ok () := (h [1, 7]).2.1 ⟨by decide, hrequested⟩
  exact ⟨(h [1, 4, 9]).1.1 (by decide), haccepted, (((h [1, 7]).2.2 (by decide)).1 haccepted).2⟩

/-- Slot 9 is accepted for a request of the slots 1, 4 and 7. -/
theorem assertSequentialBlocksInRange_accepts_unrequested :
    ¬ ∀ (slots : List Nat) (request : BeaconBlocksByRangeRequest), 1 ≤ request.count → 1 ≤ request.step →
      (assertSequentialBlocksInRange slots request = .ok () ↔
        slots.Pairwise (· < ·) ∧ ∀ slot ∈ slots, Requested request slot) := by
  intro h
  have haccepted : assertSequentialBlocksInRange [1, 4, 9] ⟨1, 3, 3⟩ = .ok () := by decide
  obtain ⟨k, -, hk⟩ := ((h [1, 4, 9] ⟨1, 3, 3⟩ (by decide) (by decide)).1 haccepted).2 9 (by decide)
  dsimp only at hk
  omega

end Lodestar.ReqResp
