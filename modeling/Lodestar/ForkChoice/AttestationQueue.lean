import Lodestar.ForkChoice.ForkChoiceRuns
/-!
# AttestationQueue — attestations of the current slot

An attestation of the current slot should wait in the queue and count once the clock is past its slot (`CountsOnceLater`).
`validateOnAttestation` refuses every attestation that is not of an earlier slot, so the branch of `onAttestation` that queues
is never reached: `onAttestation_queue`.
-/
namespace Lodestar

open Lib

namespace ForkChoice

variable {P : Preset}

/-! ## What is asked for -/

/-- The attestation passes every check of `validateOnAttestation` but the one on its slot, which is the current one. -/
structure ValidInItsSlot (P : Preset) (fc : ForkChoice) (attestation : IndexedAttestation) : Prop where
  slot : attestation.slot = fc.fcStore.currentSlot
  indices : attestation.attestingIndices ≠ []
  epoch : attestation.target.epoch = computeEpochAtSlot P attestation.slot
  target : fc.protoArray.hasBlock attestation.target.root = true
  block : ∃ block, fc.protoArray.getBlock attestation.beaconBlockRoot = some block ∧ block.slot ≤ attestation.slot ∧
    (if attestation.target.epoch > computeEpochAtSlot P block.slot then attestation.beaconBlockRoot else block.targetRoot) =
      attestation.target.root

def toQueued (attestation : IndexedAttestation) : QueuedAttestation :=
  { slot := attestation.slot, attestingIndices := attestation.attestingIndices, blockRoot := attestation.beaconBlockRoot,
    targetEpoch := attestation.target.epoch }

def countedVotes (fc : ForkChoice) (slot : Nat) : List (Option VoteTracker) :=
  ((fc.queuedAttestations.filter fun queued => decide (queued.slot < slot)).foldl
    (fun fc queued => fc.addLatestMessages queued.attestingIndices queued.targetEpoch queued.blockRoot) fc).votes

def StaysIn (P : Preset) (slot : Nat) : ForkChoice → List Op → Prop :=
  Along P fun fc op => (op.run P fc).fcStore.currentSlot = slot

/-- The attestation is accepted and queued; through any calls during its slot it stays queued and the votes are those of a run
without it; the first `updateTime` to a later slot takes it from the queue and counts it once. -/
structure CountsOnceLater (P : Preset) (fc : ForkChoice) (attestation : IndexedAttestation) : Prop where
  accepted : (fc.onAttestation P attestation).1 = .ok ()
  queued : (fc.onAttestation P attestation).2.queuedAttestations = fc.queuedAttestations ++ [toQueued attestation]
  waits : ∀ ops, StaysIn P attestation.slot (fc.onAttestation P attestation).2 ops →
    toQueued attestation ∈ (runOps P (fc.onAttestation P attestation).2 ops).queuedAttestations ∧
    (runOps P (fc.onAttestation P attestation).2 ops).votes = (runOps P fc ops).votes
  counts : ∀ ops slot, StaysIn P attestation.slot (fc.onAttestation P attestation).2 ops → attestation.slot < slot →
    toQueued attestation ∉ ((runOps P (fc.onAttestation P attestation).2 ops).updateTime P slot).2.queuedAttestations ∧
    ((runOps P (fc.onAttestation P attestation).2 ops).updateTime P slot).2.votes =
      (runOps P (fc.onAttestation P attestation).2 ops).countedVotes slot

/-! ## What happens -/

variable {fc : ForkChoice} {attestation : IndexedAttestation}

theorem validateOnAttestation_slot (h : fc.validateOnAttestation P attestation = .ok ()) :
    attestation.slot < fc.fcStore.currentSlot := by
  unfold validateOnAttestation at h
  dsimp only at h
  by_contra hlt
  split at h
  · cases h
  · split at h
    · cases h
    · split at h
      · cases h
      · split at h
        · cases h
        · rw [if_pos (by omega)] at h
          cases h

theorem addLatestMessages_queue (epoch : Nat) (root : HexRoot) (is : List Nat) (fc : ForkChoice) :
    (fc.addLatestMessages is epoch root).queuedAttestations = fc.queuedAttestations := by
  obtain ⟨votes, synced, heq⟩ := addLatestMessages_frame epoch root is fc
  rw [heq]

theorem onAttestation_queue (fc : ForkChoice) (attestation : IndexedAttestation) :
    (fc.onAttestation P attestation).2.queuedAttestations = fc.queuedAttestations := by
  unfold onAttestation
  split
  · rfl
  · cases hvalid : fc.validateOnAttestation P attestation with
    | error e => rfl
    | ok u =>
      rw [if_pos (validateOnAttestation_slot hvalid)]
      exact addLatestMessages_queue _ _ _ fc

theorem validateOnAttestation_currentSlot (h : ValidInItsSlot P fc attestation) :
    fc.validateOnAttestation P attestation = .error (.FUTURE_SLOT attestation.slot ((fc.fcStore.currentSlot : Int) - 1)) := by
  have hepoch : attestation.target.epoch = computeEpochAtSlot P fc.fcStore.currentSlot := h.slot ▸ h.epoch
  have hindices : attestation.attestingIndices.isEmpty = false := by simpa using h.indices
  have hslot := h.slot
  unfold validateOnAttestation
  rw [hindices, if_neg (by simp), if_neg (by omega), if_neg (by omega), if_neg (not_not.2 h.epoch), if_pos (by omega)]

/-- **No attestation of the current slot counts later**: one that is valid but for its slot is refused as being of a future
slot, and the fork choice stays as it was; one for the zero hash is ignored. -/
theorem onAttestation_currentSlot {fc : ForkChoice} {attestation : IndexedAttestation} (h : ValidInItsSlot P fc attestation) :
    ¬ CountsOnceLater P fc attestation ∧ fc.onAttestation P attestation = if attestation.beaconBlockRoot = HEX_ZERO_HASH
      then (.ok (), fc)
      else (.error (.INVALID_ATTESTATION (.FUTURE_SLOT attestation.slot ((fc.fcStore.currentSlot : Int) - 1))), fc) := by
  constructor
  · intro hcounts
    have hqueued := hcounts.queued
    rw [onAttestation_queue] at hqueued
    have hlength := congrArg List.length hqueued
    rw [List.length_append, List.length_singleton] at hlength
    omega
  · unfold onAttestation
    split
    · rfl
    · rw [validateOnAttestation_currentSlot h]

def attestsInItsSlot : IndexedAttestation := { attestingIndices := [0], slot := 9, beaconBlockRoot := "b", target := ⟨1, "b"⟩ }

def inSlot9 : ForkChoice :=
  runOps minimal atGenesis [.updateTime 9, .onBlock ⟨8, "a", "b", "b"⟩ (stateAt 8 ⟨0, "a"⟩ ⟨0, "a"⟩) none]

theorem attestsInItsSlot_valid : ValidInItsSlot minimal inSlot9 attestsInItsSlot :=
  ⟨by decide, by decide, by decide, by decide, _, rfl, by decide, by decide⟩

theorem onAttestation_currentSlot_inSlot9 : ValidInItsSlot minimal inSlot9 attestsInItsSlot ∧
    ¬ CountsOnceLater minimal inSlot9 attestsInItsSlot :=
  ⟨attestsInItsSlot_valid, (onAttestation_currentSlot attestsInItsSlot_valid).1⟩

/-- The attestation is refused, and no later slot brings it back. -/
theorem onAttestation_drops_vote : ValidInItsSlot minimal inSlot9 attestsInItsSlot ∧
    (inSlot9.onAttestation minimal attestsInItsSlot).1 = .error (.INVALID_ATTESTATION (.FUTURE_SLOT 9 8)) ∧
    ((inSlot9.onAttestation minimal attestsInItsSlot).2.updateTime minimal 10).2.votes = [] ∧
    ¬ CountsOnceLater minimal inSlot9 attestsInItsSlot := by
  have hrefused : (inSlot9.onAttestation minimal attestsInItsSlot).1 = .error (.INVALID_ATTESTATION (.FUTURE_SLOT 9 8)) := by
    decide
  refine ⟨attestsInItsSlot_valid, hrefused, by decide, fun h => ?_⟩
  have haccepted := h.accepted
  cases haccepted

end ForkChoice

end Lodestar
