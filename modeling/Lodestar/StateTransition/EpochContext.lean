import Lodestar.StateTransition.Shuffling
/-!
# EpochContext — what is computed once per epoch and kept beside the state

`createEpochContext` computes the shufflings of three epochs, the proposers and the rewards from a state; `rotateEpochs`
shifts them by one epoch, with the shuffling of one more epoch.  `createCachedBeaconState` puts a context beside a state.
-/
namespace Lodestar.StateTransition

open Lib

variable {P : Preset} (env : Env P) (cfg : ChainConfig)

/-! ## Public keys -/

/-- `arr[index] = value`: past the end it leaves holes. -/
def setWithHoles {α : Type} (l : List (Option α)) (index : Nat) (value : α) : List (Option α) :=
  if index < l.length then l.set index (some value) else l ++ List.replicate (index - l.length) none ++ [some value]

def syncPubkeys (state : BeaconState P) (pubkey2index : OrderedMap BLSPubkey Nat) (index2pubkey : List (Option BLSPubkey)) :
    Except String (OrderedMap BLSPubkey Nat × List (Option BLSPubkey)) := do
  let currentCount := pubkey2index.size
  check (currentCount = index2pubkey.length)
    s!"Pubkey indices have fallen out of sync: {currentCount} != {index2pubkey.length}"
  (state.validators.zipIdx.drop currentCount).foldlM (fun keys entry => do
    check (env.publicKeyFromBytes entry.1.pubkey false) "invalid public key"
    pure (keys.1.set entry.1.pubkey entry.2, keys.2 ++ [some entry.1.pubkey])) (pubkey2index, index2pubkey)

def EpochContext.addPubkey (epochCtx : EpochContext) (index : Nat) (pubkey : BLSPubkey) : Except String EpochContext := do
  check (env.publicKeyFromBytes pubkey false) "invalid public key"
  pure { epochCtx with
    pubkey2index := epochCtx.pubkey2index.set pubkey index
    index2pubkey := setWithHoles epochCtx.index2pubkey index pubkey }

/-! ## Rewards of an epoch -/

def computeBaseRewardPerIncrement (P : Preset) (totalActiveStake : Nat) : Nat :=
  P.EFFECTIVE_BALANCE_INCREMENT * P.BASE_REWARD_FACTOR / bigIntSqrt totalActiveStake

def computeSyncParticipantReward (P : Preset) (totalActiveBalance : Nat) : Nat :=
  let totalActiveIncrements := totalActiveBalance / P.EFFECTIVE_BALANCE_INCREMENT
  let baseRewardPerIncrement := P.EFFECTIVE_BALANCE_INCREMENT * P.BASE_REWARD_FACTOR / bigIntSqrt totalActiveBalance
  let totalBaseRewards := baseRewardPerIncrement * totalActiveIncrements
  let maxParticipantRewards := totalBaseRewards * SYNC_REWARD_WEIGHT / WEIGHT_DENOMINATOR / P.SLOTS_PER_EPOCH
  maxParticipantRewards / P.SYNC_COMMITTEE_SIZE

def computeSyncProposerReward (syncParticipantReward : Nat) : Nat :=
  syncParticipantReward * PROPOSER_WEIGHT / (WEIGHT_DENOMINATOR - PROPOSER_WEIGHT)

/-! ## Creating and rotating -/

structure EpochContextOpts where
  pubkey2index : Option (OrderedMap BLSPubkey Nat)
  index2pubkey : Option (List (Option BLSPubkey))
  skipSyncPubkeys : Bool

def noOpts : EpochContextOpts := { pubkey2index := none, index2pubkey := none, skipSyncPubkeys := false }

def createEpochContext (state : BeaconState P) (opts : EpochContextOpts) : Except String EpochContext := do
  let pubkeys := (opts.pubkey2index.getD .empty, opts.index2pubkey.getD [])
  let pubkeys ← (if opts.skipSyncPubkeys then pure pubkeys else syncPubkeys env state pubkeys.1 pubkeys.2)
  let currentEpoch := computeEpochAtSlot P state.slot
  let previousEpoch := if currentEpoch = GENESIS_EPOCH then GENESIS_EPOCH else currentEpoch - 1
  let nextEpoch := currentEpoch + 1
  let bounded := indicesBounded state.validators
  let currentShuffling ← computeEpochShuffling env state bounded currentEpoch
  -- in case of genesis
  let previousShuffling ← (if previousEpoch = currentEpoch then pure currentShuffling
    else computeEpochShuffling env state bounded previousEpoch)
  let nextShuffling ← computeEpochShuffling env state bounded nextEpoch
  -- Allow to create CachedBeaconState for empty states
  let proposers ← (if 0 < state.validators.length then computeProposers env state currentShuffling else pure [])
  let onAltairFork := decide (cfg.ALTAIR_FORK_EPOCH ≤ currentEpoch)
  let totalActiveBalance ← getTotalActiveBalance state
  let syncParticipantReward := if onAltairFork then computeSyncParticipantReward P totalActiveBalance else 0
  let syncProposerReward := if onAltairFork then computeSyncProposerReward syncParticipantReward else 0
  let baseRewardPerIncrement := if onAltairFork then computeBaseRewardPerIncrement P totalActiveBalance else 0
  pure {
    pubkey2index := pubkeys.1, index2pubkey := pubkeys.2, proposers, previousShuffling, currentShuffling, nextShuffling,
    syncParticipantReward, syncProposerReward, baseRewardPerIncrement }

def rotateEpochs (epochCtx : EpochContext) (state : BeaconState P) : Except String EpochContext := do
  let previousShuffling := epochCtx.currentShuffling
  let currentShuffling := epochCtx.nextShuffling
  let currEpoch := currentShuffling.epoch
  let nextEpoch := currEpoch + 1
  let nextShuffling ← computeEpochShuffling env state (indicesBounded state.validators) nextEpoch
  let proposers ← computeProposers env state currentShuffling
  let epochCtx := { epochCtx with previousShuffling, currentShuffling, nextShuffling, proposers }
  if cfg.ALTAIR_FORK_EPOCH ≤ (currEpoch : ℕ∞) then
    let totalActiveBalance ← getTotalActiveBalance state
    let syncParticipantReward := computeSyncParticipantReward P totalActiveBalance
    pure { epochCtx with
      syncParticipantReward
      syncProposerReward := computeSyncProposerReward syncParticipantReward
      baseRewardPerIncrement := computeBaseRewardPerIncrement P totalActiveBalance }
  else pure epochCtx

/-! ## Reading -/

namespace EpochContext

def getShufflingAtEpoch (epochCtx : EpochContext) (epoch : Nat) : Except String EpochShuffling :=
  if epoch = epochCtx.previousShuffling.epoch then pure epochCtx.previousShuffling
  else if epoch = epochCtx.currentShuffling.epoch then pure epochCtx.currentShuffling
  else if epoch = epochCtx.nextShuffling.epoch then pure epochCtx.nextShuffling
  else throw s!"Requesting slot committee out of range epoch: {epoch} current: {epochCtx.currentShuffling.epoch}"

section

variable (P : Preset) (epochCtx : EpochContext)

def getBeaconCommittee (slot index : Nat) : Except String (List Nat) := do
  let shuffling ← epochCtx.getShufflingAtEpoch (computeEpochAtSlot P slot)
  let slotCommittees ← getAt typeError shuffling.committees (slot % P.SLOTS_PER_EPOCH)
  getAt "EPOCH_CONTEXT_ERROR_COMMITTEE_INDEX_OUT_OF_RANGE" slotCommittees index

def getCommitteeCountPerSlot (epochCtx : EpochContext) (epoch : Nat) : Except String Nat := do
  let shuffling ← epochCtx.getShufflingAtEpoch epoch
  pure shuffling.committeesPerSlot

/-- With no proposers the entry is `undefined`, which equals no index and counts as none. -/
def getBeaconProposer (slot : Nat) : Except String Int := do
  let epoch := computeEpochAtSlot P slot
  check (epoch = epochCtx.currentShuffling.epoch)
    s!"Requesting beacon proposer for different epoch current shuffling: {epoch} != {epochCtx.currentShuffling.epoch}"
  getAt typeError epochCtx.proposers (slot % P.SLOTS_PER_EPOCH)

def getAttestingIndices (data : AttestationData) (bits : List Bool) : Except String (List Nat) := do
  let committeeIndices ← epochCtx.getBeaconCommittee P data.slot data.index
  pure (zipIndexesCommitteeBits committeeIndices bits)

def getIndexedAttestation (attestation : Attestation) : Except String IndexedAttestation := do
  let attestingIndices ← epochCtx.getAttestingIndices P attestation.data attestation.aggregationBits
  pure {
    attestingIndices := attestingIndices.insertionSort (· ≤ ·)
    data := attestation.data
    signature := attestation.signature }

end

end EpochContext

/-- The place of a proposer in a list; `-1` is in none. -/
def asIndex : Int → Except String Nat
  | .ofNat index => pure index
  | .negSucc _ => throw typeError

/-! ## Sync committees and the cached state -/

def emptyIndexedSyncCommittee (P : Preset) : IndexedSyncCommittee :=
  { committee := { pubkeys := List.replicate P.SYNC_COMMITTEE_SIZE (Vector.replicate 48 0), aggregatePubkey := Vector.replicate 48 0 }
    validatorIndices := [] }

def convertToIndexedSyncCommittee (syncCommittee : SyncCommittee) (pubkey2index : OrderedMap BLSPubkey Nat) :
    IndexedSyncCommittee :=
  { committee := syncCommittee, validatorIndices := syncCommittee.pubkeys.filterMap pubkey2index.get? }

def emptyParticipationStatus : ParticipationStatus :=
  { timelyHead := false, timelyTarget := false, timelySource := false }

def createCachedBeaconState (state : BeaconState P) (opts : EpochContextOpts) : Except String (CachedBeaconState P) := do
  let epochCtx ← createEpochContext env cfg state opts
  match getForkName P cfg state.slot with
  | .phase0 =>
    pure {
      toBeaconState := { state with
        previousEpochParticipation := List.replicate state.validators.length emptyParticipationStatus
        currentEpochParticipation := List.replicate state.validators.length emptyParticipationStatus
        inactivityScores := [] }
      epochCtx
      currentIndexedSyncCommittee := emptyIndexedSyncCommittee P
      nextIndexedSyncCommittee := emptyIndexedSyncCommittee P }
  | .altair =>
    pure {
      toBeaconState := state
      epochCtx
      currentIndexedSyncCommittee := convertToIndexedSyncCommittee state.currentSyncCommittee epochCtx.pubkey2index
      nextIndexedSyncCommittee := convertToIndexedSyncCommittee state.nextSyncCommittee epochCtx.pubkey2index }

end Lodestar.StateTransition
