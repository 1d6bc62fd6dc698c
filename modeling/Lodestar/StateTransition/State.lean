import Mathlib.Data.ENat.Basic
import Lodestar.Params
import Lodestar.Types
import Lodestar.Lib.OrderedMap
/-!
# State — the beacon state, blocks, the epoch context and the cached state

An epoch of a validator record is a `number` or `Infinity` (`FAR_FUTURE_EPOCH`), a balance is a `bigint`.  A vector of the
state has the length its SSZ type gives it.  One record holds the fields of both forks, as the cached state does: a phase0
state carries participation lists and empty sync committees beside its pending attestations.

The participation lists and the balances are modelled by their cached views.  Signature checks, SSZ roots and the hash are
`Env`, any functions at all.
-/
namespace Lodestar.StateTransition

open Lib

abbrev Version := Vector UInt8 4

def FAR_FUTURE_EPOCH : ℕ∞ := ⊤

inductive ForkName
  | phase0
  | altair
deriving DecidableEq, Repr

/-! ## The state -/

structure Validator where
  pubkey : BLSPubkey
  withdrawalCredentials : Root
  effectiveBalance : Nat
  slashed : Bool
  activationEligibilityEpoch : ℕ∞
  activationEpoch : ℕ∞
  exitEpoch : ℕ∞
  withdrawableEpoch : ℕ∞
deriving DecidableEq

structure Fork where
  previousVersion : Version
  currentVersion : Version
  epoch : Nat
deriving DecidableEq

structure BeaconBlockHeader where
  slot : Nat
  proposerIndex : Nat
  parentRoot : Root
  stateRoot : Root
  bodyRoot : Root
deriving DecidableEq

structure Eth1Data where
  depositRoot : Root
  depositCount : Nat
  blockHash : Root
deriving DecidableEq

structure PendingAttestation where
  aggregationBits : List Bool
  data : AttestationData
  inclusionDelay : Nat
  proposerIndex : Int
deriving DecidableEq

structure ParticipationStatus where
  timelyHead : Bool
  timelyTarget : Bool
  timelySource : Bool
deriving DecidableEq

structure SyncCommittee where
  pubkeys : List BLSPubkey
  aggregatePubkey : BLSPubkey
deriving DecidableEq

structure BeaconState (P : Preset) where
  slot : Nat
  fork : Fork
  latestBlockHeader : BeaconBlockHeader
  blockRoots : Vector Root P.SLOTS_PER_HISTORICAL_ROOT
  stateRoots : Vector Root P.SLOTS_PER_HISTORICAL_ROOT
  historicalRoots : List Root
  eth1Data : Eth1Data
  eth1DataVotes : List Eth1Data
  eth1DepositIndex : Nat
  validators : List Validator
  balances : List Nat
  randaoMixes : Vector Root P.EPOCHS_PER_HISTORICAL_VECTOR
  slashings : Vector Nat P.EPOCHS_PER_SLASHINGS_VECTOR
  previousEpochAttestations : List PendingAttestation
  currentEpochAttestations : List PendingAttestation
  previousEpochParticipation : List ParticipationStatus
  currentEpochParticipation : List ParticipationStatus
  justificationBits : Vector Bool 4
  previousJustifiedCheckpoint : Checkpoint
  currentJustifiedCheckpoint : Checkpoint
  finalizedCheckpoint : Checkpoint
  inactivityScores : List Nat
  currentSyncCommittee : SyncCommittee
  nextSyncCommittee : SyncCommittee

/-! ## Blocks -/

structure Attestation where
  aggregationBits : List Bool
  data : AttestationData
  signature : BLSSignature

structure IndexedAttestation where
  attestingIndices : List Nat
  data : AttestationData
  signature : BLSSignature

structure AttesterSlashing where
  attestation1 : IndexedAttestation
  attestation2 : IndexedAttestation

structure SignedBeaconBlockHeader where
  message : BeaconBlockHeader
  signature : BLSSignature

structure ProposerSlashing where
  signedHeader1 : SignedBeaconBlockHeader
  signedHeader2 : SignedBeaconBlockHeader

structure DepositData where
  pubkey : BLSPubkey
  withdrawalCredentials : Root
  amount : Nat
  signature : BLSSignature

structure Deposit where
  proof : List Root
  data : DepositData

structure VoluntaryExit where
  epoch : Nat
  validatorIndex : Nat

structure SignedVoluntaryExit where
  message : VoluntaryExit
  signature : BLSSignature

structure SyncAggregate where
  syncCommitteeBits : List Bool
  syncCommitteeSignature : BLSSignature

structure BeaconBlockBody where
  randaoReveal : BLSSignature
  eth1Data : Eth1Data
  graffiti : Root
  proposerSlashings : List ProposerSlashing
  attesterSlashings : List AttesterSlashing
  attestations : List Attestation
  deposits : List Deposit
  voluntaryExits : List SignedVoluntaryExit
  syncAggregate : SyncAggregate

structure BeaconBlock where
  slot : Nat
  proposerIndex : Nat
  parentRoot : Root
  stateRoot : Root
  body : BeaconBlockBody

structure SignedBeaconBlock where
  message : BeaconBlock
  signature : BLSSignature

/-! ## The caches beside the state -/

structure EpochShuffling where
  epoch : Nat
  activeIndices : List Nat
  shuffling : List Nat
  committees : List (List (List Nat))
  committeesPerSlot : Nat
deriving DecidableEq

structure EpochContext where
  pubkey2index : OrderedMap BLSPubkey Nat
  /-- A key that was parsed is identified with its bytes; an entry never written is a hole. -/
  index2pubkey : List (Option BLSPubkey)
  /-- `-1` where the sampling found no proposer. -/
  proposers : List Int
  previousShuffling : EpochShuffling
  currentShuffling : EpochShuffling
  nextShuffling : EpochShuffling
  syncParticipantReward : Nat
  syncProposerReward : Nat
  baseRewardPerIncrement : Nat

structure IndexedSyncCommittee where
  committee : SyncCommittee
  validatorIndices : List Nat
deriving DecidableEq

structure CachedBeaconState (P : Preset) extends BeaconState P where
  epochCtx : EpochContext
  currentIndexedSyncCommittee : IndexedSyncCommittee
  nextIndexedSyncCommittee : IndexedSyncCommittee

/-! ## What is configured, and what other packages compute -/

structure ChainConfig where
  ALTAIR_FORK_EPOCH : ℕ∞
  ALTAIR_FORK_VERSION : Version
  MIN_VALIDATOR_WITHDRAWABILITY_DELAY : Nat
  SHARD_COMMITTEE_PERIOD : Nat
  INACTIVITY_SCORE_BIAS : Nat
  INACTIVITY_SCORE_RECOVERY_RATE : Nat
  EJECTION_BALANCE : Nat
  MIN_PER_EPOCH_CHURN_LIMIT : Nat
  CHURN_LIMIT_QUOTIENT : Nat
  inactivityScoreBias_pos : 0 < INACTIVITY_SCORE_BIAS
  churnLimitQuotient_pos : 0 < CHURN_LIMIT_QUOTIENT

theorem minimalInactivityScoreBias_pos : 0 < 4 := Nat.succ_pos 3

theorem minimalChurnLimitQuotient_pos : 0 < 65536 := Nat.succ_pos 65535

def minimalConfig (altairForkEpoch : ℕ∞) : ChainConfig where
  ALTAIR_FORK_EPOCH := altairForkEpoch
  ALTAIR_FORK_VERSION := #v[1, 0, 0, 1]
  MIN_VALIDATOR_WITHDRAWABILITY_DELAY := 256
  SHARD_COMMITTEE_PERIOD := 64
  INACTIVITY_SCORE_BIAS := 4
  INACTIVITY_SCORE_RECOVERY_RATE := 16
  EJECTION_BALANCE := 16000000000
  MIN_PER_EPOCH_CHURN_LIMIT := 4
  CHURN_LIMIT_QUOTIENT := 65536
  inactivityScoreBias_pos := minimalInactivityScoreBias_pos
  churnLimitQuotient_pos := minimalChurnLimitQuotient_pos

structure Env (P : Preset) where
  hash : List UInt8 → Root
  stateRoot : ForkName → BeaconState P → Root
  headerRoot : BeaconBlockHeader → Root
  bodyRoot : ForkName → BeaconBlockBody → Root
  depositDataRoot : DepositData → Root
  historicalBatchRoot : Vector Root P.SLOTS_PER_HISTORICAL_ROOT → Vector Root P.SLOTS_PER_HISTORICAL_ROOT → Root
  /-- Whether `bls.PublicKey.fromBytes(bytes, type, validate)` returns. -/
  publicKeyFromBytes : BLSPubkey → (validate : Bool) → Bool
  /-- Validation is a further check on a key that parses. -/
  publicKeyFromBytes_of_validate : ∀ pubkey, publicKeyFromBytes pubkey true = true → publicKeyFromBytes pubkey false = true
  verifyDepositSignature : DepositData → Bool
  aggregatePublicKeys : List BLSPubkey → Except String BLSPubkey
  verifyProposerSignature : CachedBeaconState P → SignedBeaconBlock → Except String Bool
  verifyRandaoSignature : CachedBeaconState P → BeaconBlock → Except String Bool
  verifyIndexedAttestationSignature : CachedBeaconState P → IndexedAttestation → Except String Bool
  /-- The first or the second of `getProposerSlashingSignatureSets`. -/
  verifyProposerSlashingSignature : CachedBeaconState P → ProposerSlashing → (second : Bool) → Except String Bool
  verifyVoluntaryExitSignature : CachedBeaconState P → SignedVoluntaryExit → Except String Bool
  /-- `verifySignatureSet` of `getSyncCommitteeSignatureSet` for these participants. -/
  verifySyncCommitteeSignature : CachedBeaconState P → BeaconBlock → List Nat → Except String Bool
  /-- How many candidates the sampling of a sync committee tries; the source goes on until the committee is full. -/
  samplingBound : Nat

/-- An environment in which every signature verifies and every root is zero. -/
def plainEnv (P : Preset) : Env P where
  hash _ := zeroRoot
  stateRoot _ _ := zeroRoot
  headerRoot _ := zeroRoot
  bodyRoot _ _ := zeroRoot
  depositDataRoot _ := zeroRoot
  historicalBatchRoot _ _ := zeroRoot
  publicKeyFromBytes _ _ := true
  publicKeyFromBytes_of_validate _ _ := rfl
  verifyDepositSignature _ := true
  aggregatePublicKeys _ := .ok (Vector.replicate 48 0)
  verifyProposerSignature _ _ := .ok true
  verifyRandaoSignature _ _ := .ok true
  verifyIndexedAttestationSignature _ _ := .ok true
  verifyProposerSlashingSignature _ _ _ := .ok true
  verifyVoluntaryExitSignature _ _ := .ok true
  verifySyncCommitteeSignature _ _ _ := .ok true
  samplingBound := 0

end Lodestar.StateTransition
