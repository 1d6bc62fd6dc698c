import Lodestar.Lib.Overlap
import Lodestar.StateTransition.EpochContext
/-!
# GossipAttestation — the validation of attestations and aggregates from gossip

Each validation is written in the stretches between its awaits: the early checks, the checks against the target state, and the
late ones with the signature verified, which look the validator up once more before they add it.  What a validation reads
synchronously of the clock and the fork choice is its `ChainView`, and the state and the verification come from outside.
-/
namespace Lodestar.Gossip

open Lib Overlap StateTransition

variable {P : Preset}

/-! ## Seen attesters -/

def MAX_EPOCHS : Nat := 3

structure SeenAttesters where
  validatorIndexesByEpoch : OrderedMap Nat (List Nat)
  lowestPermissibleEpoch : Nat

namespace SeenAttesters

def new : SeenAttesters := { validatorIndexesByEpoch := .empty, lowestPermissibleEpoch := 0 }

section

variable (seen : SeenAttesters) (targetEpoch validatorIndex : Nat)

def isKnown : Bool :=
  ((seen.validatorIndexesByEpoch.get? targetEpoch).getD []).contains validatorIndex

def add : Except String SeenAttesters := do
  check (seen.lowestPermissibleEpoch ≤ targetEpoch) s!"EpochTooLow {targetEpoch} < {seen.lowestPermissibleEpoch}"
  let validatorIndexes := (seen.validatorIndexesByEpoch.get? targetEpoch).getD []
  pure { seen with
    validatorIndexesByEpoch := seen.validatorIndexesByEpoch.set targetEpoch (validatorIndexes.insert validatorIndex) }

end

def prune (seen : SeenAttesters) (currentEpoch : Nat) : SeenAttesters :=
  let lowestPermissibleEpoch := currentEpoch - MAX_EPOCHS
  let tooLow := (seen.validatorIndexesByEpoch.entries.map (·.1)).filter (· < lowestPermissibleEpoch)
  { lowestPermissibleEpoch, validatorIndexesByEpoch := tooLow.foldl (·.delete ·) seen.validatorIndexesByEpoch }

end SeenAttesters

/-! ## Errors -/

inductive GossipAction
  | IGNORE
  | REJECT
deriving DecidableEq, Repr

/-- The codes the validations throw, with what comes with them. -/
inductive AttestationErrorType
  | BAD_TARGET_EPOCH
  | PAST_SLOT (earliestPermissibleSlot : Int) (attestationSlot : Nat)
  | FUTURE_SLOT (latestPermissibleSlot : Int) (attestationSlot : Nat)
  | NOT_EXACTLY_ONE_AGGREGATION_BIT_SET
  | UNKNOWN_BEACON_BLOCK_ROOT (root : Root)
  | INVALID_TARGET_ROOT (targetRoot : Root) (expected : Option Root)
  | MISSING_ATTESTATION_TARGET_STATE (error : String)
  | COMMITTEE_INDEX_OUT_OF_RANGE (index : Nat)
  | WRONG_NUMBER_OF_AGGREGATION_BITS
  | INVALID_SUBNET_ID (received expected : Nat)
  | ATTESTATION_ALREADY_KNOWN (targetEpoch validatorIndex : Nat)
  | AGGREGATOR_ALREADY_KNOWN (targetEpoch aggregatorIndex : Nat)
  | EMPTY_AGGREGATION_BITFIELD
  | INVALID_AGGREGATOR
  | AGGREGATOR_NOT_IN_COMMITTEE
  | INVALID_SIGNATURE
deriving DecidableEq, Repr

inductive GossipThrown
  | attestation (action : GossipAction) (type : AttestationErrorType)
  | error (message : String)
deriving DecidableEq, Repr

def toThrown {α : Type} : Except String α → Except GossipThrown α
  | .ok a => .ok a
  | .error message => .error (.error message)

/-! ## What the validations read -/

def MAXIMUM_GOSSIP_CLOCK_DISPARITY : Int := 500
def TARGET_AGGREGATORS_PER_COMMITTEE : Nat := 16
def ATTESTATION_SUBNET_COUNT : Nat := 64

structure AggregateAndProof where
  aggregatorIndex : Nat
  aggregate : Attestation
  selectionProof : BLSSignature

structure SignedAggregateAndProof where
  message : AggregateAndProof
  signature : BLSSignature

/-- What is read of `IBlockSummary`. -/
structure HeadBlock where
  slot : Nat
  blockRoot : Root
  targetRoot : Root

/-- The clock and the fork choice as a call finds them; the tolerance is in milliseconds. -/
structure ChainView where
  slotWithTolerance : Int → Int
  getBlock : Root → Option HeadBlock

structure SignatureSets (P : Preset) where
  SignatureSet : Type
  hash : List UInt8 → Root
  getIndexedAttestationSignatureSet : CachedBeaconState P → StateTransition.IndexedAttestation → Except String SignatureSet
  getSelectionProofSignatureSet : CachedBeaconState P → (slot aggregatorIndex : Nat) → SignedAggregateAndProof →
    Except String SignatureSet
  getAggregateAndProofSignatureSet : CachedBeaconState P → (epoch aggregatorIndex : Nat) → SignedAggregateAndProof →
    Except String SignatureSet

variable (sets : SignatureSets P)

inductive Question
  | getCheckpointState (checkpoint : Checkpoint)
  | verifySignatureSets (signatureSets : List sets.SignatureSet)

def Answer : Question sets → Type
  | .getCheckpointState _ => Except String (CachedBeaconState P)
  | .verifySignatureSets _ => Except String Bool

/-- The caches, and the epoch of the clock. -/
structure Chain where
  seenAttesters : SeenAttesters
  seenAggregators : SeenAttesters
  currentEpoch : Nat

def Chain.new : Chain := { seenAttesters := .new, seenAggregators := .new, currentEpoch := 0 }

def onClockEpoch (currentEpoch : Nat) (chain : Chain) : Chain :=
  { seenAttesters := chain.seenAttesters.prune currentEpoch
    seenAggregators := chain.seenAggregators.prune currentEpoch
    currentEpoch }

structure ValidAttestation where
  indexedAttestation : StateTransition.IndexedAttestation
  subnet : Nat

inductive Valid
  | attestation (result : ValidAttestation)
  | aggregate (indexedAttestation : StateTransition.IndexedAttestation)

abbrev Validation := Stop (Question sets) (Answer sets) Chain GossipThrown Valid

/-! ## Checks -/

def verifyPropagationSlotRange (P : Preset) (view : ChainView) (attestationSlot : Nat) : Except GossipThrown Unit := do
  let latestPermissibleSlot := view.slotWithTolerance MAXIMUM_GOSSIP_CLOCK_DISPARITY
  let earliestPermissibleSlot := max (view.slotWithTolerance (-MAXIMUM_GOSSIP_CLOCK_DISPARITY) - P.SLOTS_PER_EPOCH) 0
  check (earliestPermissibleSlot ≤ attestationSlot)
    (.attestation .IGNORE (.PAST_SLOT earliestPermissibleSlot attestationSlot))
  check ((attestationSlot : Int) ≤ latestPermissibleSlot)
    (.attestation .IGNORE (.FUTURE_SLOT latestPermissibleSlot attestationSlot))

def verifyHeadBlockIsKnown (view : ChainView) (beaconBlockRoot : Root) : Except GossipThrown HeadBlock :=
  (view.getBlock beaconBlockRoot).elim (.error (.attestation .IGNORE (.UNKNOWN_BEACON_BLOCK_ROOT beaconBlockRoot))) .ok

def verifyAttestationTargetRoot (P : Preset) (headBlock : HeadBlock) (targetRoot : Root) (attestationEpoch : Nat) :
    Except GossipThrown Unit :=
  let headBlockEpoch := computeEpochAtSlot P headBlock.slot
  -- a head block from a future epoch, which the specification does not refuse
  if headBlockEpoch > attestationEpoch then .error (.attestation .REJECT (.INVALID_TARGET_ROOT targetRoot none))
  else
    let expectedTargetRoot := if headBlockEpoch = attestationEpoch then headBlock.targetRoot else headBlock.blockRoot
    check (expectedTargetRoot = targetRoot) (.attestation .REJECT (.INVALID_TARGET_ROOT targetRoot (some expectedTargetRoot)))

def verifyHeadBlockAndTargetRoot (P : Preset) (view : ChainView) (beaconBlockRoot targetRoot : Root) (attestationEpoch : Nat) :
    Except GossipThrown Unit := do
  let headBlock ← verifyHeadBlockIsKnown view beaconBlockRoot
  verifyAttestationTargetRoot P headBlock targetRoot attestationEpoch

def getSingleBitIndex (bits : List Bool) : Except GossipThrown Nat := do
  let notExactlyOne := GossipThrown.attestation .REJECT .NOT_EXACTLY_ONE_AGGREGATION_BIT_SET
  let index ← bits.zipIdx.foldlM (fun (index : Option Nat) (bit, i) =>
    if bit then if index.isSome then .error notExactlyOne else .ok (some i) else .ok index) none
  index.elim (.error notExactlyOne) .ok

def getCommitteeIndices (attestationTargetState : CachedBeaconState P) (attestationSlot attestationIndex : Nat) :
    Except GossipThrown (List Nat) :=
  match attestationTargetState.epochCtx.getBeaconCommittee P attestationSlot attestationIndex with
  | .ok committeeIndices => .ok committeeIndices
  | .error "EPOCH_CONTEXT_ERROR_COMMITTEE_INDEX_OUT_OF_RANGE" =>
    .error (.attestation .REJECT (.COMMITTEE_INDEX_OUT_OF_RANGE attestationIndex))
  | .error message => .error (.error message)

def computeSubnetForSlot (state : CachedBeaconState P) (slot committeeIndex : Nat) : Except GossipThrown Nat := do
  let slotsSinceEpochStart := slot % P.SLOTS_PER_EPOCH
  let committeesPerSlot ← toThrown (state.epochCtx.getCommitteeCountPerSlot (computeEpochAtSlot P slot))
  let committeesSinceEpochStart := committeesPerSlot * slotsSinceEpochStart
  pure ((committeesSinceEpochStart + committeeIndex) % ATTESTATION_SUBNET_COUNT)

def isSelectionProofValid (hash : List UInt8 → Root) (signature : BLSSignature) (modulo : Nat) : Bool :=
  bytesToBigInt ((hash signature.toList).toList.take 8) % modulo == 0

def isAggregatorFromCommitteeLength (committeeLength : Nat) (slotSignature : BLSSignature) : Bool :=
  isSelectionProofValid sets.hash slotSignature (max 1 (committeeLength / TARGET_AGGREGATORS_PER_COMMITTEE))

def getTargetState (answer : Except String (CachedBeaconState P)) : Except GossipThrown (CachedBeaconState P) :=
  match answer with
  | .ok state => .ok state
  | .error error => .error (.attestation .REJECT (.MISSING_ATTESTATION_TARGET_STATE error))

/-- The late checks of either validation.  The index may have been seen while the signature was verified, so it is looked up
again before it is added. -/
def verifyLateChecks (alreadyKnown : Nat → Nat → AttestationErrorType) (seen : SeenAttesters) (targetEpoch index : Nat)
    (answer : Except String Bool) : Except GossipThrown SeenAttesters := do
  check (← toThrown answer) (.attestation .REJECT .INVALID_SIGNATURE)
  check (!seen.isKnown targetEpoch index) (.attestation .IGNORE (alreadyKnown targetEpoch index))
  toThrown (seen.add targetEpoch index)

/-! ## Attestations -/

/-- The checks before the target state is there, and the place of the validator in its committee. -/
def verifyEarlyChecks (P : Preset) (view : ChainView) (attestation : Attestation) : Except GossipThrown Nat := do
  let attData := attestation.data
  let attEpoch := computeEpochAtSlot P attData.slot
  check (attData.target.epoch = attEpoch) (.attestation .REJECT .BAD_TARGET_EPOCH)
  verifyPropagationSlotRange P view attData.slot
  let bitIndex ← getSingleBitIndex attestation.aggregationBits
  verifyHeadBlockAndTargetRoot P view attData.beaconBlockRoot attData.target.root attEpoch
  pure bitIndex

def verifyMiddleChecks (seenAttesters : SeenAttesters) (attestation : Attestation) (subnet : Option Nat) (bitIndex : Nat)
    (answer : Except String (CachedBeaconState P)) :
    Except GossipThrown (Nat × ValidAttestation × sets.SignatureSet) := do
  let attestationTargetState ← getTargetState answer
  let attData := attestation.data
  let committeeIndices ← getCommitteeIndices attestationTargetState attData.slot attData.index
  check (attestation.aggregationBits.length = committeeIndices.length)
    (.attestation .REJECT .WRONG_NUMBER_OF_AGGREGATION_BITS)
  -- read before the check in the source, where a place past the end gives `undefined`
  let validatorIndex ← toThrown (getAt typeError committeeIndices bitIndex)
  let expectedSubnet ← computeSubnetForSlot attestationTargetState attData.slot attData.index
  check (subnet.all (· = expectedSubnet)) (.attestation .REJECT (.INVALID_SUBNET_ID (subnet.getD 0) expectedSubnet))
  check (!seenAttesters.isKnown attData.target.epoch validatorIndex)
    (.attestation .IGNORE (.ATTESTATION_ALREADY_KNOWN attData.target.epoch validatorIndex))
  let indexedAttestation :=
    { attestingIndices := [validatorIndex], data := attData, signature := attestation.signature : StateTransition.IndexedAttestation }
  let signatureSet ← toThrown (sets.getIndexedAttestationSignatureSet attestationTargetState indexedAttestation)
  pure (validatorIndex, { indexedAttestation, subnet := expectedSubnet }, signatureSet)

def validateGossipAttestation (view : ChainView) (attestation : Attestation) (subnet : Option Nat) (chain : Chain) :
    Validation sets × Chain :=
  match verifyEarlyChecks P view attestation with
  | .error e => (.done (.error e), chain)
  | .ok bitIndex =>
    (.await (.getCheckpointState attestation.data.target) fun answer chain =>
      match verifyMiddleChecks sets chain.seenAttesters attestation subnet bitIndex answer with
      | .error e => (.done (.error e), chain)
      | .ok (validatorIndex, valid, signatureSet) =>
        (.await (.verifySignatureSets [signatureSet]) fun answer chain =>
          match verifyLateChecks .ATTESTATION_ALREADY_KNOWN chain.seenAttesters attestation.data.target.epoch validatorIndex
            answer with
          | .error e => (.done (.error e), chain)
          | .ok seenAttesters => (.done (.ok (.attestation valid)), { chain with seenAttesters }),
        chain),
    chain)

/-! ## Aggregates -/

def verifyAggregateEarlyChecks (P : Preset) (view : ChainView) (seenAggregators : SeenAttesters)
    (aggregateAndProof : AggregateAndProof) : Except GossipThrown Unit := do
  let attData := aggregateAndProof.aggregate.data
  let attEpoch := computeEpochAtSlot P attData.slot
  check (attData.target.epoch = attEpoch) (.attestation .REJECT .BAD_TARGET_EPOCH)
  verifyPropagationSlotRange P view attData.slot
  check (!seenAggregators.isKnown attData.target.epoch aggregateAndProof.aggregatorIndex)
    (.attestation .IGNORE (.AGGREGATOR_ALREADY_KNOWN attData.target.epoch aggregateAndProof.aggregatorIndex))
  verifyHeadBlockAndTargetRoot P view attData.beaconBlockRoot attData.target.root attEpoch

def verifyAggregateMiddleChecks (signedAggregateAndProof : SignedAggregateAndProof)
    (answer : Except String (CachedBeaconState P)) : Except GossipThrown (StateTransition.IndexedAttestation × List sets.SignatureSet) := do
  let targetState ← getTargetState answer
  let aggregateAndProof := signedAggregateAndProof.message
  let aggregate := aggregateAndProof.aggregate
  let committeeIndices ← getCommitteeIndices targetState aggregate.data.slot aggregate.data.index
  let attestingIndices := zipIndexesCommitteeBits committeeIndices aggregate.aggregationBits
  let indexedAttestation := { attestingIndices, data := aggregate.data, signature := aggregate.signature : StateTransition.IndexedAttestation }
  check (1 ≤ attestingIndices.length) (.attestation .REJECT .EMPTY_AGGREGATION_BITFIELD)
  check (isAggregatorFromCommitteeLength sets committeeIndices.length aggregateAndProof.selectionProof)
    (.attestation .REJECT .INVALID_AGGREGATOR)
  check (committeeIndices.contains aggregateAndProof.aggregatorIndex) (.attestation .REJECT .AGGREGATOR_NOT_IN_COMMITTEE)
  let aggregator := aggregateAndProof.aggregatorIndex
  let attEpoch := computeEpochAtSlot P aggregate.data.slot
  let selectionProof ← toThrown
    (sets.getSelectionProofSignatureSet targetState aggregate.data.slot aggregator signedAggregateAndProof)
  let proof ← toThrown (sets.getAggregateAndProofSignatureSet targetState attEpoch aggregator signedAggregateAndProof)
  let attestation ← toThrown (sets.getIndexedAttestationSignatureSet targetState indexedAttestation)
  pure (indexedAttestation, [selectionProof, proof, attestation])

def validateGossipAggregateAndProof (view : ChainView) (signedAggregateAndProof : SignedAggregateAndProof) (chain : Chain) :
    Validation sets × Chain :=
  let aggregateAndProof := signedAggregateAndProof.message
  let attTarget := aggregateAndProof.aggregate.data.target
  match verifyAggregateEarlyChecks P view chain.seenAggregators aggregateAndProof with
  | .error e => (.done (.error e), chain)
  | .ok () =>
    (.await (.getCheckpointState attTarget) fun answer chain =>
      match verifyAggregateMiddleChecks sets signedAggregateAndProof answer with
      | .error e => (.done (.error e), chain)
      | .ok (indexedAttestation, signatureSets) =>
        (.await (.verifySignatureSets signatureSets) fun answer chain =>
          match verifyLateChecks .AGGREGATOR_ALREADY_KNOWN chain.seenAggregators attTarget.epoch
            aggregateAndProof.aggregatorIndex answer with
          | .error e => (.done (.error e), chain)
          | .ok seenAggregators => (.done (.ok (.aggregate indexedAttestation)), { chain with seenAggregators }),
        chain),
    chain)

/-! ## The system -/

inductive GossipCall
  | attestation (view : ChainView) (attestation : Attestation) (subnet : Option Nat)
  | aggregate (view : ChainView) (signedAggregateAndProof : SignedAggregateAndProof)

abbrev GossipSystem := System GossipCall (Question sets) (Answer sets) Chain GossipThrown Valid

def gossipRules : Rules GossipCall (Question sets) (Answer sets) Chain Nat GossipThrown Valid where
  start
    | .attestation view attestation subnet => validateGossipAttestation sets view attestation subnet
    | .aggregate view signedAggregateAndProof => validateGossipAggregateAndProof sets view signedAggregateAndProof
  outside := onClockEpoch
  allowed epoch chain := chain.currentEpoch ≤ epoch

end Lodestar.Gossip
