import Lodestar.Chain.GossipAttestation
import Lodestar.LightClient.Update
import Lodestar.OpPools.SyncContributionAndProofPool
/-!
# GossipSyncCommittee — the validation of sync committee messages and contributions from gossip

A message or contribution is looked up among the seen ones, its signatures are verified, and it is added.  The verification is
awaited between the two, and nothing is looked up after it.
-/
namespace Lodestar.Gossip

open Lib Overlap StateTransition
open LightClient (computeSyncPeriodAtSlot)
open OpPools (SYNC_COMMITTEE_SUBNET_COUNT)

variable {P : Preset}

def TARGET_AGGREGATORS_PER_SYNC_SUBCOMMITTEE : Nat := 16

structure SyncCommitteeMessage where
  slot : Nat
  beaconBlockRoot : Root
  validatorIndex : Nat
  signature : BLSSignature

structure SyncCommitteeContribution where
  slot : Nat
  beaconBlockRoot : Root
  subCommitteeIndex : Nat
  aggregationBits : List Bool
  signature : BLSSignature

structure ContributionAndProof where
  aggregatorIndex : Nat
  contribution : SyncCommitteeContribution
  selectionProof : BLSSignature

structure SignedContributionAndProof where
  message : ContributionAndProof
  signature : BLSSignature

/-! ## Seen messages -/

/-- `SeenSyncCommitteeMessages` and `SeenContributionAndProof`: a set of keys for a slot. -/
structure SeenBySlot where
  seenCacheBySlot : OrderedMap Nat (List String)

namespace SeenBySlot

def seenCacheKey (subnet validatorIndex : Nat) : String := s!"{subnet}-{validatorIndex}"

section

variable (seen : SeenBySlot) (slot subnet validatorIndex : Nat)

def isKnown : Bool :=
  ((seen.seenCacheBySlot.get? slot).getD []).contains (seenCacheKey subnet validatorIndex)

def add : SeenBySlot :=
  let seenCache := (seen.seenCacheBySlot.get? slot).getD []
  { seenCacheBySlot := seen.seenCacheBySlot.set slot (seenCache.insert (seenCacheKey subnet validatorIndex)) }

end

end SeenBySlot

/-! ## Errors -/

inductive SyncCommitteeErrorType
  | NOT_CURRENT_SLOT (currentSlot : Int) (slot : Nat)
  | SYNC_COMMITTEE_ALREADY_KNOWN
  | VALIDATOR_NOT_IN_SYNC_COMMITTEE (validatorIndex : Nat)
  | INVALID_SIGNATURE
  | INVALID_SUB_COMMITTEE_INDEX (subCommitteeIndex : Nat)
  | INVALID_AGGREGATOR (aggregatorIndex : Nat)
deriving DecidableEq, Repr

inductive SyncThrown
  | syncCommittee (action : GossipAction) (type : SyncCommitteeErrorType)
  | error (message : String)
deriving DecidableEq, Repr

def toSyncThrown {α : Type} : Except String α → Except SyncThrown α
  | .ok a => .ok a
  | .error message => .error (.error message)

/-! ## What the validations read -/

structure HeadView (P : Preset) where
  getHeadState : Except String (CachedBeaconState P)
  isCurrentSlotGivenGossipDisparity : Nat → Bool
  currentSlot : Int

structure SyncSignatureSets (P : Preset) where
  SignatureSet : Type
  hash : List UInt8 → Root
  getSyncCommitteeSignatureSet : CachedBeaconState P → SyncCommitteeMessage → Except String SignatureSet
  getSyncCommitteeSelectionProofSignatureSet : CachedBeaconState P → ContributionAndProof → Except String SignatureSet
  getContributionAndProofSignatureSet : CachedBeaconState P → SignedContributionAndProof → Except String SignatureSet
  getSyncCommitteeContributionSignatureSet : CachedBeaconState P → SyncCommitteeContribution → Except String SignatureSet

structure SyncChain where
  seenSyncCommitteeMessages : SeenBySlot
  seenContributionAndProof : SeenBySlot

def SyncChain.new : SyncChain := { seenSyncCommitteeMessages := ⟨.empty⟩, seenContributionAndProof := ⟨.empty⟩ }

inductive SyncValid
  | message (indexInSubCommittee : Nat)
  | contribution
deriving DecidableEq

variable (sets : SyncSignatureSets P)

abbrev SyncValidation :=
  Stop (List sets.SignatureSet) (fun _ => Except String Bool) SyncChain SyncThrown SyncValid

/-! ## Checks -/

/-- The places of a validator in a sync committee, `validatorIndexMap.get`. -/
def indexesInCommittee (syncCommittee : IndexedSyncCommittee) (validatorIndex : Nat) : List Nat :=
  (List.range syncCommittee.validatorIndices.length).filter fun i => syncCommittee.validatorIndices[i]? = some validatorIndex

/-- The place in the subcommittee, or none if not part of the sync committee or not part of the given `subnet`. -/
def getIndexInSubCommittee (headState : CachedBeaconState P) (subnet slot validatorIndex : Nat) : Option Nat :=
  let statePeriod := computeSyncPeriodAtSlot P headState.slot
  -- duties are off by one: a committee of slots 100 to 200 signs in slots 99 to 199
  let dataPeriod := computeSyncPeriodAtSlot P (slot + 1)
  let syncCommittee :=
    if dataPeriod = statePeriod + 1 then headState.nextIndexedSyncCommittee else headState.currentIndexedSyncCommittee
  let SYNC_COMMITTEE_SUBNET_SIZE := P.SYNC_COMMITTEE_SIZE / SYNC_COMMITTEE_SUBNET_COUNT
  ((indexesInCommittee syncCommittee validatorIndex).find? fun indexInCommittee =>
    indexInCommittee / SYNC_COMMITTEE_SUBNET_SIZE = subnet).map (· % SYNC_COMMITTEE_SUBNET_SIZE)

section

variable (view : HeadView P)

def validateGossipSyncCommitteeExceptSig (headState : CachedBeaconState P) (subnet slot validatorIndex : Nat) :
    Except SyncThrown Nat := do
  check (view.isCurrentSlotGivenGossipDisparity slot) (.syncCommittee .IGNORE (.NOT_CURRENT_SLOT view.currentSlot slot))
  check (subnet < SYNC_COMMITTEE_SUBNET_COUNT) (.syncCommittee .REJECT (.INVALID_SUB_COMMITTEE_INDEX subnet))
  (getIndexInSubCommittee headState subnet slot validatorIndex).elim
    (.error (.syncCommittee .REJECT (.VALIDATOR_NOT_IN_SYNC_COMMITTEE validatorIndex))) .ok

def isSyncCommitteeAggregator (selectionProof : BLSSignature) : Bool :=
  isSelectionProofValid sets.hash selectionProof
    (max 1 (P.SYNC_COMMITTEE_SIZE / SYNC_COMMITTEE_SUBNET_COUNT / TARGET_AGGREGATORS_PER_SYNC_SUBCOMMITTEE))

def verifyMessage (seen : SeenBySlot) (syncCommittee : SyncCommitteeMessage) (subnet : Nat) :
    Except SyncThrown (Nat × List sets.SignatureSet) := do
  let headState ← toSyncThrown view.getHeadState
  let indexInSubCommittee ←
    validateGossipSyncCommitteeExceptSig view headState subnet syncCommittee.slot syncCommittee.validatorIndex
  check (!seen.isKnown syncCommittee.slot subnet syncCommittee.validatorIndex)
    (.syncCommittee .IGNORE .SYNC_COMMITTEE_ALREADY_KNOWN)
  let signatureSet ← toSyncThrown (sets.getSyncCommitteeSignatureSet headState syncCommittee)
  pure (indexInSubCommittee, [signatureSet])

def verifyContribution (seen : SeenBySlot) (signedContributionAndProof : SignedContributionAndProof) :
    Except SyncThrown (List sets.SignatureSet) := do
  let contributionAndProof := signedContributionAndProof.message
  let contribution := contributionAndProof.contribution
  let headState ← toSyncThrown view.getHeadState
  let _ ← validateGossipSyncCommitteeExceptSig view headState contribution.subCommitteeIndex contribution.slot
    contributionAndProof.aggregatorIndex
  check (!seen.isKnown contribution.slot contribution.subCommitteeIndex contributionAndProof.aggregatorIndex)
    (.syncCommittee .IGNORE .SYNC_COMMITTEE_ALREADY_KNOWN)
  check (isSyncCommitteeAggregator sets contributionAndProof.selectionProof)
    (.syncCommittee .REJECT (.INVALID_AGGREGATOR contributionAndProof.aggregatorIndex))
  let selectionProof ← toSyncThrown (sets.getSyncCommitteeSelectionProofSignatureSet headState contributionAndProof)
  let proof ← toSyncThrown (sets.getContributionAndProofSignatureSet headState signedContributionAndProof)
  let aggregate ← toSyncThrown (sets.getSyncCommitteeContributionSignatureSet headState contribution)
  pure [selectionProof, proof, aggregate]

def verifySignatures (answer : Except String Bool) : Except SyncThrown Unit := do
  check (← toSyncThrown answer) (.syncCommittee .REJECT .INVALID_SIGNATURE)

/-! ## The validations -/

def validateGossipSyncCommittee (syncCommittee : SyncCommitteeMessage) (subnet : Nat) (chain : SyncChain) :
    SyncValidation sets × SyncChain :=
  match verifyMessage sets view chain.seenSyncCommitteeMessages syncCommittee subnet with
  | .error e => (.done (.error e), chain)
  | .ok (indexInSubCommittee, signatureSets) =>
    (.await signatureSets fun answer chain =>
      match verifySignatures answer with
      | .error e => (.done (.error e), chain)
      | .ok () =>
        -- Register this valid item as seen
        (.done (.ok (.message indexInSubCommittee)),
          { chain with seenSyncCommitteeMessages :=
              chain.seenSyncCommitteeMessages.add syncCommittee.slot subnet syncCommittee.validatorIndex }),
    chain)

def validateSyncCommitteeGossipContributionAndProof (signedContributionAndProof : SignedContributionAndProof)
    (chain : SyncChain) : SyncValidation sets × SyncChain :=
  match verifyContribution sets view chain.seenContributionAndProof signedContributionAndProof with
  | .error e => (.done (.error e), chain)
  | .ok signatureSets =>
    (.await signatureSets fun answer chain =>
      match verifySignatures answer with
      | .error e => (.done (.error e), chain)
      | .ok () =>
        let ⟨aggregatorIndex, contribution, _⟩ := signedContributionAndProof.message
        (.done (.ok .contribution),
          { chain with seenContributionAndProof :=
              chain.seenContributionAndProof.add contribution.slot contribution.subCommitteeIndex aggregatorIndex }),
    chain)

end

/-! ## The system -/

inductive SyncCall (P : Preset)
  | message (view : HeadView P) (syncCommittee : SyncCommitteeMessage) (subnet : Nat)
  | contribution (view : HeadView P) (signedContributionAndProof : SignedContributionAndProof)

abbrev SyncSystem := System (SyncCall P) (List sets.SignatureSet) (fun _ => Except String Bool) SyncChain SyncThrown SyncValid

def syncRules : Rules (SyncCall P) (List sets.SignatureSet) (fun _ => Except String Bool) SyncChain Empty SyncThrown SyncValid where
  start
    | .message view syncCommittee subnet => validateGossipSyncCommittee sets view syncCommittee subnet
    | .contribution view signedContributionAndProof =>
      validateSyncCommitteeGossipContributionAndProof sets view signedContributionAndProof
  outside := fun w => w.elim
  allowed := fun w => w.elim

end Lodestar.Gossip
