import Lodestar.Lib.Fallible
import Lodestar.StateTransition.State
/-!
# Update — the light client's store and how an update changes it

A snapshot is a trusted header with the sync committees that go with it; the store keeps beside it the best update seen for
each period.  The process is written twice in the source, as a function and as a method of `Lightclient`; the two differ in
the order in which `applyLightClientUpdate` writes the parts of the snapshot.
-/
namespace Lodestar.LightClient

open Lib StateTransition

def FINALIZED_ROOT_INDEX : Nat := 105
def FINALIZED_ROOT_INDEX_FLOORLOG2 : Nat := 6
def NEXT_SYNC_COMMITTEE_INDEX : Nat := 55
def NEXT_SYNC_COMMITTEE_INDEX_FLOORLOG2 : Nat := 5
def MIN_SYNC_COMMITTEE_PARTICIPANTS : Nat := 1

def computeSyncPeriodAtEpoch (P : Preset) (epoch : Nat) : Nat := epoch / P.EPOCHS_PER_SYNC_COMMITTEE_PERIOD

def computeSyncPeriodAtSlot (P : Preset) (slot : Nat) : Nat := computeSyncPeriodAtEpoch P (computeEpochAtSlot P slot)

structure LightClientUpdate where
  header : BeaconBlockHeader
  nextSyncCommittee : SyncCommittee
  nextSyncCommitteeBranch : Vector Root NEXT_SYNC_COMMITTEE_INDEX_FLOORLOG2
  finalityHeader : BeaconBlockHeader
  finalityBranch : Vector Root FINALIZED_ROOT_INDEX_FLOORLOG2
  syncCommitteeBits : List Bool
  syncCommitteeSignature : BLSSignature
  forkVersion : Version
deriving DecidableEq

structure Crypto where
  PublicKey : Type
  hash : List UInt8 → Root
  headerRoot : BeaconBlockHeader → Root
  syncCommitteeRoot : SyncCommittee → Root
  /-- `computeSigningRoot` of a header under `computeDomain` of the sync committee's domain. -/
  signingRoot : BeaconBlockHeader → (forkVersion : Version) → (genesisValidatorsRoot : Root) → Root
  publicKeyFromBytes : BLSPubkey → Except String PublicKey
  isValidBlsAggregate : List PublicKey → (message : Root) → BLSSignature → Except String Bool

variable (P : Preset) (crypto : Crypto)

structure SyncCommitteeFast where
  pubkeys : List crypto.PublicKey
  aggregatePubkey : crypto.PublicKey

structure LightClientSnapshotFast where
  header : BeaconBlockHeader
  currentSyncCommittee : SyncCommitteeFast crypto
  nextSyncCommittee : SyncCommitteeFast crypto

structure LightClientStoreFast where
  snapshot : LightClientSnapshotFast crypto
  bestUpdates : OrderedMap Nat LightClientUpdate

/-! ## Utilities -/

def sumBits (bits : List Bool) : Nat := bits.count true

def emptyHeader : BeaconBlockHeader :=
  { slot := 0, proposerIndex := 0, parentRoot := zeroRoot, stateRoot := zeroRoot, bodyRoot := zeroRoot }

def isEmptyHeader (header : BeaconBlockHeader) : Bool := header == emptyHeader

def emptySyncCommittee : SyncCommittee :=
  { pubkeys := List.replicate P.SYNC_COMMITTEE_SIZE (Vector.replicate 48 0), aggregatePubkey := Vector.replicate 48 0 }

def isEmptySyncCommitte (syncCommittee : SyncCommittee) : Bool := syncCommittee == emptySyncCommittee P

def assertZeroHashes (rootArray : List Root) (expectedLength : Nat) (errorMessage : String) : Except String Unit := do
  check (rootArray.length = expectedLength) s!"Wrong length {errorMessage}"
  check (rootArray.all (· == zeroRoot)) s!"Not zeroed {errorMessage}"

def getParticipantPubkeys {T : Type} (pubkeys : List T) (bits : List Bool) : Except String (List T) :=
  (bits.zipIdx.filter (·.1)).mapM fun (_, i) => getAt s!"No pubkey {i} in syncCommittee" pubkeys i

/-- Verify that the given `leaf` is on the merkle branch `proof` starting with the given `root`. -/
def isValidMerkleBranch {depth : Nat} (leaf : Root) (proof : Vector Root depth) (index : Nat) (root : Root) : Bool :=
  proof.toList.zipIdx.foldl (fun value (sibling, i) =>
    if index / 2 ^ i % 2 ≠ 0 then crypto.hash (sibling.toList ++ value.toList)
    else crypto.hash (value.toList ++ sibling.toList)) leaf == root

variable {crypto}

def deserializeSyncCommittee (syncCommittee : SyncCommittee) : Except String (SyncCommitteeFast crypto) := do
  let pubkeys ← syncCommittee.pubkeys.mapM crypto.publicKeyFromBytes
  let aggregatePubkey ← crypto.publicKeyFromBytes syncCommittee.aggregatePubkey
  pure { pubkeys, aggregatePubkey }

/-! ## Validation -/

section

variable (snapshot : LightClientSnapshotFast crypto) (update : LightClientUpdate)

def validateLightClientUpdate (genesisValidatorsRoot : Root) : Except String Unit := do
  -- Verify update does not skip a sync committee period
  let snapshotPeriod := computeSyncPeriodAtSlot P snapshot.header.slot
  let updatePeriod := computeSyncPeriodAtSlot P update.header.slot
  check (updatePeriod = snapshotPeriod ∨ updatePeriod = snapshotPeriod + 1) "Update skips a sync committee period"
  -- Verify update header root is the finalized root of the finality header, if specified
  let finalityHeaderSpecified := !isEmptyHeader update.finalityHeader
  let signedHeader := if finalityHeaderSpecified then update.finalityHeader else update.header
  if finalityHeaderSpecified then
    check (isValidMerkleBranch crypto (crypto.headerRoot update.header) update.finalityBranch
      (FINALIZED_ROOT_INDEX % 2 ^ FINALIZED_ROOT_INDEX_FLOORLOG2) update.finalityHeader.stateRoot)
      "Invalid finality header merkle branch"
    let updateFinalityPeriod := computeSyncPeriodAtSlot P update.finalityHeader.slot
    check (updateFinalityPeriod = updatePeriod) s!"finalityHeader period {updateFinalityPeriod} != header period {updatePeriod}"
  else assertZeroHashes update.finalityBranch.toList FINALIZED_ROOT_INDEX_FLOORLOG2 "finalityBranches"
  -- Verify update next sync committee
  let updatePeriodIncremented := decide (updatePeriod > snapshotPeriod)
  let syncCommittee := if updatePeriodIncremented then snapshot.nextSyncCommittee else snapshot.currentSyncCommittee
  check (isEmptySyncCommitte P update.nextSyncCommittee ||
    isValidMerkleBranch crypto (crypto.syncCommitteeRoot update.nextSyncCommittee) update.nextSyncCommitteeBranch
      (NEXT_SYNC_COMMITTEE_INDEX % 2 ^ NEXT_SYNC_COMMITTEE_INDEX_FLOORLOG2) update.header.stateRoot)
    "Invalid next sync committee merkle branch"
  -- Verify sync committee has sufficient participants
  check (MIN_SYNC_COMMITTEE_PARTICIPANTS ≤ sumBits update.syncCommitteeBits) "Sync committee has not sufficient participants"
  -- Verify sync committee aggregate signature
  let participantPubkeys ← getParticipantPubkeys syncCommittee.pubkeys update.syncCommitteeBits
  let signingRoot := crypto.signingRoot signedHeader update.forkVersion genesisValidatorsRoot
  check (← crypto.isValidBlsAggregate participantPubkeys signingRoot update.syncCommitteeSignature) "Invalid aggregate signature"

/-! ## Applying an update -/

/-- `applyLightClientUpdate` of `update.ts`: the committees first, then the header. -/
def applyLightClientUpdate : Except String Unit × LightClientSnapshotFast crypto :=
  let snapshotPeriod := computeSyncPeriodAtSlot P snapshot.header.slot
  let updatePeriod := computeSyncPeriodAtSlot P update.header.slot
  if updatePeriod < snapshotPeriod then (.error "Cannot rollback sync period", snapshot)
  else if updatePeriod = snapshotPeriod + 1 then
    let snapshot := { snapshot with currentSyncCommittee := snapshot.nextSyncCommittee }
    match deserializeSyncCommittee update.nextSyncCommittee with
    | .error e => (.error e, snapshot)
    | .ok nextSyncCommittee => (.ok (), { snapshot with nextSyncCommittee, header := update.header })
  else (.ok (), { snapshot with header := update.header })

/-- `Lightclient.applyLightClientUpdate`: the header first, before any events are dispatched. -/
def Lightclient.applyLightClientUpdate : Except String Unit × LightClientSnapshotFast crypto :=
  let snapshotPeriod := computeSyncPeriodAtSlot P snapshot.header.slot
  let updatePeriod := computeSyncPeriodAtSlot P update.header.slot
  if updatePeriod < snapshotPeriod then (.error "Cannot rollback sync period", snapshot)
  else
    let snapshot := { snapshot with header := update.header }
    if updatePeriod = snapshotPeriod + 1 then
      let snapshot := { snapshot with currentSyncCommittee := snapshot.nextSyncCommittee }
      match deserializeSyncCommittee update.nextSyncCommittee with
      | .error e => (.error e, snapshot)
      | .ok nextSyncCommittee => (.ok (), { snapshot with nextSyncCommittee })
    else (.ok (), snapshot)

end

def isBetterUpdate (prevUpdate newUpdate : LightClientUpdate) : Bool :=
  decide (sumBits newUpdate.syncCommitteeBits ≥ sumBits prevUpdate.syncCommitteeBits)

section

variable (apply : LightClientSnapshotFast crypto → LightClientUpdate → Except String Unit × LightClientSnapshotFast crypto)
  (store : LightClientStoreFast crypto) (update : LightClientUpdate)

/-- `applyLightClientUpdate` followed by the deletion of the update from the best ones. -/
def applyAndDelete (period : Nat) : Except String Unit × LightClientStoreFast crypto :=
  match apply store.snapshot update with
  | (.error e, snapshot) => (.error e, { store with snapshot })
  | (.ok (), snapshot) => (.ok (), { store with snapshot, bestUpdates := store.bestUpdates.delete period })

def isFinalizedByQuorum (update : LightClientUpdate) : Bool :=
  decide (sumBits update.syncCommitteeBits * 3 ≥ update.syncCommitteeBits.length * 2) && !isEmptyHeader update.finalityHeader

def updateTimeout : Nat := P.SLOTS_PER_EPOCH * P.EPOCHS_PER_SYNC_COMMITTEE_PERIOD

def noteUpdate (store : LightClientStoreFast crypto) (update : LightClientUpdate) : LightClientStoreFast crypto :=
  let syncPeriod := computeSyncPeriodAtSlot P update.header.slot
  if (store.bestUpdates.get? syncPeriod).all (fun prevBestUpdate => isBetterUpdate prevBestUpdate update) then
    { store with bestUpdates := store.bestUpdates.set syncPeriod update }
  else store

def processUpdateWith (currentSlot : Nat) (genesisValidatorsRoot : Root) : Except String Unit × LightClientStoreFast crypto :=
  match validateLightClientUpdate P store.snapshot update genesisValidatorsRoot with
  | .error e => (.error e, store)
  | .ok () =>
    let store := noteUpdate P store update
    -- Apply update if (1) 2/3 quorum is reached and (2) we have a finality proof.
    if isFinalizedByQuorum update then applyAndDelete apply store update (computeSyncPeriodAtSlot P update.header.slot)
    -- Forced best update when the update timeout has elapsed
    else if currentSlot > store.snapshot.header.slot + updateTimeout P then
      let prevSyncPeriod := computeSyncPeriodAtSlot P store.snapshot.header.slot
      match store.bestUpdates.get? prevSyncPeriod with
      | some bestUpdate => applyAndDelete apply store bestUpdate prevSyncPeriod
      | none => (.ok (), store)
    else (.ok (), store)

end

section

variable (store : LightClientStoreFast crypto) (update : LightClientUpdate) (currentSlot : Nat) (genesisValidatorsRoot : Root)

def processLightClientUpdate : Except String Unit × LightClientStoreFast crypto :=
  processUpdateWith P (applyLightClientUpdate P) store update currentSlot genesisValidatorsRoot

def Lightclient.processLightClientUpdate : Except String Unit × LightClientStoreFast crypto :=
  processUpdateWith P (Lightclient.applyLightClientUpdate P) store update currentSlot genesisValidatorsRoot

end

def initializeFromTrustedSnapshot (snapshot : LightClientSnapshotFast crypto) : LightClientStoreFast crypto :=
  { snapshot, bestUpdates := .empty }

end Lodestar.LightClient
