import Lodestar.Lib.Numerals
import Lodestar.LightClient.Update
import Lodestar.StateTransition.Util
/-!
# LightClientUpdater — the updates a node makes for its light clients

The updater keeps what it needs of each head and of each finalized checkpoint, and makes an update of the signature in a block with
finality when it has the data of the attested finalized checkpoint, and one without.  The best of a period is kept, and the
one without finality is not compared where the one with finality was.

An update that is kept has its header, its finality header and its signature in one period, and no update that could have been
made for the period is better.
-/
namespace Lodestar.LightClient

open Lib StateTransition

variable {P : Preset}

/-- The SSZ roots, and the proofs made from the tree of a state. -/
structure ServerEnv (P : Preset) where
  blockRoot : BeaconBlock → Root
  bodyRoot : BeaconBlockBody → Root
  getSingleProof : BeaconState P → (gindex : Nat) → Vector Root (Nat.log2 gindex)

structure SyncAttestedData where
  finalizedCheckpoint : Checkpoint
  finalityBranch : Vector Root FINALIZED_ROOT_INDEX_FLOORLOG2
  header : BeaconBlockHeader
  nextSyncCommittee : SyncCommittee
  nextSyncCommitteeBranch : Vector Root NEXT_SYNC_COMMITTEE_INDEX_FLOORLOG2

structure FinalizedCheckpointData where
  header : BeaconBlockHeader
  nextSyncCommittee : SyncCommittee
  nextSyncCommitteeBranch : Vector Root NEXT_SYNC_COMMITTEE_INDEX_FLOORLOG2

structure CommitteeSignatureData where
  /-- The slot of the block the signature is in, which decides the committee's period. -/
  slot : Nat
  forkVersion : Version
  syncAggregate : SyncAggregate

structure LightClientUpdaterDb where
  lightclientFinalizedCheckpoint : OrderedMap Nat FinalizedCheckpointData
  bestUpdatePerCommitteePeriod : OrderedMap Nat LightClientUpdate
  latestFinalizedUpdate : Option LightClientUpdate
  latestNonFinalizedUpdate : Option LightClientUpdate

/-- In normal conditions a size of 1 would be enough; more are needed in heavy forking. -/
def PREV_DATA_MAX_SIZE : Nat := 64

structure LightClientUpdater where
  prevHeadData : OrderedMap String SyncAttestedData
  db : LightClientUpdaterDb

def LightClientUpdater.new : LightClientUpdater where
  prevHeadData := .empty
  db :=
    { lightclientFinalizedCheckpoint := .empty
      bestUpdatePerCommitteePeriod := .empty
      latestFinalizedUpdate := none
      latestNonFinalizedUpdate := none }

def toHexString (root : Root) : String := Hex.ofBytes root.toList

def toBlockHeader (env : ServerEnv P) (block : BeaconBlock) : BeaconBlockHeader :=
  { slot := block.slot, proposerIndex := block.proposerIndex, parentRoot := block.parentRoot, stateRoot := block.stateRoot,
    bodyRoot := env.bodyRoot block.body }

def getForkVersion (fork : Fork) (epoch : Nat) : Version :=
  if epoch < fork.epoch then fork.previousVersion else fork.currentVersion

/-! ## Which update is better -/

def isFinalizedUpdate (update : LightClientUpdate) : Bool := !(update.finalityHeader.stateRoot == zeroRoot)

namespace Server

def isBetterUpdate (prevUpdate newUpdate : LightClientUpdate) : Bool :=
  let prevIsFinalized := isFinalizedUpdate prevUpdate
  let newIsFinalized := isFinalizedUpdate newUpdate
  if newIsFinalized && !prevIsFinalized then true
  else if !newIsFinalized && prevIsFinalized then false
  else decide (sumBits newUpdate.syncCommitteeBits ≥ sumBits prevUpdate.syncCommitteeBits)

end Server

def isLatestBestFinalizedUpdate (prevUpdate newUpdate : LightClientUpdate) : Bool :=
  if newUpdate.finalityHeader.slot > prevUpdate.finalityHeader.slot then true
  else if newUpdate.finalityHeader.slot < prevUpdate.finalityHeader.slot then false
  else decide (sumBits newUpdate.syncCommitteeBits ≥ sumBits prevUpdate.syncCommitteeBits)

def isLatestBestNonFinalizedUpdate (prevUpdate newUpdate : LightClientUpdate) : Bool :=
  if newUpdate.header.slot > prevUpdate.header.slot then true
  else if newUpdate.header.slot < prevUpdate.header.slot then false
  else decide (sumBits newUpdate.syncCommitteeBits ≥ sumBits prevUpdate.syncCommitteeBits)

/-! ## Making and keeping updates -/

def finalizedUpdate (syncAttestedData : SyncAttestedData) (finalizedData : FinalizedCheckpointData)
    (signatureData : CommitteeSignatureData) : LightClientUpdate where
  header := finalizedData.header
  nextSyncCommittee := finalizedData.nextSyncCommittee
  nextSyncCommitteeBranch := finalizedData.nextSyncCommitteeBranch
  finalityHeader := syncAttestedData.header
  finalityBranch := syncAttestedData.finalityBranch
  syncCommitteeBits := signatureData.syncAggregate.syncCommitteeBits
  syncCommitteeSignature := signatureData.syncAggregate.syncCommitteeSignature
  forkVersion := signatureData.forkVersion

def nonFinalizedUpdate (syncAttestedData : SyncAttestedData) (signatureData : CommitteeSignatureData) : LightClientUpdate where
  header := syncAttestedData.header
  nextSyncCommittee := syncAttestedData.nextSyncCommittee
  nextSyncCommitteeBranch := syncAttestedData.nextSyncCommitteeBranch
  finalityHeader := emptyHeader
  finalityBranch := Vector.replicate _ zeroRoot
  syncCommitteeBits := signatureData.syncAggregate.syncCommitteeBits
  syncCommitteeSignature := signatureData.syncAggregate.syncCommitteeSignature
  forkVersion := signatureData.forkVersion

def putBest (bestUpdates : OrderedMap Nat LightClientUpdate) (committeePeriod : Nat) (newUpdate : LightClientUpdate) :
    OrderedMap Nat LightClientUpdate :=
  if (bestUpdates.get? committeePeriod).all (fun prevBestUpdate => Server.isBetterUpdate prevBestUpdate newUpdate) then
    bestUpdates.set committeePeriod newUpdate
  else bestUpdates

section

variable (P : Preset) (db : LightClientUpdaterDb) (syncAttestedData : SyncAttestedData) (signatureData : CommitteeSignatureData)

def persistBestFinalizedUpdate : LightClientUpdaterDb × Option Nat :=
  match db.lightclientFinalizedCheckpoint.get? syncAttestedData.finalizedCheckpoint.epoch with
  | none => (db, none)
  | some finalizedData =>
    let committeePeriod := computeSyncPeriodAtSlot P finalizedData.header.slot
    let signaturePeriod := computeSyncPeriodAtSlot P signatureData.slot
    if committeePeriod ≠ signaturePeriod then (db, none)
    else
      let newUpdate := finalizedUpdate syncAttestedData finalizedData signatureData
      let db := { db with bestUpdatePerCommitteePeriod := putBest db.bestUpdatePerCommitteePeriod committeePeriod newUpdate }
      let db :=
        if db.latestFinalizedUpdate.all (fun prevLatestUpdate => isLatestBestFinalizedUpdate prevLatestUpdate newUpdate) then
          { db with latestFinalizedUpdate := some newUpdate }
        else db
      (db, some committeePeriod)

def persistBestNonFinalizedUpdate (committeePeriodWithFinalized : Option Nat) : LightClientUpdaterDb :=
  let committeePeriod := computeSyncPeriodAtSlot P syncAttestedData.header.slot
  let signaturePeriod := computeSyncPeriodAtSlot P signatureData.slot
  if committeePeriod ≠ signaturePeriod then db
  else
    let newUpdate := nonFinalizedUpdate syncAttestedData signatureData
    -- Optimization: no need of a non-finalized update where there is already a finalized one for the committee period
    let db :=
      if committeePeriodWithFinalized ≠ some committeePeriod then
        { db with bestUpdatePerCommitteePeriod := putBest db.bestUpdatePerCommitteePeriod committeePeriod newUpdate }
      else db
    if db.latestNonFinalizedUpdate.all (fun prevLatestUpdate => isLatestBestNonFinalizedUpdate prevLatestUpdate newUpdate) then
      { db with latestNonFinalizedUpdate := some newUpdate }
    else db

end

/-! ## The handlers -/

/-- Deletes the oldest entries until at most `PREV_DATA_MAX_SIZE` are left. -/
def deleteOldest (prevHeadData : OrderedMap String SyncAttestedData) : List String → OrderedMap String SyncAttestedData
  | [] => prevHeadData
  | key :: keys =>
    let prevHeadData := prevHeadData.delete key
    if prevHeadData.size ≤ PREV_DATA_MAX_SIZE then prevHeadData else deleteOldest prevHeadData keys

def prunePrevHeadData (prevHeadData : OrderedMap String SyncAttestedData) : OrderedMap String SyncAttestedData :=
  if prevHeadData.size > PREV_DATA_MAX_SIZE then deleteOldest prevHeadData (prevHeadData.entries.map (·.1)) else prevHeadData

def syncAttestedData (env : ServerEnv P) (block : BeaconBlock) (postState : BeaconState P) : SyncAttestedData where
  finalizedCheckpoint := postState.finalizedCheckpoint
  finalityBranch := env.getSingleProof postState FINALIZED_ROOT_INDEX
  header := toBlockHeader env block
  nextSyncCommittee := postState.nextSyncCommittee
  nextSyncCommitteeBranch := env.getSingleProof postState NEXT_SYNC_COMMITTEE_INDEX

def committeeSignatureData (block : BeaconBlock) (postState : BeaconState P) : CommitteeSignatureData where
  slot := block.slot
  forkVersion := getForkVersion postState.fork (computeEpochAtSlot P block.slot)
  syncAggregate := block.body.syncAggregate

section

variable (env : ServerEnv P) (updater : LightClientUpdater)

def LightClientUpdater.setHeadData (block : BeaconBlock) (postState : BeaconState P) : LightClientUpdater :=
  { updater with
    prevHeadData := updater.prevHeadData.set (toHexString (env.blockRoot block)) (syncAttestedData env block postState) }

def LightClientUpdater.onHead (block : BeaconBlock) (postState : BeaconState P) : Except String Unit × LightClientUpdater :=
  let updater := updater.setHeadData env block postState
  match getBlockRootAtSlot postState (postState.slot - 1) with
  | .error e => (.error e, updater)
  | .ok syncAttestedBlockRoot =>
    let signatureData := committeeSignatureData block postState
    -- If not found, this SyncAggregate is useless
    match updater.prevHeadData.get? (toHexString syncAttestedBlockRoot) with
    | none => (.ok (), updater)
    | some syncAttestedData =>
      let (db, committeePeriodWithFinalized) := persistBestFinalizedUpdate P updater.db syncAttestedData signatureData
      let db := persistBestNonFinalizedUpdate P db syncAttestedData signatureData committeePeriodWithFinalized
      (.ok (), { prevHeadData := prunePrevHeadData updater.prevHeadData, db })

def LightClientUpdater.onFinalized (checkpoint : Checkpoint) (block : BeaconBlock) (postState : BeaconState P) :
    LightClientUpdater :=
  { updater with
    db := { updater.db with
      lightclientFinalizedCheckpoint := updater.db.lightclientFinalizedCheckpoint.set checkpoint.epoch
        { header := toBlockHeader env block
          nextSyncCommittee := postState.nextSyncCommittee
          nextSyncCommitteeBranch := env.getSingleProof postState NEXT_SYNC_COMMITTEE_INDEX } } }

inductive ServerCall (P : Preset)
  | onHead (block : BeaconBlock) (postState : BeaconState P)
  | onFinalized (checkpoint : Checkpoint) (block : BeaconBlock) (postState : BeaconState P)

def LightClientUpdater.step : ServerCall P → LightClientUpdater
  | .onHead block postState => (updater.onHead env block postState).2
  | .onFinalized checkpoint block postState => updater.onFinalized env checkpoint block postState

end

def LightClientUpdater.run (env : ServerEnv P) (calls : List (ServerCall P)) : LightClientUpdater :=
  calls.foldl (LightClientUpdater.step env) .new

end Lodestar.LightClient
