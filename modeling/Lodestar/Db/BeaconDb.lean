import Lodestar.Db.Repository
import Lodestar.Params
/-!
# BeaconDb — the repositories of the beacon node

Fifteen repositories and four single values over one store.  `BlockArchiveRepository` and `StateArchiveRepository` keep
indices beside their bucket; `DepositEventRepository`, `Eth1DataRepository` and `AggregateAndProofRepository` delete by
range.  `BeaconDb.answer` and `BeaconDb.apply` are the reads and the writes of all of them.
-/
namespace Lodestar.Db

open Lib SortedMap

inductive RepositoryName
  | block
  | pendingBlock
  | blockArchive
  | stateArchive
  | aggregateAndProof
  | voluntaryExit
  | proposerSlashing
  | attesterSlashing
  | depositEvent
  | depositDataRoot
  | eth1Data
  | bestUpdatePerCommitteePeriod
  | lightclientFinalizedCheckpoint
  | lightClientInitProof
  | lightClientSyncCommitteeProof
deriving DecidableEq, Repr

inductive SingleName
  | preGenesisState
  | preGenesisStateLastProcessedBlock
  | latestFinalizedUpdate
  | latestNonFinalizedUpdate
deriving DecidableEq, Repr

/-- `IBlockSummary`, and what an archived block has of it. -/
structure BlockSummary where
  slot : Nat
  blockRoot : Root
  parentRoot : Root
deriving DecidableEq, Repr

/-- The values the repositories hold and what the node reads off them: their SSZ types, and the JavaScript conversion of
a buffer to a number, `none` where it is `NaN`. -/
structure Values where
  Value : RepositoryName → Type
  Single : SingleName → Type
  Attestation : Type
  serialize : (name : RepositoryName) → Value name → Buffer
  deserialize : (name : RepositoryName) → Buffer → Except DbError (Value name)
  hashTreeRoot : (name : RepositoryName) → Value name → Root
  serializeSingle : (name : SingleName) → Single name → Buffer
  deserializeSingle : (name : SingleName) → Buffer → Except DbError (Single name)
  blockMessageRoot : Value .block → Root
  pendingBlockMessageRoot : Value .pendingBlock → Root
  archivedMessage : Value .blockArchive → BlockSummary
  stateSlot : Value .stateArchive → Nat
  aggregate : Value .aggregateAndProof → Attestation
  attestationRoot : Attestation → Root
  attestationSlot : Attestation → Nat
  exitValidatorIndex : Value .voluntaryExit → Nat
  proposerIndex : Value .proposerSlashing → Nat
  bufferToNumber : Buffer → Option Nat

namespace BeaconDb

variable (values : Values)

/-- `Repository.getId`, the root of the value. -/
def rootId (root : Root) : Except DbError Id := .ok (.bytes root.toList)

/-- A repository with the root of its type as id, keys as bytes. -/
def rootRepository (name : RepositoryName) (bucket : Bucket) : Repository (values.Value name) where
  bucket := bucket
  encodeValue := values.serialize name
  decodeValue := values.deserialize name
  getId value := rootId (values.hashTreeRoot name value)

def block : Repository (values.Value .block) where
  bucket := .allForks_block
  encodeValue := values.serialize .block
  decodeValue := values.deserialize .block
  getId value := rootId (values.blockMessageRoot value)

def pendingBlock : Repository (values.Value .pendingBlock) where
  bucket := .allForks_pendingBlock
  encodeValue := values.serialize .pendingBlock
  decodeValue := values.deserialize .pendingBlock
  getId value := rootId (values.pendingBlockMessageRoot value)

def blockArchive : Repository (values.Value .blockArchive) where
  bucket := .allForks_blockArchive
  encodeValue := values.serialize .blockArchive
  decodeValue := values.deserialize .blockArchive
  decodeKey := numberKey
  getId value := .ok (.number (values.archivedMessage value).slot)

def stateArchive : Repository (values.Value .stateArchive) where
  bucket := .allForks_stateArchive
  encodeValue := values.serialize .stateArchive
  decodeValue := values.deserialize .stateArchive
  decodeKey := numberKey
  getId value := .ok (.number (values.stateSlot value))

def aggregateAndProof : Repository (values.Value .aggregateAndProof) where
  bucket := .phase0_aggregateAndProof
  encodeValue := values.serialize .aggregateAndProof
  decodeValue := values.deserialize .aggregateAndProof
  getId value := rootId (values.attestationRoot (values.aggregate value))

def voluntaryExit : Repository (values.Value .voluntaryExit) where
  bucket := .phase0_exit
  encodeValue := values.serialize .voluntaryExit
  decodeValue := values.deserialize .voluntaryExit
  getId value := .ok (.number (values.exitValidatorIndex value))

def proposerSlashing : Repository (values.Value .proposerSlashing) where
  bucket := .phase0_proposerSlashing
  encodeValue := values.serialize .proposerSlashing
  decodeValue := values.deserialize .proposerSlashing
  getId value := .ok (.number (values.proposerIndex value))

def attesterSlashing : Repository (values.Value .attesterSlashing) :=
  rootRepository values .attesterSlashing .phase0_attesterSlashing

/-- Neither `decodeKey` nor `getId` is overridden, though the ids are deposit indices. -/
def depositEvent : Repository (values.Value .depositEvent) := rootRepository values .depositEvent .phase0_depositEvent

def depositDataRoot : Repository (values.Value .depositDataRoot) where
  bucket := .index_depositDataRoot
  encodeValue := values.serialize .depositDataRoot
  decodeValue := values.deserialize .depositDataRoot
  decodeKey := numberKey
  getId _ := .error (.error "Unable to create depositIndex from root")

def eth1Data : Repository (values.Value .eth1Data) where
  bucket := .phase0_eth1Data
  encodeValue := values.serialize .eth1Data
  decodeValue := values.deserialize .eth1Data
  decodeKey := numberKey
  getId _ := .error (.error "Unable to create timestamp from block hash")

def bestUpdatePerCommitteePeriod : Repository (values.Value .bestUpdatePerCommitteePeriod) :=
  { rootRepository values .bestUpdatePerCommitteePeriod .altair_bestUpdatePerCommitteePeriod with decodeKey := numberKey }

def lightclientFinalizedCheckpoint : Repository (values.Value .lightclientFinalizedCheckpoint) :=
  { rootRepository values .lightclientFinalizedCheckpoint .altair_lightclientFinalizedCheckpoint with
    decodeKey := numberKey }

def lightClientInitProof : Repository (values.Value .lightClientInitProof) where
  bucket := .altair_lightClientInitProof
  encodeValue := values.serialize .lightClientInitProof
  decodeValue := values.deserialize .lightClientInitProof
  getId _ := .error (.error "Cannot get the db key from a proof")

def lightClientSyncCommitteeProof : Repository (values.Value .lightClientSyncCommitteeProof) where
  bucket := .altair_lightClientSyncCommitteeProof
  encodeValue := values.serialize .lightClientSyncCommitteeProof
  decodeValue := values.deserialize .lightClientSyncCommitteeProof
  getId _ := .error (.error "Cannot get the db key from a proof")

def repository : (name : RepositoryName) → Repository (values.Value name)
  | .block => block values
  | .pendingBlock => pendingBlock values
  | .blockArchive => blockArchive values
  | .stateArchive => stateArchive values
  | .aggregateAndProof => aggregateAndProof values
  | .voluntaryExit => voluntaryExit values
  | .proposerSlashing => proposerSlashing values
  | .attesterSlashing => attesterSlashing values
  | .depositEvent => depositEvent values
  | .depositDataRoot => depositDataRoot values
  | .eth1Data => eth1Data values
  | .bestUpdatePerCommitteePeriod => bestUpdatePerCommitteePeriod values
  | .lightclientFinalizedCheckpoint => lightclientFinalizedCheckpoint values
  | .lightClientInitProof => lightClientInitProof values
  | .lightClientSyncCommitteeProof => lightClientSyncCommitteeProof values

/-! ## The archives -/

/-- The indices of `blockArchiveIndex` and `stateArchiveIndex`. -/
def indexKey (bucket : Bucket) (root : Root) : Buffer := encodeKey bucket.value (.bytes root.toList)

section

variable (bucket : Bucket) (db : Store)

def storeIndex (slot : Nat) (root : Root) : Store :=
  LevelDbController.put db (indexKey bucket root) (BigEndian.encode 8 slot)

def deleteIndex (root : Root) : Store := LevelDbController.delete db (indexKey bucket root)

def getSlotByIndex (root : Root) : Option Nat :=
  (LevelDbController.get db (indexKey bucket root)).map fun value => toNumber (BigEndian.decode value)

end

namespace BlockArchiveRepository

def storeIndices (db : Store) (summary : BlockSummary) : Store :=
  storeIndex .index_blockArchiveParentRootIndex
    (storeIndex .index_blockArchiveRootIndex db summary.slot summary.blockRoot) summary.slot summary.parentRoot

def deleteIndices (db : Store) (summary : BlockSummary) : Store :=
  deleteIndex .index_blockArchiveParentRootIndex (deleteIndex .index_blockArchiveRootIndex db summary.blockRoot)
    summary.parentRoot

def put (db : Store) (key : Id) (value : values.Value .blockArchive) : Store :=
  storeIndices ((blockArchive values).put db key value) (values.archivedMessage value)

def batchPut (db : Store) (items : List (Id × values.Value .blockArchive)) : Store :=
  (items.map fun item => values.archivedMessage item.2).foldl storeIndices ((blockArchive values).batchPut db items)

def batchPutBinary (db : Store) (items : List (Id × Buffer × BlockSummary)) : Store :=
  (items.map fun item => item.2.2).foldl storeIndices
    ((blockArchive values).batchPutBinary db (items.map fun item => (item.1, item.2.1)))

def remove (db : Store) (value : values.Value .blockArchive) : Except DbError Store :=
  ((blockArchive values).write db (.remove value)).map fun db => deleteIndices db (values.archivedMessage value)

def batchRemove (db : Store) (removed : List (values.Value .blockArchive)) : Except DbError Store :=
  ((blockArchive values).write db (.batchRemove removed)).map fun db =>
    (removed.map values.archivedMessage).foldl deleteIndices db

/-- `add` and `batchAdd` call the overridden `put` and `batchPut`. -/
def write (db : Store) : Repository.Write (values.Value .blockArchive) → Except DbError Store
  | .put key value => .ok (put values db key value)
  | .add value => ((blockArchive values).getId value).map fun id => put values db id value
  | .batchPut items => .ok (batchPut values db items)
  | .batchAdd added => ((blockArchive values).getIds added).map fun ids => batchPut values db (ids.zip added)
  | .remove value => remove values db value
  | .batchRemove removed => batchRemove values db removed
  | other => (blockArchive values).write db other

def firstSlot (opts : FilterOptions Buffer) : Except DbError Nat :=
  let slotOf (key : Buffer) := toNumber (BigEndian.decode (key.drop BUCKET_LENGTH))
  match opts.gt, opts.gte with
  | some gt, _ => .ok (slotOf gt + 1)
  | none, some gte => .ok (slotOf gte)
  | none, none => .error (.error "specify opts.gt or opts.gte")

def valuesByStep (db : Store) (opts : FilterOptions Id) (step : Nat) : Except DbError (List (values.Value .blockArchive)) := do
  let firstSlot ← firstSlot ((blockArchive values).dbFilterOptions opts)
  let found ← (blockArchive values).values db opts
  return found.filter fun value =>
    ((values.archivedMessage value).slot - firstSlot : Int) % (if step = 0 then 1 else step : Nat) == 0

section

variable (db : Store) (root : Root)

def getSlotByRoot : Option Nat := getSlotByIndex .index_blockArchiveRootIndex db root

def getSlotByParentRoot : Option Nat :=
  getSlotByIndex .index_blockArchiveParentRootIndex db root

def getByRoot : Except DbError (Option (values.Value .blockArchive)) :=
  match getSlotByRoot db root with
  | none => .ok none
  | some slot => (blockArchive values).get db (.number slot)

def getByParentRoot : Except DbError (Option (values.Value .blockArchive)) :=
  match getSlotByParentRoot db root with
  | none => .ok none
  | some slot => (blockArchive values).get db (.number slot)

end

end BlockArchiveRepository

namespace StateArchiveRepository

def put (db : Store) (key : Id) (value : values.Value .stateArchive) : Store :=
  let db := (stateArchive values).put db key value
  match key with
  | .number slot => storeIndex .index_stateArchiveRootIndex db slot (values.hashTreeRoot .stateArchive value)
  | _ => db

def write (db : Store) : Repository.Write (values.Value .stateArchive) → Except DbError Store
  | .put key value => .ok (put values db key value)
  | .add value => ((stateArchive values).getId value).map fun id => put values db id value
  | other => (stateArchive values).write db other

def getByRoot (db : Store) (stateRoot : Root) : Except DbError (Option (values.Value .stateArchive)) :=
  match getSlotByIndex .index_stateArchiveRootIndex db stateRoot with
  | none => .ok none
  | some slot => (stateArchive values).get db (.number slot)

end StateArchiveRepository

/-! ## Deletion by range -/

namespace DepositEventRepository

/-- `Array.from({length: depositCount - firstDepositIndex}, (_, i) => i + firstDepositIndex)`.  On a buffer the difference
converts it to a number and the sum appends its text to the digits of `i`. -/
def oldIndices (depositCount : Nat) : Id → List Id
  | .number first | .bigint first => (List.range (depositCount - first)).map fun i => .number (i + first)
  | .bytes first =>
    match values.bufferToNumber first with
    | none => []
    | some index =>
      (List.range (depositCount - index)).map fun i => .string (toString i ++ String.ofList (Utf8.decode first))
  | .string _ => []

def deleteOld (db : Store) (depositCount : Nat) : Store :=
  match (depositEvent values).firstKey db with
  | none => db
  | some firstDepositIndex => (depositEvent values).batchDelete db (oldIndices values depositCount firstDepositIndex)

end DepositEventRepository

namespace Eth1DataRepository

def deleteOld (db : Store) (timestamp : Nat) : Store :=
  (eth1Data values).batchDelete db ((eth1Data values).keys db { lt := some (.number timestamp) })

end Eth1DataRepository

namespace AggregateAndProofRepository

def removeIncluded (db : Store) (attestations : List values.Attestation) : Store :=
  (aggregateAndProof values).batchDelete db
    (attestations.map fun attestation => .bytes (values.attestationRoot attestation).toList)

def pruneFinalized (P : Preset) (db : Store) (finalizedEpoch : Nat) : Except DbError Store :=
  ((aggregateAndProof values).entries db {}).map fun entries =>
    let old := entries.filter fun entry =>
      decide (values.attestationSlot (values.aggregate entry.2) < computeStartSlotAtEpoch P finalizedEpoch)
    (aggregateAndProof values).batchDelete db (old.map (·.1))

end AggregateAndProofRepository

/-! ## The single values -/

def singleBucket : SingleName → Bucket
  | .preGenesisState => .phase0_preGenesisState
  | .preGenesisStateLastProcessedBlock => .phase0_preGenesisStateLastProcessedBlock
  | .latestFinalizedUpdate => .altair_latestFinalizedUpdate
  | .latestNonFinalizedUpdate => .altair_latestNonFinalizedUpdate

/-- `Buffer.from(new Uint8Array([this.bucket]))`. -/
def singleKey (name : SingleName) : Buffer := [UInt8.ofNat (singleBucket name).value]

section

variable (db : Store) (name : SingleName)

def getSingle : Except DbError (Option (values.Single name)) :=
  match LevelDbController.get db (singleKey name) with
  | none => .ok none
  | some value => (values.deserializeSingle name value).map some

def putSingle (value : values.Single name) : Store :=
  LevelDbController.put db (singleKey name) (values.serializeSingle name value)

def deleteSingle : Store := LevelDbController.delete db (singleKey name)

end

end BeaconDb

/-! ## The interface of the node -/

inductive Member
  | repository (name : RepositoryName)
  | single (name : SingleName)
deriving DecidableEq, Repr

namespace BeaconDb

variable (values : Values)

inductive Read : Member → Type
  | repository (name : RepositoryName) (query : Repository.Query) : Read (.repository name)
  | blockArchiveByStep (opts : FilterOptions Id) (step : Nat) : Read (.repository .blockArchive)
  | blockArchiveSlotByRoot (root : Root) : Read (.repository .blockArchive)
  | blockArchiveSlotByParentRoot (root : Root) : Read (.repository .blockArchive)
  | blockArchiveByRoot (root : Root) : Read (.repository .blockArchive)
  | blockArchiveByParentRoot (root : Root) : Read (.repository .blockArchive)
  | stateArchiveByRoot (root : Root) : Read (.repository .stateArchive)
  | single (name : SingleName) : Read (.single name)

inductive Answer : Member → Type
  | repository {name : RepositoryName} (answer : Repository.Answer (values.Value name)) : Answer (.repository name)
  | slot {name : RepositoryName} (slot : Option Nat) : Answer (.repository name)
  | single {name : SingleName} (value : Option (values.Single name)) : Answer (.single name)

/-- `values` of the block archive is overridden, so its `firstValue` and `lastValue` go through the steps too. -/
def answerRepository (db : Store) (name : RepositoryName) (query : Repository.Query) :
    Except DbError (Repository.Answer (values.Value name)) :=
  match name, query with
  | .blockArchive, .values opts => (BlockArchiveRepository.valuesByStep values db opts 0).map .values
  | .blockArchive, .firstValue =>
    (BlockArchiveRepository.valuesByStep values db { limit := some 1 } 0).map fun found => .value found.head?
  | .blockArchive, .lastValue =>
    (BlockArchiveRepository.valuesByStep values db { limit := some 1, reverse := true } 0).map fun found =>
      .value found.head?
  | name, query => (repository values name).answer db query

def answer (db : Store) : {member : Member} → Read member → Except DbError (Answer values member)
  | _, .repository name query => (answerRepository values db name query).map .repository
  | _, .blockArchiveByStep opts step =>
    (BlockArchiveRepository.valuesByStep values db opts step).map fun found => .repository (.values found)
  | _, .blockArchiveSlotByRoot root => .ok (.slot (BlockArchiveRepository.getSlotByRoot db root))
  | _, .blockArchiveSlotByParentRoot root => .ok (.slot (BlockArchiveRepository.getSlotByParentRoot db root))
  | _, .blockArchiveByRoot root =>
    (BlockArchiveRepository.getByRoot values db root).map fun found => .repository (.value found)
  | _, .blockArchiveByParentRoot root =>
    (BlockArchiveRepository.getByParentRoot values db root).map fun found => .repository (.value found)
  | _, .stateArchiveByRoot root =>
    (StateArchiveRepository.getByRoot values db root).map fun found => .repository (.value found)
  | _, .single name => (getSingle values db name).map .single

inductive Write : Member → Type
  | repository (name : RepositoryName) (write : Repository.Write (values.Value name)) : Write (.repository name)
  | blockArchiveBatchPutBinary (items : List (Id × Buffer × BlockSummary)) : Write (.repository .blockArchive)
  | depositEventDeleteOld (depositCount : Nat) : Write (.repository .depositEvent)
  | eth1DataDeleteOld (timestamp : Nat) : Write (.repository .eth1Data)
  | removeIncluded (attestations : List values.Attestation) : Write (.repository .aggregateAndProof)
  | pruneFinalized (finalizedEpoch : Nat) : Write (.repository .aggregateAndProof)
  | putSingle (name : SingleName) (value : values.Single name) : Write (.single name)
  | deleteSingle (name : SingleName) : Write (.single name)

def writeRepository (db : Store) : (name : RepositoryName) → Repository.Write (values.Value name) → Except DbError Store
  | .blockArchive, write => BlockArchiveRepository.write values db write
  | .stateArchive, write => StateArchiveRepository.write values db write
  | name, write => (repository values name).write db write

def apply (P : Preset) (db : Store) : {member : Member} → Write values member → Except DbError Store
  | _, .repository name write => writeRepository values db name write
  | _, .blockArchiveBatchPutBinary items => .ok (BlockArchiveRepository.batchPutBinary values db items)
  | _, .depositEventDeleteOld depositCount => .ok (DepositEventRepository.deleteOld values db depositCount)
  | _, .eth1DataDeleteOld timestamp => .ok (Eth1DataRepository.deleteOld values db timestamp)
  | _, .removeIncluded attestations => .ok (AggregateAndProofRepository.removeIncluded values db attestations)
  | _, .pruneFinalized finalizedEpoch => AggregateAndProofRepository.pruneFinalized values P db finalizedEpoch
  | _, .putSingle name value => .ok (putSingle values db name value)
  | _, .deleteSingle name => .ok (deleteSingle db name)

structure Call where
  member : Member
  write : Write values member

def step (P : Preset) (db : Store) (call : Call values) : Store := settled db (apply values P db call.write)

def run (P : Preset) (db : Store) (calls : List (Call values)) : Store := calls.foldl (step values P) db

end BeaconDb

end Lodestar.Db
