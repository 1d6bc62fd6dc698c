import Lodestar.Db.BeaconDb
/-!
# Isolation — what a write through one repository does to the reads of another

Each member of `BeaconDb` reads and writes the keys of its own buckets alone (`readsOnly_answer`, `writesOnly_step`), so
two members whose buckets have different numbers never see each other.  The enumeration gives 30 and 31 twice.
-/
namespace Lodestar.Db

open Lib SortedMap
open scoped Lib.BigEndian

def Member.buckets : Member → List Bucket
  | .repository .block => [.allForks_block]
  | .repository .pendingBlock => [.allForks_pendingBlock]
  | .repository .blockArchive =>
    [.allForks_blockArchive, .index_blockArchiveParentRootIndex, .index_blockArchiveRootIndex]
  | .repository .stateArchive => [.allForks_stateArchive, .index_stateArchiveRootIndex]
  | .repository .aggregateAndProof => [.phase0_aggregateAndProof]
  | .repository .voluntaryExit => [.phase0_exit]
  | .repository .proposerSlashing => [.phase0_proposerSlashing]
  | .repository .attesterSlashing => [.phase0_attesterSlashing]
  | .repository .depositEvent => [.phase0_depositEvent]
  | .repository .depositDataRoot => [.index_depositDataRoot]
  | .repository .eth1Data => [.phase0_eth1Data]
  | .repository .bestUpdatePerCommitteePeriod => [.altair_bestUpdatePerCommitteePeriod]
  | .repository .lightclientFinalizedCheckpoint => [.altair_lightclientFinalizedCheckpoint]
  | .repository .lightClientInitProof => [.altair_lightClientInitProof]
  | .repository .lightClientSyncCommitteeProof => [.altair_lightClientSyncCommitteeProof]
  | .single name => [BeaconDb.singleBucket name]

def Member.Owns (member : Member) (key : Buffer) : Prop := ∃ bucket ∈ member.buckets, InBucket bucket.value key

namespace BeaconDb

variable (values : Values)

theorem owns_of_inBucket (name : RepositoryName) (key : Buffer) (h : InBucket (repository values name).bucket.value key) :
    (Member.repository name).Owns key := by
  refine ⟨(repository values name).bucket, ?_, h⟩
  cases name <;> simp [Member.buckets, repository, block, pendingBlock, blockArchive, stateArchive, aggregateAndProof,
    voluntaryExit, proposerSlashing, attesterSlashing, depositEvent, depositDataRoot, eth1Data,
    bestUpdatePerCommitteePeriod, lightclientFinalizedCheckpoint, lightClientInitProof, lightClientSyncCommitteeProof,
    rootRepository]

variable {member : Member} {bucket : Bucket}

theorem owns_indexKey (h : bucket ∈ member.buckets) (root : Root) : member.Owns (indexKey bucket root) :=
  ⟨bucket, h, inBucket_encodeKey _ _⟩

theorem owns_singleKey (name : SingleName) : (Member.single name).Owns (singleKey name) :=
  ⟨singleBucket name, List.mem_singleton_self _, rfl⟩

/-! ## Reads -/

theorem readsOnly_getSlotByIndex (h : bucket ∈ member.buckets) (root : Root) :
    ReadsOnly member.Owns (fun db => getSlotByIndex bucket db root) :=
  (readsOnly_get? (owns_indexKey h root)).of fun db db' heq => by
    simp only [getSlotByIndex, LevelDbController.get, heq]

theorem readsOnly_byIndex (name : RepositoryName) (h : bucket ∈ (Member.repository name).buckets) (root : Root)
    (query : Store → Except DbError (Option (values.Value name)))
    (hquery : ∀ db, query db = match getSlotByIndex bucket db root with
      | none => .ok none
      | some slot => (repository values name).get db (.number slot)) :
    ReadsOnly (Member.repository name).Owns query := by
  intro db db' hagree
  have hslot : getSlotByIndex bucket db root = getSlotByIndex bucket db' root :=
    readsOnly_getSlotByIndex h root db db' hagree
  rw [hquery, hquery, hslot]
  cases getSlotByIndex bucket db' root with
  | none => rfl
  | some slot => exact Repository.readsOnly_get (owns_of_inBucket values name) (.number slot) db db' hagree

theorem readsOnly_valuesByStep (opts : FilterOptions Id) (step : Nat) : ReadsOnly (Member.repository .blockArchive).Owns
      (fun db => BlockArchiveRepository.valuesByStep values db opts step) :=
  (Repository.readsOnly_values (owns_of_inBucket values .blockArchive) opts).of fun db db' h => by
    have h' : (blockArchive values).values db opts = (blockArchive values).values db' opts := h
    simp only [BlockArchiveRepository.valuesByStep, h']

theorem readsOnly_answerRepository (name : RepositoryName) (query : Repository.Query) :
    ReadsOnly (Member.repository name).Owns (fun db => answerRepository values db name query) := by
  have hbase := Repository.readsOnly_answer (owns_of_inBucket values name) query
  cases name with
  | blockArchive =>
    cases query with
    | values opts =>
      exact (readsOnly_valuesByStep values opts 0).of fun db db' h => by simp only [answerRepository, h]
    | firstValue =>
      exact (readsOnly_valuesByStep values { limit := some 1 } 0).of fun db db' h => by simp only [answerRepository, h]
    | lastValue =>
      exact (readsOnly_valuesByStep values { limit := some 1, reverse := true } 0).of fun db db' h => by
        simp only [answerRepository, h]
    | _ => exact hbase
  | _ => exact hbase

theorem readsOnly_answer (read : Read member) :
    ReadsOnly member.Owns (fun db => answer values db read) := by
  cases read with
  | repository name query =>
    exact (readsOnly_answerRepository values name query).of fun db db' h => by simp only [answer, h]
  | blockArchiveByStep opts step =>
    exact (readsOnly_valuesByStep values opts step).of fun db db' h => by simp only [answer, h]
  | blockArchiveSlotByRoot root =>
    have hmem : Bucket.index_blockArchiveRootIndex ∈ (Member.repository .blockArchive).buckets := by decide
    exact (readsOnly_getSlotByIndex hmem root).of fun db db' h => by
      simp only [answer, BlockArchiveRepository.getSlotByRoot, h]
  | blockArchiveSlotByParentRoot root =>
    have hmem : Bucket.index_blockArchiveParentRootIndex ∈ (Member.repository .blockArchive).buckets := by decide
    exact (readsOnly_getSlotByIndex hmem root).of fun db db' h => by
      simp only [answer, BlockArchiveRepository.getSlotByParentRoot, h]
  | blockArchiveByRoot root =>
    have hmem : Bucket.index_blockArchiveRootIndex ∈ (Member.repository .blockArchive).buckets := by decide
    have hget := readsOnly_byIndex values .blockArchive hmem root
      (fun db => BlockArchiveRepository.getByRoot values db root) fun _ => rfl
    exact hget.of fun db db' h => by simp only [answer, h]
  | blockArchiveByParentRoot root =>
    have hmem : Bucket.index_blockArchiveParentRootIndex ∈ (Member.repository .blockArchive).buckets := by decide
    have hget := readsOnly_byIndex values .blockArchive hmem root
      (fun db => BlockArchiveRepository.getByParentRoot values db root) fun _ => rfl
    exact hget.of fun db db' h => by simp only [answer, h]
  | stateArchiveByRoot root =>
    have hmem : Bucket.index_stateArchiveRootIndex ∈ (Member.repository .stateArchive).buckets := by decide
    have hget := readsOnly_byIndex values .stateArchive hmem root
      (fun db => StateArchiveRepository.getByRoot values db root) fun _ => rfl
    exact hget.of fun db db' h => by simp only [answer, h]
  | single name =>
    exact (readsOnly_get? (owns_singleKey name)).of fun db db' h => by
      simp only [answer, getSingle, LevelDbController.get, h]

/-! ## Writes -/

theorem writesOnly_storeIndex (h : bucket ∈ member.buckets) (slot : Nat) (root : Root) :
    WritesOnly member.Owns (fun db => storeIndex bucket db slot root) :=
  writesOnly_insert (owns_indexKey h root) _

theorem writesOnly_deleteIndex (h : bucket ∈ member.buckets) (root : Root) :
    WritesOnly member.Owns (fun db => deleteIndex bucket db root) :=
  writesOnly_erase (owns_indexKey h root)

namespace BlockArchiveRepository

theorem writesOnly_storeIndices (summary : BlockSummary) :
    WritesOnly (Member.repository .blockArchive).Owns (fun db => storeIndices db summary) :=
  (writesOnly_storeIndex (by decide) summary.slot summary.blockRoot).comp
    (writesOnly_storeIndex (by decide) summary.slot summary.parentRoot)

theorem writesOnly_deleteIndices (summary : BlockSummary) :
    WritesOnly (Member.repository .blockArchive).Owns (fun db => deleteIndices db summary) :=
  (writesOnly_deleteIndex (by decide) summary.blockRoot).comp (writesOnly_deleteIndex (by decide) summary.parentRoot)

theorem writesOnly_put (key : Id) (value : values.Value .blockArchive) :
    WritesOnly (Member.repository .blockArchive).Owns (fun db => put values db key value) :=
  (Repository.writesOnly_putBinary (owns_of_inBucket values .blockArchive) key _).comp (writesOnly_storeIndices _)

theorem writesOnly_batchPut (items : List (Id × values.Value .blockArchive)) :
    WritesOnly (Member.repository .blockArchive).Owns (fun db => batchPut values db items) :=
  (Repository.writesOnly_batchPutBinary (owns_of_inBucket values .blockArchive) _).comp
    (writesOnly_foldl _ fun summary _ => writesOnly_storeIndices summary)

theorem writesOnly_batchPutBinary (items : List (Id × Buffer × BlockSummary)) :
    WritesOnly (Member.repository .blockArchive).Owns (fun db => batchPutBinary values db items) :=
  (Repository.writesOnly_batchPutBinary (owns_of_inBucket values .blockArchive) _).comp
    (writesOnly_foldl _ fun summary _ => writesOnly_storeIndices summary)

theorem writesOnly_write (write : Repository.Write (values.Value .blockArchive)) :
    WritesOnly (Member.repository .blockArchive).Owns
      (fun db => settled db (BlockArchiveRepository.write values db write)) := by
  have hbase := Repository.writesOnly_write (owns_of_inBucket values .blockArchive)
  cases write with
  | put key value => exact writesOnly_put values key value
  | add value =>
    exact Repository.writesOnly_settled_map (fun _ => (blockArchive values).getId value) fun id =>
      writesOnly_put values id value
  | batchPut items => exact writesOnly_batchPut values items
  | batchAdd added =>
    exact Repository.writesOnly_settled_map (fun _ => (blockArchive values).getIds added) fun ids =>
      writesOnly_batchPut values (ids.zip added)
  | remove value =>
    exact Repository.writesOnly_settled_then (hbase (.remove value)) (writesOnly_deleteIndices _)
  | batchRemove removed =>
    exact Repository.writesOnly_settled_then (hbase (.batchRemove removed))
      (writesOnly_foldl _ fun summary _ => writesOnly_deleteIndices summary)
  | putBinary id value => exact hbase (.putBinary id value)
  | delete id => exact hbase (.delete id)
  | batchPutBinary items => exact hbase (.batchPutBinary items)
  | batchDelete ids => exact hbase (.batchDelete ids)

end BlockArchiveRepository

namespace StateArchiveRepository

theorem writesOnly_put (key : Id) (value : values.Value .stateArchive) :
    WritesOnly (Member.repository .stateArchive).Owns (fun db => put values db key value) := by
  have hput := Repository.writesOnly_putBinary (owns_of_inBucket values .stateArchive) key (values.serialize _ value)
  cases key with
  | number slot => exact hput.comp (writesOnly_storeIndex (by decide) slot _)
  | _ => exact hput

theorem writesOnly_write (write : Repository.Write (values.Value .stateArchive)) :
    WritesOnly (Member.repository .stateArchive).Owns
      (fun db => settled db (StateArchiveRepository.write values db write)) := by
  have hbase := Repository.writesOnly_write (owns_of_inBucket values .stateArchive) write
  cases write with
  | put key value => exact writesOnly_put values key value
  | add value =>
    exact Repository.writesOnly_settled_map (fun _ => (stateArchive values).getId value) fun id =>
      writesOnly_put values id value
  | _ => exact hbase

end StateArchiveRepository

theorem writesOnly_writeRepository (name : RepositoryName) (write : Repository.Write (values.Value name)) :
    WritesOnly (Member.repository name).Owns (fun db => settled db (writeRepository values db name write)) := by
  have hbase := Repository.writesOnly_write (owns_of_inBucket values name) write
  cases name with
  | blockArchive => exact BlockArchiveRepository.writesOnly_write values write
  | stateArchive => exact StateArchiveRepository.writesOnly_write values write
  | _ => exact hbase

theorem writesOnly_step (P : Preset) (call : Call values) :
    WritesOnly call.member.Owns (fun db => step values P db call) := by
  obtain ⟨member, write⟩ := call
  cases write with
  | repository name write => exact writesOnly_writeRepository values name write
  | blockArchiveBatchPutBinary items => exact BlockArchiveRepository.writesOnly_batchPutBinary values items
  | depositEventDeleteOld depositCount =>
    intro db key hkey
    show (DepositEventRepository.deleteOld values db depositCount).get? key = db.get? key
    unfold DepositEventRepository.deleteOld
    split
    · rfl
    · exact Repository.writesOnly_batchDelete (owns_of_inBucket values .depositEvent) _ db key hkey
  | eth1DataDeleteOld timestamp =>
    exact WritesOnly.choose (fun db => (eth1Data values).keys db { lt := some (.number timestamp) }) fun ids =>
      Repository.writesOnly_batchDelete (owns_of_inBucket values .eth1Data) ids
  | removeIncluded attestations =>
    exact Repository.writesOnly_batchDelete (owns_of_inBucket values .aggregateAndProof) _
  | pruneFinalized finalizedEpoch =>
    exact Repository.writesOnly_settled_map (fun db => (aggregateAndProof values).entries db {}) fun entries =>
      Repository.writesOnly_batchDelete (owns_of_inBucket values .aggregateAndProof) _
  | putSingle name value => exact writesOnly_insert (owns_singleKey name) _
  | deleteSingle name => exact writesOnly_erase (owns_singleKey name)

end BeaconDb

/-! ## Which members share a bucket -/

def members : List Member :=
  [.repository .block, .repository .pendingBlock, .repository .blockArchive, .repository .stateArchive,
    .repository .aggregateAndProof, .repository .voluntaryExit, .repository .proposerSlashing,
    .repository .attesterSlashing, .repository .depositEvent, .repository .depositDataRoot, .repository .eth1Data,
    .repository .bestUpdatePerCommitteePeriod, .repository .lightclientFinalizedCheckpoint,
    .repository .lightClientInitProof, .repository .lightClientSyncCommitteeProof, .single .preGenesisState,
    .single .preGenesisStateLastProcessedBlock, .single .latestFinalizedUpdate, .single .latestNonFinalizedUpdate]

theorem mem_members (member : Member) : member ∈ members := by
  rcases member with name | name <;> cases name <;> decide

def sharing : List (Member × Member) :=
  [(.single .preGenesisState, .repository .bestUpdatePerCommitteePeriod),
    (.repository .bestUpdatePerCommitteePeriod, .single .preGenesisState),
    (.single .preGenesisStateLastProcessedBlock, .single .latestFinalizedUpdate),
    (.single .latestFinalizedUpdate, .single .preGenesisStateLastProcessedBlock)]

variable {a b : Member}

theorem mem_sharing_or_eq {bucket bucket' : Bucket} (ha : bucket ∈ a.buckets) (hb : bucket' ∈ b.buckets)
    (h : bucket.value = bucket'.value) : (a, b) ∈ sharing ∨ a = b ∧ bucket = bucket' := by
  have hall : ∀ a ∈ members, ∀ b ∈ members, ∀ bucket ∈ a.buckets, ∀ bucket' ∈ b.buckets,
      bucket.value = bucket'.value → (a, b) ∈ sharing ∨ a = b ∧ bucket = bucket' := by decide +kernel
  exact hall a (mem_members a) b (mem_members b) bucket ha bucket' hb h

theorem Member.Owns.mem_sharing_or_eq {key : Buffer} (ha : a.Owns key) (hb : b.Owns key) :
    (a, b) ∈ sharing ∨ a = b := by
  obtain ⟨bucket, hmem, hkey⟩ := ha
  obtain ⟨bucket', hmem', hkey'⟩ := hb
  exact (Db.mem_sharing_or_eq hmem hmem' (hkey.value_eq hkey')).imp_right And.left

/-! ## Isolation -/

def Bucket.numberKeyed : Bucket → Bool
  | .allForks_stateArchive | .allForks_blockArchive | .phase0_eth1Data | .index_depositDataRoot | .phase0_depositEvent
  | .phase0_exit | .phase0_proposerSlashing | .altair_bestUpdatePerCommitteePeriod
  | .altair_lightclientFinalizedCheckpoint | .altair_lightClientInitProof | .altair_lightClientSyncCommitteeProof => true
  | _ => false

def Bucket.HasId (bucket : Bucket) : Id → Prop
  | .bytes _ => bucket.numberKeyed = false
  | .number key => bucket.numberKeyed = true ∧ key < 256 ^ uintLen
  | _ => False

theorem Bucket.HasId.toBytes_inj {bucket : Bucket} {id id' : Id} (h : bucket.HasId id) (h' : bucket.HasId id')
    (heq : id.toBytes = id'.toBytes) : id = id' := by
  cases id with
  | bytes key =>
    cases id' with
    | bytes key' => rw [show key = key' from heq]
    | number key' => exact absurd (show bucket.numberKeyed = false from h) (by rw [h'.1]; decide)
    | _ => exact h'.elim
  | number key =>
    cases id' with
    | bytes key' => exact absurd (show bucket.numberKeyed = false from h') (by rw [h.1]; decide)
    | number key' => rw [BigEndian.encode_inj h.2 h'.2 heq]
    | _ => exact h'.elim
  | _ => exact h.elim

namespace BeaconDb

/-- The members in use do not see each other. -/
structure Isolated (values : Values) (P : Preset) (used : Member → Prop) : Prop where
  /-- At every point of every run, a write changes no read of another member. -/
  frame : ∀ (db : Store) (before : List (Call values)) (call : Call values), (∀ c ∈ before ++ [call], used c.member) →
    ∀ reader : Member, used reader → reader ≠ call.member → ∀ read : Read reader,
      answer values (run values P db (before ++ [call])) read = answer values (run values P db before) read
  disjoint : ∀ a b : Member, used a → used b → a ≠ b → ∀ bucket ∈ a.buckets, ∀ bucket' ∈ b.buckets, ∀ id id' : Id,
    encodeKey bucket.value id ≠ encodeKey bucket'.value id'
  injective : ∀ a b : Member, used a → used b → ∀ bucket ∈ a.buckets, ∀ bucket' ∈ b.buckets, ∀ id id' : Id,
    bucket.HasId id → bucket'.HasId id' → encodeKey bucket.value id = encodeKey bucket'.value id' →
      bucket = bucket' ∧ id = id'

variable {values : Values} {P : Preset} {used : Member → Prop}

theorem not_mem_sharing
    (h : ¬ (used (.single .preGenesisState) ∧ used (.repository .bestUpdatePerCommitteePeriod)))
    (h' : ¬ (used (.single .preGenesisStateLastProcessedBlock) ∧ used (.single .latestFinalizedUpdate)))
    {a b : Member} (ha : used a) (hb : used b) : (a, b) ∉ sharing := by
  intro hmem
  simp only [sharing, List.mem_cons, Prod.mk.injEq, List.not_mem_nil, or_false] at hmem
  rcases hmem with ⟨rfl, rfl⟩ | ⟨rfl, rfl⟩ | ⟨rfl, rfl⟩ | ⟨rfl, rfl⟩
  · exact h ⟨ha, hb⟩
  · exact h ⟨hb, ha⟩
  · exact h' ⟨ha, hb⟩
  · exact h' ⟨hb, ha⟩

theorem answer_step (db : Store) (call : Call values) {reader : Member} (hne : reader ≠ call.member)
    (hshare : (reader, call.member) ∉ sharing) (read : Read reader) :
    answer values (step values P db call) read = answer values db read := by
  refine (readsOnly_answer values read).frame (writesOnly_step values P call) (fun key hread hwrite => ?_) db
  rcases hread.mem_sharing_or_eq hwrite with hmem | heq
  · exact hshare hmem
  · exact hne heq

theorem isolated_of_not_sharing (h : ∀ a b : Member, used a → used b → (a, b) ∉ sharing) : Isolated values P used where
  frame db before call hused reader hreader hne read := by
    have hcall : used call.member := hused call (by simp)
    unfold run
    rw [List.foldl_append]
    exact answer_step _ call hne (h _ _ hreader hcall) read
  disjoint a b ha hb hne bucket hmem bucket' hmem' id id' heq := by
    rcases mem_sharing_or_eq hmem hmem' ((encodeKey_eq_iff bucket bucket' id id').1 heq).1 with hshare | ⟨hab, -⟩
    · exact h a b ha hb hshare
    · exact hne hab
  injective a b ha hb bucket hmem bucket' hmem' id id' hid hid' heq := by
    obtain ⟨hvalue, hbytes⟩ := (encodeKey_eq_iff bucket bucket' id id').1 heq
    rcases mem_sharing_or_eq hmem hmem' hvalue with hshare | ⟨-, rfl⟩
    · exact absurd hshare (h a b ha hb)
    · exact ⟨rfl, hid.toBytes_inj hid' hbytes⟩

/-- **The members in use are isolated exactly when neither of the two numbers the enumeration gives twice is used twice**:
30, by `preGenesisState` and `bestUpdatePerCommitteePeriod`, and 31, by `preGenesisStateLastProcessedBlock` and
`latestFinalizedUpdate`. -/
theorem isolated_iff (values : Values) (P : Preset) (used : Member → Prop) :
    Isolated values P used ↔
      ¬ (used (.single .preGenesisState) ∧ used (.repository .bestUpdatePerCommitteePeriod)) ∧
      ¬ (used (.single .preGenesisStateLastProcessedBlock) ∧ used (.single .latestFinalizedUpdate)) := by
  constructor
  · intro h
    refine ⟨fun ⟨hstate, hbest⟩ => ?_, fun ⟨hlast, hlatest⟩ => ?_⟩
    · -- the state's key is the bare byte 30, where the range of the updates begins
      have hframe := h.frame (SortedMap.empty.insert [30] []) [] ⟨_, .deleteSingle .preGenesisState⟩
        (by simpa using hstate) _ hbest (fun heq => by cases heq) (.repository _ (.keys {}))
      have hbefore : answer values (SortedMap.empty.insert [30] [])
          (.repository .bestUpdatePerCommitteePeriod (.keys {})) = .ok (.repository (.keys [.number 0])) := rfl
      have hafter : answer values (run values P (SortedMap.empty.insert [30] []) [⟨_, .deleteSingle .preGenesisState⟩])
          (.repository .bestUpdatePerCommitteePeriod (.keys {})) = .ok (.repository (.keys [])) := rfl
      have heq := hafter.symm.trans (hframe.trans hbefore)
      cases heq
    · -- both are the value of the bare byte 31
      have hframe := h.frame (SortedMap.empty.insert [31] []) []
        ⟨_, .deleteSingle .latestFinalizedUpdate⟩ (by simpa using hlatest) _ hlast (fun heq => by cases heq) (.single _)
      have hbefore : answer values (SortedMap.empty.insert [31] []) (.single .preGenesisStateLastProcessedBlock) =
          ((values.deserializeSingle .preGenesisStateLastProcessedBlock []).map some).map .single := rfl
      have hafter : answer values (run values P (SortedMap.empty.insert [31] [])
          [⟨_, .deleteSingle .latestFinalizedUpdate⟩]) (.single .preGenesisStateLastProcessedBlock) =
            .ok (.single none) := rfl
      have heq := hafter.symm.trans (hframe.trans hbefore)
      cases hvalue : values.deserializeSingle .preGenesisStateLastProcessedBlock [] with
      | error e =>
        rw [hvalue] at heq
        cases heq
      | ok value =>
        rw [hvalue] at heq
        cases heq
  · rintro ⟨h, h'⟩
    exact isolated_of_not_sharing fun a b ha hb => not_mem_sharing h h' ha hb

/-! ## A run of the node -/

def plainValues : Values where
  Value _ := Buffer
  Single _ := Buffer
  Attestation := Root
  serialize _ value := value
  deserialize _ value := .ok value
  hashTreeRoot _ _ := zeroRoot
  serializeSingle _ value := value
  deserializeSingle _ value := .ok value
  blockMessageRoot _ := zeroRoot
  pendingBlockMessageRoot _ := zeroRoot
  archivedMessage _ := ⟨0, zeroRoot, zeroRoot⟩
  stateSlot _ := 0
  aggregate _ := zeroRoot
  attestationRoot root := root
  attestationSlot _ := 0
  exitValidatorIndex _ := 0
  proposerIndex _ := 0
  bufferToNumber _ := none

/-- On the empty database, the last processed block 7 is stored and read back; a light client update stored after it is
read in its place. -/
theorem latestFinalizedUpdate_replaces_lastProcessedBlock :
    let putBlock : Call plainValues := ⟨_, .putSingle .preGenesisStateLastProcessedBlock [7, 0, 0, 0, 0, 0, 0, 0]⟩
    let putUpdate : Call plainValues := ⟨_, .putSingle .latestFinalizedUpdate [1, 2, 3]⟩
    answer plainValues (run plainValues mainnet .empty [putBlock]) (.single .preGenesisStateLastProcessedBlock) =
        .ok (.single (some [7, 0, 0, 0, 0, 0, 0, 0])) ∧
      answer plainValues (run plainValues mainnet .empty [putBlock, putUpdate])
        (.single .preGenesisStateLastProcessedBlock) = .ok (.single (some [1, 2, 3])) ∧
      ¬ Isolated plainValues mainnet (fun _ => True) := by
  refine ⟨rfl, rfl, fun h => ?_⟩
  have heq := h.frame .empty [⟨_, .putSingle .preGenesisStateLastProcessedBlock [7, 0, 0, 0, 0, 0, 0, 0]⟩]
    ⟨_, .putSingle .latestFinalizedUpdate [1, 2, 3]⟩ (fun _ _ => trivial) _ trivial (by decide)
    (.single .preGenesisStateLastProcessedBlock)
  cases heq

end BeaconDb

end Lodestar.Db
