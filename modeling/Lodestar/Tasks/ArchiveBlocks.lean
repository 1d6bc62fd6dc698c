import Lodestar.Lib.Fallible
import Lodestar.Db.Isolation
import Lodestar.ForkChoice.BlockSummaries
import Lodestar.Tasks.ArchiveStates
/-!
# ArchiveBlocks — finalized blocks move to the archive

`run` moves the canonical blocks up to the finalized one from the block database to the archive and deletes the others before
it; `processFinalizedCheckpoint` prunes the fork choice after that.  Three walks over the array decide what is moved, deleted and
pruned, and they agree on every node but the first: the block of that node is left where it is.
-/
namespace Lodestar.Tasks

open Lib Lib.SortedMap Lib.Forest Db Db.BeaconDb
open scoped Lib.BigEndian

inductive TaskError
  | Error (message : String)
  | db (error : DbError)
  | protoArray (error : ProtoArrayError)
  | forkChoice (error : ForkChoiceError)
deriving DecidableEq

section Task

variable (values : Values) (codec : HexCodec) (fc : ForkChoice)

namespace ArchiveBlocksTask

def BATCH_SIZE : Nat := 1000

/-- Load a buffer instead of a block to improve performance. -/
def loadBlock (db : Store) (summary : BlockSummary) : Except TaskError (Id × Buffer × BlockSummary) :=
  match (block values).getBinary db (.bytes summary.blockRoot.toList) with
  | none => .error (.Error ("No block found for slot " ++ toString summary.slot ++ " root " ++ codec.toHexRoot summary.blockRoot))
  | some blockBuffer => .ok (.number summary.slot, blockBuffer, summary)

def processCanonicalBlocks (db : Store) (canonicalSummaries : List BlockSummary) : Except TaskError Store := do
  let canonicalBlockEntries ← canonicalSummaries.mapM (loadBlock values codec db)
  -- put to blockArchive db and delete block db
  return (block values).batchDelete (BlockArchiveRepository.batchPutBinary values db canonicalBlockEntries)
    (canonicalSummaries.map fun summary => .bytes summary.blockRoot.toList)

def processChunks (allCanonicalSummaries : List BlockSummary) : Nat → Nat → Store → Except TaskError Unit × Store
  | 0, _, db => (.ok (), db)
  | fuel + 1, i, db =>
    if i < allCanonicalSummaries.length then
      let upperBound := min (i + BATCH_SIZE) allCanonicalSummaries.length
      match processCanonicalBlocks values codec db ((allCanonicalSummaries.take upperBound).drop i) with
      | .error e => (.error e, db)
      | .ok db => processChunks allCanonicalSummaries fuel upperBound db
    else (.ok (), db)

def deleteNonCanonicalBlocks (finalized : Checkpoint) (db : Store) : Except TaskError Unit × Store :=
  match fc.iterateNonAncestors codec finalized.root with
  | .error e => (.error (.protoArray e), db)
  | .ok nonCanonicalSummaries =>
    if nonCanonicalSummaries.length > 0 then
      (.ok (), (block values).batchDelete db (nonCanonicalSummaries.map fun summary => .bytes summary.blockRoot.toList))
    else (.ok (), db)

def run (finalized : Checkpoint) (db : Store) : Except TaskError Unit × Store :=
  match fc.iterateBlockSummaries codec finalized.root with
  | .error e => (.error (.protoArray e), db)
  | .ok allCanonicalSummaries =>
    match processChunks values codec allCanonicalSummaries allCanonicalSummaries.length 0 db with
    | (.error e, db) => (.error e, db)
    | (.ok (), db) => deleteNonCanonicalBlocks values codec fc finalized db

end ArchiveBlocksTask

/-- The summaries removed from the fork choice or what was thrown and logged, and what the task leaves. -/
structure Processed where
  outcome : Except TaskError (List ProtoBlock)
  db : Store
  forkChoice : ForkChoice

variable {P : Preset} (cache : CheckpointStateCache P values)

/-- `TasksService.processFinalizedCheckpoint`, less its in-memory caches of states. -/
def processFinalizedCheckpoint (finalized : Checkpoint) (db : Store) : Processed :=
  match ArchiveBlocksTask.run values codec fc finalized db with
  | (.error e, db) => ⟨.error e, db, fc⟩
  | (.ok (), db) =>
    -- should be after ArchiveBlocksTask to handle restart cleanly
    match maybeArchiveState values cache db finalized with
    | .error e => ⟨.error (.db e), db, fc⟩
    | .ok db =>
      match AggregateAndProofRepository.pruneFinalized values P db finalized.epoch with
      | .error e => ⟨.error (.db e), db, fc⟩
      | .ok db =>
        -- tasks rely on extended fork choice
        match fc.prune (codec.toHexRoot finalized.root) with
        | (.error e, fc) => ⟨.error (.forkChoice e), db, fc⟩
        | (.ok removed, fc) => ⟨.ok removed, db, fc⟩

end Task

/-! ## A batch of moved blocks -/

section Moved

variable {values : Values} {codec : HexCodec}

/-- Summaries of canonical blocks: safe and distinct slots, and distinct roots. -/
structure Canonical (summaries : List BlockSummary) : Prop where
  safe : ∀ summary ∈ summaries, summary.slot ≤ MAX_SAFE_INTEGER
  slots : (summaries.map (·.slot)).Nodup
  roots : (summaries.map (·.blockRoot)).Nodup

namespace Canonical

variable {summaries : List BlockSummary} (h : Canonical summaries) {summary summary' : BlockSummary} (hmem : summary ∈ summaries)
  (hmem' : summary' ∈ summaries)

include h hmem hmem'

theorem eq_of_key (heq : (blockArchive values).encodeKey (.number summary.slot) =
    (blockArchive values).encodeKey (.number summary'.slot)) : summary = summary' :=
  List.inj_on_of_nodup_map h.slots hmem hmem'
    (encodeKey_number_inj (lt_of_safe (h.safe summary hmem)) (lt_of_safe (h.safe summary' hmem')) heq)

end Canonical

def blockKey (root : Root) : Id := .bytes root.toList

/-- What moving some blocks does to the store: each is archived under its slot and deleted, and the others stay. -/
structure Moved (values : Values) (summaries : List BlockSummary) (db db' : Store) : Prop where
  archived : ∀ summary ∈ summaries, ∃ buffer, (block values).getBinary db (blockKey summary.blockRoot) = some buffer ∧
    (blockArchive values).getBinary db' (.number summary.slot) = some buffer
  deleted : ∀ summary ∈ summaries, (block values).getBinary db' (blockKey summary.blockRoot) = none
  kept : ∀ root, root ∉ summaries.map (·.blockRoot) →
    (block values).getBinary db' (blockKey root) = (block values).getBinary db (blockKey root)
  archiveKept : ∀ slot ≤ MAX_SAFE_INTEGER, slot ∉ summaries.map (·.slot) →
    (blockArchive values).getBinary db' (.number slot) = (blockArchive values).getBinary db (.number slot)

theorem encodeKey_blockKey_inj {root root' : Root}
    (h : (block values).encodeKey (blockKey root) = (block values).encodeKey (blockKey root')) : root = root' :=
  Vector.toList_inj.1 (List.cons.inj h).2

theorem getBinary_frame {V : Type} {repository : Repository V} {member : Member} {update : Store → Store} (bucket : Bucket)
    (hupdate : WritesOnly member.Owns update) (hbucket : repository.bucket = bucket)
    (hother : bucket.value ∉ member.buckets.map Bucket.value)
    (db : Store) (id : Id) : repository.getBinary (update db) id = repository.getBinary db id := by
  subst hbucket
  refine hupdate db _ fun ⟨owned, hmem, hin⟩ => ?_
  have hkey : InBucket repository.bucket.value (repository.encodeKey id) := inBucket_encodeKey _ _
  exact hother (List.mem_map.2 ⟨owned, hmem, (hkey.value_eq hin).symm⟩)

theorem batchDelete_foldl (db : Store) (roots : List Root) : (block values).batchDelete db (roots.map blockKey) =
    (roots.map fun root => (block values).encodeKey (blockKey root)).foldl SortedMap.erase db := by
  unfold Repository.batchDelete LevelDbController.batchDelete
  rw [List.map_map]
  rfl

variable {roots : List Root} {root : Root}

theorem getBinary_batchDelete_of_mem (db : Store) (h : root ∈ roots) :
    (block values).getBinary ((block values).batchDelete db (roots.map blockKey)) (blockKey root) = none := by
  unfold Repository.getBinary LevelDbController.get
  rw [batchDelete_foldl, get?_foldl_erase, if_pos]
  exact List.mem_map_of_mem h

theorem getBinary_batchDelete_of_not_mem (db : Store) (h : root ∉ roots) :
    (block values).getBinary ((block values).batchDelete db (roots.map blockKey)) (blockKey root) =
      (block values).getBinary db (blockKey root) := by
  unfold Repository.getBinary LevelDbController.get
  rw [batchDelete_foldl, get?_foldl_erase, if_neg]
  rw [List.mem_map]
  rintro ⟨root', hmem, heq⟩
  rw [encodeKey_blockKey_inj heq] at hmem
  exact h hmem

theorem getBinary_archive_batchDelete (db : Store) (ids : List Id) (id : Id) :
    (blockArchive values).getBinary ((block values).batchDelete db ids) id = (blockArchive values).getBinary db id :=
  getBinary_frame .allForks_blockArchive (Repository.writesOnly_batchDelete (owns_of_inBucket values .block) ids) rfl
    (by decide) db id

theorem Moved.nil (db : Store) : Moved values [] db db where
  archived _ h := absurd h List.not_mem_nil
  deleted _ h := absurd h List.not_mem_nil
  kept _ _ := rfl
  archiveKept _ _ _ := rfl

theorem Moved.append {first second : List BlockSummary} {db db₁ db₂ : Store} (h₁ : Moved values first db db₁)
    (h₂ : Moved values second db₁ db₂) (hsafe : ∀ summary ∈ first, summary.slot ≤ MAX_SAFE_INTEGER)
    (hslots : ∀ summary ∈ first, summary.slot ∉ second.map (·.slot))
    (hroots : ∀ summary ∈ second, summary.blockRoot ∉ first.map (·.blockRoot)) :
    Moved values (first ++ second) db db₂ where
  archived summary hmem := by
    rcases List.mem_append.1 hmem with hmem | hmem
    · obtain ⟨buffer, hread, harchived⟩ := h₁.archived summary hmem
      exact ⟨buffer, hread, by rw [h₂.archiveKept _ (hsafe summary hmem) (hslots summary hmem), harchived]⟩
    · obtain ⟨buffer, hread, harchived⟩ := h₂.archived summary hmem
      rw [h₁.kept _ (hroots summary hmem)] at hread
      exact ⟨buffer, hread, harchived⟩
  deleted summary hmem := by
    by_cases hsecond : summary.blockRoot ∈ second.map (·.blockRoot)
    · obtain ⟨summary', hmem', heq⟩ := List.mem_map.1 hsecond
      rw [← heq]
      exact h₂.deleted summary' hmem'
    · rw [h₂.kept _ hsecond]
      rcases List.mem_append.1 hmem with hmem | hmem
      · exact h₁.deleted summary hmem
      · exact absurd (List.mem_map_of_mem hmem) hsecond
  kept root hnot := by
    rw [List.map_append, List.mem_append, not_or] at hnot
    rw [h₂.kept root hnot.2, h₁.kept root hnot.1]
  archiveKept slot hslot hnot := by
    rw [List.map_append, List.mem_append, not_or] at hnot
    rw [h₂.archiveKept slot hslot hnot.2, h₁.archiveKept slot hslot hnot.1]

theorem writesOnly_storeIndices (summaries : List BlockSummary) :
    WritesOnly (fun key => ¬ InBucket (blockArchive values).bucket.value key)
      (fun db => summaries.foldl BlockArchiveRepository.storeIndices db) := by
  refine writesOnly_foldl _ fun summary _ => ?_
  refine (writesOnly_insert (fun h => ?_) _).comp (writesOnly_insert (fun h => ?_) _)
  · have hin : InBucket Bucket.index_blockArchiveRootIndex.value (indexKey .index_blockArchiveRootIndex summary.blockRoot) :=
      inBucket_encodeKey _ _
    cases h.value_eq hin
  · have hin : InBucket Bucket.index_blockArchiveParentRootIndex.value
        (indexKey .index_blockArchiveParentRootIndex summary.parentRoot) := inBucket_encodeKey _ _
    cases h.value_eq hin

def archiveRows (values : Values) (entries : List (Id × Buffer × BlockSummary)) : List (Buffer × Buffer) :=
  entries.map fun entry => ((blockArchive values).encodeKey entry.1, entry.2.1)

theorem getBinary_batchPutBinary (entries : List (Id × Buffer × BlockSummary)) (db : Store) (slot : Nat) :
    (blockArchive values).getBinary (BlockArchiveRepository.batchPutBinary values db entries) (.number slot) =
      ((archiveRows values entries).foldl (fun m item => m.insert item.1 item.2) db).get?
        ((blockArchive values).encodeKey (.number slot)) := by
  have hindices := @writesOnly_storeIndices values (entries.map fun item => item.2.2)
    ((blockArchive values).batchPutBinary db (entries.map fun item => (item.1, item.2.1)))
    ((blockArchive values).encodeKey (.number slot)) (fun h => h (inBucket_encodeKey _ _))
  refine hindices.trans ?_
  unfold Repository.batchPutBinary LevelDbController.batchPut archiveRows
  rw [List.map_map]
  rfl

variable {entries : List (Id × Buffer × BlockSummary)}

theorem batchPutBinary_archived (db : Store)
    (hslot : ∀ entry ∈ entries, entry.1 = .number entry.2.2.slot ∧ entry.2.2.slot ≤ MAX_SAFE_INTEGER)
    (hnodup : (entries.map fun entry => entry.2.2.slot).Nodup) {entry : Id × Buffer × BlockSummary} (hmem : entry ∈ entries) :
    (blockArchive values).getBinary (BlockArchiveRepository.batchPutBinary values db entries) (.number entry.2.2.slot) =
      some entry.2.1 := by
  have hkeys : ((archiveRows values entries).map (·.1)).Nodup := by
    unfold archiveRows
    rw [List.map_map]
    refine List.Nodup.map_on ?_ (List.Nodup.of_map _ hnodup)
    intro a ha b hb heq
    have heq' : (blockArchive values).encodeKey (.number a.2.2.slot) = (blockArchive values).encodeKey (.number b.2.2.slot) := by
      rw [← (hslot a ha).1, ← (hslot b hb).1]
      exact heq
    exact List.inj_on_of_nodup_map hnodup ha hb
      (encodeKey_number_inj (lt_of_safe (hslot a ha).2) (lt_of_safe (hslot b hb).2) heq')
  rw [getBinary_batchPutBinary, ← (hslot entry hmem).1]
  exact get?_foldl_insert_of_mem _ db hkeys _ (List.mem_map_of_mem hmem)

theorem batchPutBinary_kept (db : Store)
    (hslot : ∀ entry ∈ entries, entry.1 = .number entry.2.2.slot ∧ entry.2.2.slot ≤ MAX_SAFE_INTEGER) {slot : Nat}
    (hsafe : slot ≤ MAX_SAFE_INTEGER) (hnot : slot ∉ entries.map fun entry => entry.2.2.slot) :
    (blockArchive values).getBinary (BlockArchiveRepository.batchPutBinary values db entries) (.number slot) =
      (blockArchive values).getBinary db (.number slot) := by
  rw [getBinary_batchPutBinary, get?_foldl_insert_of_not_mem]
  · rfl
  unfold archiveRows
  rw [List.map_map, List.mem_map]
  rintro ⟨entry, hmem, heq⟩
  refine hnot (List.mem_map.2 ⟨entry, hmem, ?_⟩)
  have heq' : (blockArchive values).encodeKey (.number entry.2.2.slot) = (blockArchive values).encodeKey (.number slot) := by
    rw [← (hslot entry hmem).1]
    exact heq
  exact encodeKey_number_inj (lt_of_safe (hslot entry hmem).2) (lt_of_safe hsafe) heq'

/-! ## The task -/

namespace ArchiveBlocksTask

theorem processCanonicalBlocks_run (db : Store) {summaries : List BlockSummary}
    (hsafe : ∀ summary ∈ summaries, summary.slot ≤ MAX_SAFE_INTEGER) (hslots : (summaries.map (·.slot)).Nodup) :
    (∃ db', processCanonicalBlocks values codec db summaries = .ok db' ∧ Moved values summaries db db') ∨
      ((∃ e, processCanonicalBlocks values codec db summaries = .error e) ∧
        ∃ summary ∈ summaries, (block values).getBinary db (blockKey summary.blockRoot) = none) := by
  by_cases hall : ∃ summary ∈ summaries, (block values).getBinary db (blockKey summary.blockRoot) = none
  · right
    obtain ⟨summary, hmem, hnone⟩ := hall
    have hmissing : ∃ e, loadBlock values codec db summary = .error e := by
      have hread : (block values).getBinary db (.bytes summary.blockRoot.toList) = none := hnone
      unfold loadBlock
      rw [hread]
      exact ⟨_, rfl⟩
    obtain ⟨e, hrun⟩ := mapM_eq_error ⟨summary, hmem, hmissing⟩
    refine ⟨⟨e, ?_⟩, summary, hmem, hnone⟩
    unfold processCanonicalBlocks
    rw [hrun]
    rfl
  · left
    have hload : ∀ summary ∈ summaries, ∃ entry, loadBlock values codec db summary = .ok entry ∧ entry.2.2 = summary ∧
        entry.1 = .number entry.2.2.slot ∧ (block values).getBinary db (blockKey entry.2.2.blockRoot) = some entry.2.1 := by
      intro summary hmem
      cases hread : (block values).getBinary db (blockKey summary.blockRoot) with
      | none => exact absurd ⟨summary, hmem, hread⟩ hall
      | some buffer =>
        have hread' : (block values).getBinary db (.bytes summary.blockRoot.toList) = some buffer := hread
        refine ⟨(.number summary.slot, buffer, summary), ?_, rfl, rfl, hread⟩
        unfold loadBlock
        rw [hread']
    obtain ⟨entries, hrun, hfrom, hentries⟩ := mapM_returns_from hload
    have hslot : ∀ entry ∈ entries, entry.1 = .number entry.2.2.slot ∧ entry.2.2.slot ≤ MAX_SAFE_INTEGER := by
      intro entry hmem
      refine ⟨(hentries entry hmem).1, hsafe _ ?_⟩
      rw [← hfrom]
      exact List.mem_map_of_mem hmem
    have hslotsOf : entries.map (fun entry => entry.2.2.slot) = summaries.map (·.slot) := by
      rw [← hfrom, List.map_map]
      rfl
    have hput : ∀ id, (block values).getBinary (BlockArchiveRepository.batchPutBinary values db entries) id =
        (block values).getBinary db id :=
      getBinary_frame .allForks_block (BlockArchiveRepository.writesOnly_batchPutBinary values entries) rfl (by decide) db
    have hdelete : (summaries.map fun summary => Id.bytes summary.blockRoot.toList) =
        (summaries.map (·.blockRoot)).map blockKey := by
      rw [List.map_map]
      rfl
    refine ⟨(block values).batchDelete (BlockArchiveRepository.batchPutBinary values db entries)
      (summaries.map fun summary => .bytes summary.blockRoot.toList), ?_, ?_, ?_, ?_, ?_⟩
    · unfold processCanonicalBlocks
      rw [hrun]
      rfl
    · intro summary hmem
      rw [← hfrom] at hmem
      obtain ⟨entry, hentry, rfl⟩ := List.mem_map.1 hmem
      refine ⟨entry.2.1, (hentries entry hentry).2, ?_⟩
      rw [getBinary_archive_batchDelete]
      exact batchPutBinary_archived db hslot (by rw [hslotsOf]; exact hslots) hentry
    · intro summary hmem
      rw [hdelete]
      exact getBinary_batchDelete_of_mem _ (List.mem_map_of_mem hmem)
    · intro root hnot
      rw [hdelete, getBinary_batchDelete_of_not_mem _ hnot, hput]
    · intro slot hsafe' hnot
      rw [getBinary_archive_batchDelete]
      exact batchPutBinary_kept db hslot hsafe' (by rw [hslotsOf]; exact hnot)

theorem processChunks_run {all : List BlockSummary} (hsafe : ∀ summary ∈ all, summary.slot ≤ MAX_SAFE_INTEGER)
    (hslots : (all.map (·.slot)).Nodup) (hroots : (all.map (·.blockRoot)).Nodup) :
    ∀ (fuel i : Nat) (db : Store), all.length ≤ i + fuel →
      (∃ db', processChunks values codec all fuel i db = (.ok (), db') ∧ Moved values (all.drop i) db db') ∨
        ((∃ e db', processChunks values codec all fuel i db = (.error e, db')) ∧
          ∃ summary ∈ all.drop i, (block values).getBinary db (blockKey summary.blockRoot) = none)
  | 0, i, db, hfuel => by
    rw [List.drop_eq_nil_of_le (by omega)]
    exact .inl ⟨db, rfl, Moved.nil db⟩
  | fuel + 1, i, db, hfuel => by
    unfold processChunks
    by_cases hlt : i < all.length
    · rw [if_pos hlt]
      dsimp only
      generalize hupper : min (i + BATCH_SIZE) all.length = upperBound
      have hnext : i < upperBound := by
        have hsize : 0 < BATCH_SIZE := by decide
        omega
      have hsplit : all.drop i = (all.take upperBound).drop i ++ all.drop upperBound := by
        have h := List.take_append_drop (upperBound - i) (all.drop i)
        rw [← List.drop_take, List.drop_drop, Nat.add_sub_cancel' hnext.le] at h
        exact h.symm
      have hsub : ((all.take upperBound).drop i ++ all.drop upperBound).Sublist all := by
        rw [← hsplit]
        exact List.drop_sublist i all
      have hslots' := hslots.sublist (hsub.map _)
      have hroots' := hroots.sublist (hsub.map _)
      rw [List.map_append, List.nodup_append] at hslots' hroots'
      rcases @processCanonicalBlocks_run values codec db ((all.take upperBound).drop i)
        (fun summary hmem => hsafe summary (hsub.subset (List.mem_append_left _ hmem))) hslots'.1 with
        ⟨db₁, hrun, hmoved⟩ | ⟨⟨e, hrun⟩, summary, hmem, hnone⟩
      · rw [hrun]
        have hdisjoint : ∀ summary ∈ all.drop upperBound,
            summary.blockRoot ∉ ((all.take upperBound).drop i).map (·.blockRoot) := by
          intro summary hmem hin
          exact hroots'.2.2 _ hin _ (List.mem_map_of_mem hmem) rfl
        rcases processChunks_run hsafe hslots hroots fuel upperBound db₁ (by omega) with
          ⟨db₂, hrest, hmoved'⟩ | ⟨herror, summary, hmem, hnone⟩
        · left
          refine ⟨db₂, hrest, ?_⟩
          rw [hsplit]
          refine hmoved.append hmoved' (fun summary hmem => hsafe summary (hsub.subset (List.mem_append_left _ hmem)))
            (fun summary hmem hin => ?_) hdisjoint
          exact hslots'.2.2 _ (List.mem_map_of_mem hmem) _ hin rfl
        · right
          refine ⟨herror, summary, ?_, ?_⟩
          · rw [hsplit]
            exact List.mem_append_right _ hmem
          · rwa [hmoved.kept _ (hdisjoint summary hmem)] at hnone
      · right
        rw [hrun]
        refine ⟨⟨e, db, rfl⟩, summary, ?_, hnone⟩
        rw [hsplit]
        exact List.mem_append_left _ hmem
    · rw [if_neg hlt, List.drop_eq_nil_of_le (by omega)]
      exact .inl ⟨db, rfl, Moved.nil db⟩

end ArchiveBlocksTask

end Moved

/-! ## The nodes of the array -/

/-- A tree of blocks: later slots below, slots that are safe integers, and roots in hexadecimal. -/
structure BlockTree (codec : HexCodec) (s : ProtoArray) : Prop where
  wellFormed : s.WellFormed
  slotsIncrease : s.SlotsIncrease
  slotsSafe : ∀ node ∈ s.nodes, node.slot ≤ MAX_SAFE_INTEGER
  roots : ∀ node ∈ s.nodes, ∃ root, node.blockRoot = codec.toHexRoot root

def nodeKey (codec : HexCodec) (node : ProtoNode) : Id := blockKey (toBlockSummary codec node.toProtoBlock).blockRoot

namespace BlockTree

variable {codec : HexCodec} {s : ProtoArray} (h : BlockTree codec s)

include h

theorem index_eq {i j : Nat} {node node' : ProtoNode} (hi : s.nodes[i]? = some node) (hj : s.nodes[j]? = some node')
    (hroot : (toBlockSummary codec node.toProtoBlock).blockRoot = (toBlockSummary codec node'.toProtoBlock).blockRoot) : i = j := by
  obtain ⟨root, hr⟩ := h.roots node (List.mem_of_getElem? hi)
  obtain ⟨root', hr'⟩ := h.roots node' (List.mem_of_getElem? hj)
  have heq : root = root' := by
    unfold toBlockSummary at hroot
    rw [hr, hr', codec.ofHexRoot_toHexRoot, codec.ofHexRoot_toHexRoot] at hroot
    exact hroot
  have hi' := h.wellFormed.get?_iff.2 ⟨node, hi, hr⟩
  have hj' := h.wellFormed.get?_iff.2 ⟨node', hj, hr'⟩
  rw [heq, hj'] at hi'
  exact (Option.some.inj hi').symm

variable {indices : List Nat}

theorem mem_summaries {i : Nat} {node : ProtoNode} (hi : s.nodes[i]? = some node) :
    (toBlockSummary codec node.toProtoBlock).blockRoot ∈
        ((s.nodesAt indices).map fun node => toBlockSummary codec node.toProtoBlock).map (·.blockRoot) ↔ i ∈ indices := by
  rw [List.map_map, List.mem_map]
  constructor
  · rintro ⟨node', hmem, hroot⟩
    obtain ⟨j, hj, hnode'⟩ := ProtoArray.mem_nodesAt.1 hmem
    rwa [h.index_eq hi hnode' hroot.symm]
  · intro hmem
    exact ⟨node, ProtoArray.mem_nodesAt.2 ⟨i, hmem, hi⟩, rfl⟩

theorem nodup_roots (hnodup : indices.Nodup) :
    (((s.nodesAt indices).map fun node => toBlockSummary codec node.toProtoBlock).map (·.blockRoot)).Nodup := by
  rw [List.map_map, List.Nodup, List.pairwise_map]
  unfold ProtoArray.nodesAt
  rw [List.pairwise_filterMap]
  refine hnodup.imp fun {i j} hne node hi node' hj heq => ?_
  exact hne (h.index_eq hi hj heq)

omit h in
theorem canonical {fc : ForkChoice} (h : BlockTree codec fc.protoArray) {blockRoot : Root} {summaries : List BlockSummary}
    (hrun : fc.iterateBlockSummaries codec blockRoot = .ok summaries) : Canonical summaries := by
  have hslots : (summaries.map (·.slot)).Nodup := by
    rw [List.Nodup, List.pairwise_map]
    exact (ForkChoice.iterateBlockSummaries_slots h.wellFormed h.slotsIncrease hrun).imp fun hlt => (Nat.ne_of_lt hlt).symm
  cases hf : fc.protoArray.indices.get? (codec.toHexRoot blockRoot) with
  | none =>
    unfold ForkChoice.iterateBlockSummaries ProtoArray.iterateNodes at hrun
    rw [hf] at hrun
    cases hrun
    exact ⟨fun summary hmem => absurd hmem List.not_mem_nil, hslots, List.nodup_nil⟩
  | some f =>
    rw [ForkChoice.iterateBlockSummaries_eq h.wellFormed hf] at hrun
    cases hrun
    have hindices : ((path fc.protoArray.parentOf f).dropLast).Nodup := by
      have hchain := (path_chain h.wellFormed.parentsFirst f).sublist (List.dropLast_sublist _)
      exact hchain.imp fun hab => (Nat.ne_of_lt hab.1).symm
    refine ⟨fun summary hin => ?_, hslots, h.nodup_roots hindices⟩
    obtain ⟨node, hnode, rfl⟩ := List.mem_map.1 hin
    obtain ⟨i, -, hi⟩ := ProtoArray.mem_nodesAt.1 hnode
    exact h.slotsSafe node (List.mem_of_getElem? hi)

end BlockTree

section Run

variable {values : Values} {codec : HexCodec} {fc : ForkChoice}

/-- What the task does to the store, node by node: the ancestors of `f` but the first node are archived and deleted, the other
nodes before `f` are deleted, and the blocks of the first node and of those behind `f` stay. -/
structure Archived (values : Values) (codec : HexCodec) (s : ProtoArray) (f : Nat) (db db' : Store) : Prop where
  archived : ∀ i node, s.nodes[i]? = some node → i ≠ 0 → inSubtree s.parentOf i f = true →
    ∃ buffer, (block values).getBinary db (nodeKey codec node) = some buffer ∧
      (blockArchive values).getBinary db' (.number node.slot) = some buffer ∧
      (block values).getBinary db' (nodeKey codec node) = none
  deleted : ∀ i node, s.nodes[i]? = some node → i < f → inSubtree s.parentOf i f = false →
    (block values).getBinary db' (nodeKey codec node) = none
  kept : ∀ i node, s.nodes[i]? = some node → i = 0 ∨ f < i →
    (block values).getBinary db' (nodeKey codec node) = (block values).getBinary db (nodeKey codec node)

theorem Archived.frame {s : ProtoArray} {f : Nat} {db db₁ db₂ : Store} (h : Archived values codec s f db db₁)
    (hblock : ∀ id, (block values).getBinary db₂ id = (block values).getBinary db₁ id)
    (harchive : ∀ id, (blockArchive values).getBinary db₂ id = (blockArchive values).getBinary db₁ id) :
    Archived values codec s f db db₂ where
  archived i node hi hne hmem := by
    rw [hblock, harchive]
    exact h.archived i node hi hne hmem
  deleted i node hi hlt hmem := by
    rw [hblock]
    exact h.deleted i node hi hlt hmem
  kept i node hi hplace := by
    rw [hblock]
    exact h.kept i node hi hplace

namespace ArchiveBlocksTask

variable {finalized : Checkpoint}

theorem deleteNonCanonicalBlocks_eq {summaries : List BlockSummary}
    (hrun : fc.iterateNonAncestors codec finalized.root = .ok summaries) (db : Store) :
    deleteNonCanonicalBlocks values codec fc finalized db =
      (.ok (), (block values).batchDelete db ((summaries.map (·.blockRoot)).map blockKey)) := by
  unfold deleteNonCanonicalBlocks
  rw [hrun, List.map_map]
  cases summaries with
  | nil => rfl
  | cons summary summaries => rfl

theorem run_archived (h : BlockTree codec fc.protoArray) {f : Nat}
    (hf : fc.protoArray.indices.get? (codec.toHexRoot finalized.root) = some f)
    (hreach : inSubtree fc.protoArray.parentOf 0 f = true) (db : Store) :
    (∃ db', run values codec fc finalized db = (.ok (), db') ∧ Archived values codec fc.protoArray f db db') ∨
      ((∃ e db', run values codec fc finalized db = (.error e, db')) ∧
        ∃ i node, fc.protoArray.nodes[i]? = some node ∧ i ≠ 0 ∧ inSubtree fc.protoArray.parentOf i f = true ∧
          (block values).getBinary db (nodeKey codec node) = none) := by
  have hwf := h.wellFormed
  have hlen : f < fc.protoArray.nodes.length := by
    obtain ⟨node, hnode, -⟩ := hwf.get?_iff.1 hf
    exact (List.getElem?_eq_some_iff.1 hnode).1
  have hmem : ∀ i, i ∈ (path fc.protoArray.parentOf f).dropLast ↔ inSubtree fc.protoArray.parentOf i f = true ∧ i ≠ 0 :=
    fun i => mem_path_dropLast_iff hwf.parentsFirst hreach
  have hgaps : ∀ i, i ∈ gapsFrom fc.protoArray.parentOf fc.protoArray.nodes.length f ↔
      i < f ∧ inSubtree fc.protoArray.parentOf i f = false :=
    fun i => mem_gapsFrom_iff hwf.parentsFirst _ f hlen.le hreach
  generalize hall : (fc.protoArray.nodesAt (path fc.protoArray.parentOf f).dropLast).map
    (fun node => toBlockSummary codec node.toProtoBlock) = all
  have hsummaries : fc.iterateBlockSummaries codec finalized.root = .ok all := by
    rw [ForkChoice.iterateBlockSummaries_eq hwf hf, hall]
  have hnonAncestors := ForkChoice.iterateNonAncestors_eq hwf hf
  obtain ⟨hsafe, hslots, hroots⟩ := h.canonical hsummaries
  have hin : ∀ i node, fc.protoArray.nodes[i]? = some node →
      ((toBlockSummary codec node.toProtoBlock).blockRoot ∈ all.map (·.blockRoot) ↔
        inSubtree fc.protoArray.parentOf i f = true ∧ i ≠ 0) := by
    intro i node hi
    rw [← hall, h.mem_summaries hi, hmem]
  have hmember : ∀ i node, fc.protoArray.nodes[i]? = some node → inSubtree fc.protoArray.parentOf i f = true → i ≠ 0 →
      toBlockSummary codec node.toProtoBlock ∈ all := by
    intro i node hi hanc hne
    rw [← hall]
    exact List.mem_map_of_mem (ProtoArray.mem_nodesAt.2 ⟨i, (hmem i).2 ⟨hanc, hne⟩, hi⟩)
  unfold run
  rw [hsummaries]
  dsimp only
  rcases @processChunks_run values codec _ hsafe hslots hroots all.length 0 db (by omega) with
    ⟨db₁, hrun, hmoved⟩ | ⟨⟨e, db₁, hrun⟩, summary, hsummary, hnone⟩
  · left
    rw [hrun]
    dsimp only
    rw [deleteNonCanonicalBlocks_eq hnonAncestors]
    refine ⟨_, rfl, ?_, ?_, ?_⟩
    · intro i node hi hne hanc
      have hnot : i ∉ gapsFrom fc.protoArray.parentOf fc.protoArray.nodes.length f := by
        rw [hgaps, hanc]
        simp
      obtain ⟨buffer, hread, harchived⟩ := hmoved.archived _ (hmember i node hi hanc hne)
      refine ⟨buffer, hread, ?_, ?_⟩
      · rw [getBinary_archive_batchDelete]
        exact harchived
      · have hdeleted := hmoved.deleted _ (hmember i node hi hanc hne)
        unfold nodeKey
        rw [getBinary_batchDelete_of_not_mem _ (fun hin' => hnot ((h.mem_summaries hi).1 hin'))]
        exact hdeleted
    · intro i node hi hlt hanc
      exact getBinary_batchDelete_of_mem _ ((h.mem_summaries hi).2 ((hgaps i).2 ⟨hlt, hanc⟩))
    · intro i node hi hplace
      have hnot : ¬ (i < f ∧ inSubtree fc.protoArray.parentOf i f = false) := by
        rintro ⟨hlt, hanc⟩
        rcases hplace with rfl | hgt
        · rw [hreach] at hanc
          cases hanc
        · omega
      have hnot' : ¬ (inSubtree fc.protoArray.parentOf i f = true ∧ i ≠ 0) := by
        rintro ⟨hanc, hne⟩
        have := inSubtree_le hwf.parentsFirst _ hanc
        omega
      unfold nodeKey
      rw [getBinary_batchDelete_of_not_mem _ fun hin' => hnot ((hgaps i).1 ((h.mem_summaries hi).1 hin'))]
      exact hmoved.kept _ fun hin' => hnot' ((hin i node hi).1 hin')
  · right
    rw [hrun]
    refine ⟨⟨e, db₁, rfl⟩, ?_⟩
    rw [List.drop_zero, ← hall] at hsummary
    obtain ⟨node, hnode, rfl⟩ := List.mem_map.1 hsummary
    obtain ⟨i, hi, hget⟩ := ProtoArray.mem_nodesAt.1 hnode
    exact ⟨i, node, hget, ((hmem i).1 hi).2, ((hmem i).1 hi).1, hnone⟩

end ArchiveBlocksTask

variable {P : Preset} {cache : CheckpointStateCache P values} {finalized : Checkpoint} {db db' : Store}

theorem getBinary_maybeArchiveState (hrun : maybeArchiveState values cache db finalized = .ok db') {V : Type}
    {repository : Repository V} (bucket : Bucket) (hbucket : repository.bucket = bucket)
    (hother : bucket.value ∉ (Member.repository .stateArchive).buckets.map Bucket.value) (id : Id) :
    repository.getBinary db' id = repository.getBinary db id := by
  have hput : ∀ db db', archiveState values cache db finalized = .ok db' →
      repository.getBinary db' id = repository.getBinary db id := by
    intro db db' hrun
    unfold archiveState at hrun
    cases hget : cache.get finalized with
    | none =>
      rw [hget] at hrun
      cases hrun
    | some state =>
      rw [hget] at hrun
      cases hrun
      exact getBinary_frame bucket (StateArchiveRepository.writesOnly_put values _ _) hbucket hother db id
  have hdelete : ∀ db ids, repository.getBinary ((stateArchive values).batchDelete db ids) id = repository.getBinary db id :=
    fun db ids => getBinary_frame bucket
      (Repository.writesOnly_batchDelete (owns_of_inBucket values .stateArchive) ids) hbucket hother db id
  unfold maybeArchiveState at hrun
  dsimp only at hrun
  split at hrun
  · obtain ⟨db₁, hstate, hrun⟩ := bind_eq_ok.1 hrun
    split at hrun
    · rw [pure_eq_ok] at hrun
      rw [← hrun, hdelete, hput db db₁ hstate]
    · rw [pure_eq_ok] at hrun
      rw [← hrun, hput db db₁ hstate]
  · rw [pure_eq_ok] at hrun
    rw [← hrun]

theorem getBinary_pruneFinalized {finalizedEpoch : Nat}
    (hrun : AggregateAndProofRepository.pruneFinalized values P db finalizedEpoch = .ok db') {V : Type} {repository : Repository V}
    (bucket : Bucket) (hbucket : repository.bucket = bucket)
    (hother : bucket.value ∉ (Member.repository .aggregateAndProof).buckets.map Bucket.value) (id : Id) :
    repository.getBinary db' id = repository.getBinary db id := by
  have hstep := getBinary_frame bucket (writesOnly_step values P ⟨_, .pruneFinalized finalizedEpoch⟩) hbucket hother db id
  unfold step at hstep
  have happly : apply values P db (.pruneFinalized finalizedEpoch) = .ok db' := hrun
  rw [happly] at hstep
  exact hstep

variable {removed : List ProtoBlock}

theorem processFinalizedCheckpoint_ok {db : Store}
    (hok : (processFinalizedCheckpoint values codec fc cache finalized db).outcome = .ok removed) :
    ∃ db₁ db₂ db₃ fc', ArchiveBlocksTask.run values codec fc finalized db = (.ok (), db₁) ∧
      maybeArchiveState values cache db₁ finalized = .ok db₂ ∧
      AggregateAndProofRepository.pruneFinalized values P db₂ finalized.epoch = .ok db₃ ∧
      fc.prune (codec.toHexRoot finalized.root) = (.ok removed, fc') ∧
      processFinalizedCheckpoint values codec fc cache finalized db = ⟨.ok removed, db₃, fc'⟩ := by
  unfold processFinalizedCheckpoint at hok ⊢
  rcases hrun : ArchiveBlocksTask.run values codec fc finalized db with ⟨_ | _, db₁⟩
  · rw [hrun] at hok
    cases hok
  rw [hrun] at hok
  dsimp only at hok ⊢
  cases hstate : maybeArchiveState values cache db₁ finalized with
  | error e =>
    rw [hstate] at hok
    cases hok
  | ok db₂ =>
    rw [hstate] at hok
    dsimp only at hok ⊢
    cases hprune : AggregateAndProofRepository.pruneFinalized values P db₂ finalized.epoch with
    | error e =>
      rw [hprune] at hok
      cases hok
    | ok db₃ =>
      rw [hprune] at hok
      rcases hcut : fc.prune (codec.toHexRoot finalized.root) with ⟨_ | removed', fc'⟩
      · rw [hcut] at hok
        cases hok
      · rw [hcut] at hok
        cases hok
        exact ⟨db₁, db₂, db₃, fc', rfl, hstate, hprune, rfl, rfl⟩

theorem prune_removed (h : fc.protoArray.WellFormed) {root : HexRoot} {f : Nat} (hf : fc.protoArray.indices.get? root = some f)
    {fc' : ForkChoice} (hrun : fc.prune root = (.ok removed, fc')) :
    (∀ block ∈ removed, ∃ i node, fc.protoArray.nodes[i]? = some node ∧ i < f ∧ node.toProtoBlock = block) ∧
      ∀ i node, fc.protoArray.nodes[i]? = some node → f ≤ i →
        ∃ node' ∈ fc'.protoArray.nodes, node'.toProtoBlock = node.toProtoBlock := by
  unfold ForkChoice.prune at hrun
  rcases ProtoArray.maybePrune_run h root with ⟨hnone, -⟩ | ⟨f', -, -, hprune⟩ | ⟨f', s', hf', hprune, hcut⟩
  · rw [hf] at hnone
    cases hnone
  · rw [hprune] at hrun
    cases hrun
    exact ⟨fun block hblock => absurd hblock List.not_mem_nil, fun i node hi _ => ⟨node, List.mem_of_getElem? hi, rfl⟩⟩
  · rw [hf] at hf'
    cases hf'
    rw [hprune] at hrun
    cases hrun
    refine ⟨fun block hblock => ?_, fun i node hi hle => ?_⟩
    · obtain ⟨node, hnode, rfl⟩ := List.mem_map.1 hblock
      obtain ⟨i, hi⟩ := List.getElem?_of_mem hnode
      have hlt : i < f := by
        have hlen := (List.getElem?_eq_some_iff.1 hi).1
        rw [List.length_take] at hlen
        omega
      rw [List.getElem?_take_of_lt hlt] at hi
      exact ⟨i, node, hi, hlt, rfl⟩
    · refine ⟨ProtoArray.shifted f node, ?_, rfl⟩
      have hget := hcut.getElem? (i - f)
      rw [Nat.sub_add_cancel hle, hi] at hget
      exact List.mem_of_getElem? hget

/-- **A finalized checkpoint is processed**: the task returns exactly when every block it should archive is there; then the
canonical blocks are in the archive, the others before the finalized one are deleted, those behind it are untouched, and of all
blocks that pruning removes only that of the first node is not deleted. -/
theorem processFinalizedCheckpoint_archives {P : Preset} (cache : CheckpointStateCache P values)
    (h : BlockTree codec fc.protoArray) {finalized : Checkpoint} {f : Nat}
    (hf : fc.protoArray.indices.get? (codec.toHexRoot finalized.root) = some f)
    (hreach : inSubtree fc.protoArray.parentOf 0 f = true) (db : Store) :
    let s := fc.protoArray
    let processed := processFinalizedCheckpoint values codec fc cache finalized db
    ((∃ db', ArchiveBlocksTask.run values codec fc finalized db = (.ok (), db')) ↔
      ∀ i node, s.nodes[i]? = some node → i ≠ 0 → inSubtree s.parentOf i f = true →
        (block values).getBinary db (nodeKey codec node) ≠ none) ∧
    ∀ removed, processed.outcome = .ok removed →
      Archived values codec s f db processed.db ∧
      (∀ i node, s.nodes[i]? = some node → node.toProtoBlock ∈ removed → i ≠ 0 →
        (block values).getBinary processed.db (nodeKey codec node) = none) ∧
      ∀ i node, s.nodes[i]? = some node → f ≤ i →
        ∃ node' ∈ processed.forkChoice.protoArray.nodes, node'.toProtoBlock = node.toProtoBlock := by
  intro s processed
  refine ⟨?_, fun removed hok => ?_⟩
  · constructor
    · rintro ⟨db', hrun⟩ i node hi hne hanc hnone
      rcases ArchiveBlocksTask.run_archived h hf hreach db with ⟨db₁, hrun₁, harchived⟩ | ⟨⟨e, db₁, hrun₁⟩, -⟩
      · obtain ⟨buffer, hread, -⟩ := harchived.archived i node hi hne hanc
        rw [hnone] at hread
        cases hread
      · rw [hrun₁] at hrun
        cases hrun
    · intro hpresent
      rcases ArchiveBlocksTask.run_archived h hf hreach db with ⟨db₁, hrun, -⟩ | ⟨-, i, node, hi, hne, hanc, hnone⟩
      · exact ⟨db₁, hrun⟩
      · exact absurd hnone (hpresent i node hi hne hanc)
  · obtain ⟨db₁, db₂, db₃, fc', hrun, hstate, hprune, hcut, hprocessed⟩ := processFinalizedCheckpoint_ok hok
    have hdb : processed.db = db₃ := congrArg Processed.db hprocessed
    have hfc : processed.forkChoice = fc' := congrArg Processed.forkChoice hprocessed
    have harchived : Archived values codec s f db db₁ := by
      rcases ArchiveBlocksTask.run_archived h hf hreach db with ⟨db', hrun', harchived⟩ | ⟨⟨e, db', hrun'⟩, -⟩
      · rw [hrun] at hrun'
        cases hrun'
        exact harchived
      · rw [hrun] at hrun'
        cases hrun'
    have hstored : Archived values codec s f db db₃ := by
      refine harchived.frame (fun id => ?_) fun id => ?_
      · rw [getBinary_pruneFinalized hprune .allForks_block rfl (by decide),
          getBinary_maybeArchiveState hstate .allForks_block rfl (by decide)]
      · rw [getBinary_pruneFinalized hprune .allForks_blockArchive rfl (by decide),
          getBinary_maybeArchiveState hstate .allForks_blockArchive rfl (by decide)]
    obtain ⟨hremoved, hstay⟩ := prune_removed h.wellFormed hf hcut
    rw [hdb, hfc]
    refine ⟨hstored, fun i node hi hmem hne => ?_, hstay⟩
    obtain ⟨j, node', hj, hlt, hsame⟩ := hremoved _ hmem
    have hroot : (toBlockSummary codec node.toProtoBlock).blockRoot = (toBlockSummary codec node'.toProtoBlock).blockRoot := by
      rw [hsame]
    obtain rfl := h.index_eq hi hj hroot
    cases hanc : inSubtree s.parentOf i f with
    | false => exact hstored.deleted i node hi hlt hanc
    | true =>
      obtain ⟨-, -, -, hnone⟩ := hstored.archived i node hi hne hanc
      exact hnone

end Run

/-! ## A finalized fork -/

def forkTree : ProtoArray :=
  ProtoArray.runOps (.new 0 0 0) [.onBlock (chainBlock 0 1 0), .onBlock (chainBlock 1 2 1), .onBlock (chainBlock 2 3 1)]

def forkForkChoice : ForkChoice := ForkChoice.construct ⟨2, ⟨0, ""⟩, ⟨0, ""⟩, ⟨0, ""⟩⟩ forkTree [] []

/-- The block database has the three blocks, and the archive the one that the chain starts from. -/
def forkDb : Store :=
  ([1, 2, 3] : List UInt8).foldl (fun db n =>
    (block slotValues).putBinary db (blockKey (chainRoot n)) (BigEndian.encode 8 (n.toNat - 1)))
    ((blockArchive slotValues).putBinary .empty (.number 0) (BigEndian.encode 8 0))

def forkFinalized : Checkpoint := ⟨1, chainRoot 3⟩

def forkProcessed : Processed :=
  processFinalizedCheckpoint slotValues hexCodec forkForkChoice (fullCache mainnet) forkFinalized forkDb

theorem forkProcessed_genesis :
    forkProcessed.outcome = .ok [chainBlock 0 1 0, chainBlock 1 2 1] ∧
      (block slotValues).getBinary forkProcessed.db (blockKey (chainRoot 1)) = some (BigEndian.encode 8 0) := by
  decide +kernel

theorem forkTree_blocks :
    (∀ i < forkTree.nodes.length, ∀ p ∈ forkTree.parentOf i,
      (forkTree.nodes.map (·.slot)).getD p 0 < (forkTree.nodes.map (·.slot)).getD i 0) ∧
    (∀ node ∈ forkTree.nodes, node.slot ≤ MAX_SAFE_INTEGER) ∧
    forkTree.nodes.map (·.blockRoot) = ([1, 2, 3] : List UInt8).map (fun n => hexCodec.toHexRoot (chainRoot n)) ∧
    forkTree.indices.get? (hexCodec.toHexRoot (chainRoot 3)) = some 2 ∧ inSubtree forkTree.parentOf 0 2 = true := by
  decide +kernel

theorem forkTree_blockTree : BlockTree hexCodec forkTree where
  wellFormed := ProtoArray.WellFormed.runOps _ (ProtoArray.WellFormed.new 0 0 0)
  slotsIncrease := ProtoArray.slotsIncrease_of forkTree_blocks.1
  slotsSafe := forkTree_blocks.2.1
  roots node hnode := by
    have hmem := List.mem_map_of_mem (f := (·.blockRoot)) hnode
    rw [forkTree_blocks.2.2.1] at hmem
    obtain ⟨n, -, heq⟩ := List.mem_map.1 hmem
    exact ⟨chainRoot n, heq.symm⟩

theorem processFinalizedCheckpoint_archives_fork : forkProcessed.outcome = .ok [chainBlock 0 1 0, chainBlock 1 2 1] ∧
    ((∃ db', ArchiveBlocksTask.run slotValues hexCodec forkForkChoice forkFinalized forkDb = (.ok (), db')) ↔
      ∀ i (node : ProtoNode), forkTree.nodes[i]? = some node → i ≠ 0 → inSubtree forkTree.parentOf i 2 = true →
        (block slotValues).getBinary forkDb (nodeKey hexCodec node) ≠ none) ∧
    ∀ removed, forkProcessed.outcome = .ok removed → Archived slotValues hexCodec forkTree 2 forkDb forkProcessed.db ∧
      (∀ i (node : ProtoNode), forkTree.nodes[i]? = some node → node.toProtoBlock ∈ removed → i ≠ 0 →
        (block slotValues).getBinary forkProcessed.db (nodeKey hexCodec node) = none) ∧
      ∀ i (node : ProtoNode), forkTree.nodes[i]? = some node → 2 ≤ i →
        ∃ node' ∈ forkProcessed.forkChoice.protoArray.nodes, node'.toProtoBlock = node.toProtoBlock :=
  ⟨forkProcessed_genesis.1, processFinalizedCheckpoint_archives (fullCache mainnet) forkTree_blockTree forkTree_blocks.2.2.2.1
    forkTree_blocks.2.2.2.2 forkDb⟩

/-- The genesis block leaves the fork choice.  It is not among the blocks that are archived or deleted, and stays in the block database. -/
theorem processFinalizedCheckpoint_leaves_genesis :
    (∃ canonical nonCanonical, forkForkChoice.iterateBlockSummaries hexCodec forkFinalized.root = .ok canonical ∧
      forkForkChoice.iterateNonAncestors hexCodec forkFinalized.root = .ok nonCanonical ∧
      chainRoot 1 ∉ (canonical ++ nonCanonical).map (·.blockRoot)) ∧
    ∃ removed, forkProcessed.outcome = .ok removed ∧ chainBlock 0 1 0 ∈ removed ∧
      (block slotValues).getBinary forkProcessed.db (blockKey (chainRoot 1)) = some (BigEndian.encode 8 0) :=
  ⟨⟨[⟨2, chainRoot 3, chainRoot 1⟩], [⟨1, chainRoot 2, chainRoot 1⟩], by decide +kernel, by decide +kernel, by decide +kernel⟩,
    _, forkProcessed_genesis.1, List.mem_cons_self, forkProcessed_genesis.2⟩

end Lodestar.Tasks
