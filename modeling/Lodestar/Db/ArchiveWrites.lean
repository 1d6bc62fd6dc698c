import Lodestar.Db.Isolation
import Lodestar.Db.NumberKeys
import Lodestar.Lib.Fallible
import Lodestar.Lib.Flights
/-!
# ArchiveWrites — the block archive and its indices while the writes of a call settle

A call writes its rows in one update, and each index of each block in one of its own.  `put` and `remove` await them all.  The calls
on a batch hand the promises of the indices to `Promise.all` as two lists, which are no promises, so that nothing awaits them: the
call resolves before its indices are written, and also when they fail.
-/
namespace Lodestar.Db.BeaconDb.BlockArchiveRepository

open Lib Lib.SortedMap Flights
open scoped Lib.BigEndian

/-! ## What a call starts -/

section

variable (summary : BlockSummary)

def storeRootIndex : Update Buffer Buffer :=
  [(indexKey .index_blockArchiveRootIndex summary.blockRoot, some (BigEndian.encode 8 summary.slot))]

def storeParentRootIndex : Update Buffer Buffer :=
  [(indexKey .index_blockArchiveParentRootIndex summary.parentRoot, some (BigEndian.encode 8 summary.slot))]

def deleteRootIndex : Update Buffer Buffer :=
  [(indexKey .index_blockArchiveRootIndex summary.blockRoot, none)]

def deleteParentRootIndex : Update Buffer Buffer :=
  [(indexKey .index_blockArchiveParentRootIndex summary.parentRoot, none)]

end

section

variable (values : Values)

def putRows (items : List (Id × Buffer)) : Update Buffer Buffer :=
  items.map fun item => ((blockArchive values).encodeKey item.1, some item.2)

def deleteRows (removed : List (values.Value .blockArchive)) : Update Buffer Buffer :=
  removed.map fun value => ((blockArchive values).encodeKey (.number (values.archivedMessage value).slot), none)

inductive Call
  | put (key : Id) (value : values.Value .blockArchive)
  | batchPut (items : List (Id × values.Value .blockArchive))
  | batchPutBinary (items : List (Id × Buffer × BlockSummary))
  | remove (value : values.Value .blockArchive)
  | batchRemove (removed : List (values.Value .blockArchive))

def rules : Rules (Call values) Buffer Buffer where
  awaited
    | .put key value =>
      [putRows values [(key, (blockArchive values).encodeValue value)], storeRootIndex (values.archivedMessage value),
        storeParentRootIndex (values.archivedMessage value)]
    | .batchPut items => [putRows values (items.map fun item => (item.1, (blockArchive values).encodeValue item.2))]
    | .batchPutBinary items => [putRows values (items.map fun item => (item.1, item.2.1))]
    | .remove value =>
      [deleteRows values [value], deleteRootIndex (values.archivedMessage value),
        deleteParentRootIndex (values.archivedMessage value)]
    | .batchRemove removed => [deleteRows values removed]
  floating
    | .put .. | .remove .. => []
    | .batchPut items =>
      (items.map fun item => storeRootIndex (values.archivedMessage item.2)) ++
        items.map fun item => storeParentRootIndex (values.archivedMessage item.2)
    | .batchPutBinary items =>
      (items.map fun item => storeRootIndex item.2.2) ++ items.map fun item => storeParentRootIndex item.2.2
    | .batchRemove removed =>
      (removed.map fun value => deleteRootIndex (values.archivedMessage value)) ++
        removed.map fun value => deleteParentRootIndex (values.archivedMessage value)

end

variable {values : Values}

def Call.slots : Call values → List Nat
  | .put _ value | .remove value => [(values.archivedMessage value).slot]
  | .batchPut items => items.map fun item => (values.archivedMessage item.2).slot
  | .batchPutBinary items => items.map fun item => item.2.2.slot
  | .batchRemove removed => removed.map fun value => (values.archivedMessage value).slot

def Call.puts : Call values → Bool
  | .put .. | .batchPut .. | .batchPutBinary .. => true
  | .remove .. | .batchRemove .. => false

def storedAfter (stored : Nat → Bool) (calls : List (Call values)) : Nat → Bool :=
  calls.foldl (fun stored call slot => if slot ∈ call.slots then call.puts else stored slot) stored

/-! ## A chain of blocks -/

section

variable (values) (chain : List (values.Value .blockArchive))

/-- Blocks of a chain: the slots and the roots are distinct, each block has the one before it for parent, and the parent of the
first is not among them. -/
structure Chain : Prop where
  slots : (chain.map fun block => (values.archivedMessage block).slot).Nodup
  roots : (chain.map fun block => (values.archivedMessage block).blockRoot).Nodup
  linked : chain.IsChain fun parent block => (values.archivedMessage block).parentRoot = (values.archivedMessage parent).blockRoot
  first : ∀ first ∈ chain.head?, ∀ block ∈ chain, (values.archivedMessage block).blockRoot ≠ (values.archivedMessage first).parentRoot
  safe : ∀ block ∈ chain, (values.archivedMessage block).slot ≤ MAX_SAFE_INTEGER
  decodes : ∀ block ∈ chain, (blockArchive values).decodeValue ((blockArchive values).encodeValue block) = .ok block

inductive OfChain : Call values → Prop
  | put (block : values.Value .blockArchive) (h : block ∈ chain) :
      OfChain (.put (.number (values.archivedMessage block).slot) block)
  | batchPut (blocks : List (values.Value .blockArchive)) (h : blocks ⊆ chain) :
      OfChain (.batchPut (blocks.map fun block => (.number (values.archivedMessage block).slot, block)))
  | batchPutBinary (blocks : List (values.Value .blockArchive)) (h : blocks ⊆ chain) :
      OfChain (.batchPutBinary (blocks.map fun block =>
        (.number (values.archivedMessage block).slot, (blockArchive values).encodeValue block, values.archivedMessage block)))
  | remove (block : values.Value .blockArchive) (h : block ∈ chain) : OfChain (.remove block)
  | batchRemove (blocks : List (values.Value .blockArchive)) (h : blocks ⊆ chain) : OfChain (.batchRemove blocks)

def rowsOf (block : values.Value .blockArchive) : List (Buffer × Buffer) :=
  [((blockArchive values).encodeKey (.number (values.archivedMessage block).slot), (blockArchive values).encodeValue block),
    (indexKey .index_blockArchiveRootIndex (values.archivedMessage block).blockRoot,
      BigEndian.encode 8 (values.archivedMessage block).slot),
    (indexKey .index_blockArchiveParentRootIndex (values.archivedMessage block).parentRoot,
      BigEndian.encode 8 (values.archivedMessage block).slot)]

def InArchive (key : Buffer) : Prop :=
  InBucket Bucket.allForks_blockArchive.value key ∨ InBucket Bucket.index_blockArchiveRootIndex.value key ∨
    InBucket Bucket.index_blockArchiveParentRootIndex.value key

/-- The archive and its indices hold the rows of the stored blocks and nothing else. -/
structure Exact (stored : Nat → Bool) (db : Store) : Prop where
  rows : ∀ block ∈ chain, ∀ row ∈ rowsOf values block,
    db.get? row.1 = if stored (values.archivedMessage block).slot then some row.2 else none
  others : ∀ key, InArchive key → (∀ block ∈ chain, ∀ row ∈ rowsOf values block, row.1 ≠ key) → db.get? key = none

end

variable {chain : List (values.Value .blockArchive)}

theorem nodup_parents_of_linked : ∀ {chain : List (values.Value .blockArchive)},
    (chain.map fun block => (values.archivedMessage block).blockRoot).Nodup →
    (chain.IsChain fun parent block => (values.archivedMessage block).parentRoot = (values.archivedMessage parent).blockRoot) →
    (chain.tail.map fun block => (values.archivedMessage block).parentRoot) =
      chain.dropLast.map fun block => (values.archivedMessage block).blockRoot
  | [], _, _ => rfl
  | [_], _, _ => rfl
  | first :: second :: rest, hroots, hlinked => by
    obtain ⟨hfirst, hrest⟩ := List.isChain_cons_cons.1 hlinked
    have ih := nodup_parents_of_linked (List.nodup_cons.1 hroots).2 hrest
    rw [List.tail_cons, List.map_cons, hfirst, List.dropLast_cons_cons, List.map_cons]
    exact congrArg _ ih

theorem Chain.parents (h : Chain values chain) : (chain.map fun block => (values.archivedMessage block).parentRoot).Nodup := by
  cases chain with
  | nil => exact List.nodup_nil
  | cons first rest =>
    have htail := nodup_parents_of_linked h.roots h.linked
    rw [List.tail_cons] at htail
    rw [List.map_cons, List.nodup_cons, htail]
    refine ⟨fun hmem => ?_, h.roots.sublist ((List.dropLast_sublist _).map _)⟩
    obtain ⟨block, hblock, hroot⟩ := List.mem_map.1 hmem
    exact h.first first rfl block ((List.dropLast_sublist _).mem hblock) hroot

theorem indexKey_inj {bucket : Bucket} {root root' : Root} (h : indexKey bucket root = indexKey bucket root') : root = root' :=
  Vector.toList_inj.1 (List.cons.inj h).2

theorem Chain.block_eq (h : Chain values chain) {block block' : values.Value .blockArchive} (hblock : block ∈ chain)
    (hblock' : block' ∈ chain) {row row' : Buffer × Buffer} (hrow : row ∈ rowsOf values block) (hrow' : row' ∈ rowsOf values block')
    (hkey : row.1 = row'.1) : block = block' ∧ row = row' := by
  unfold rowsOf at hrow hrow'
  simp only [List.mem_cons, List.not_mem_nil, or_false] at hrow hrow'
  rcases hrow with rfl | rfl | rfl <;> rcases hrow' with rfl | rfl | rfl
  · have hslot := encodeKey_number_inj (lt_of_safe (h.safe block hblock)) (lt_of_safe (h.safe block' hblock')) hkey
    obtain rfl := List.inj_on_of_nodup_map h.slots hblock hblock' hslot
    exact ⟨rfl, rfl⟩
  · exact absurd hkey (encodeKey_ne (show Bucket.allForks_blockArchive.value ≠ Bucket.index_blockArchiveRootIndex.value by decide) _ _)
  · exact absurd hkey (encodeKey_ne (show Bucket.allForks_blockArchive.value ≠ Bucket.index_blockArchiveParentRootIndex.value by decide) _ _)
  · exact absurd hkey (encodeKey_ne (show Bucket.index_blockArchiveRootIndex.value ≠ Bucket.allForks_blockArchive.value by decide) _ _)
  · obtain rfl := List.inj_on_of_nodup_map h.roots hblock hblock' (indexKey_inj hkey)
    exact ⟨rfl, rfl⟩
  · exact absurd hkey (encodeKey_ne (by decide) _ _)
  · exact absurd hkey (encodeKey_ne (show Bucket.index_blockArchiveParentRootIndex.value ≠ Bucket.allForks_blockArchive.value by decide) _ _)
  · exact absurd hkey (encodeKey_ne (by decide) _ _)
  · obtain rfl := List.inj_on_of_nodup_map h.parents hblock hblock' (indexKey_inj hkey)
    exact ⟨rfl, rfl⟩

/-! ## The calls one after the other -/

variable {blocks : List (values.Value .blockArchive)}

theorem Chain.exists_block_iff (h : Chain values chain) (hsub : blocks ⊆ chain) {Q : values.Value .blockArchive → Prop} :
    (∃ block ∈ blocks, Q block) ↔
      ∃ block ∈ chain, (values.archivedMessage block).slot ∈ blocks.map (fun block => (values.archivedMessage block).slot) ∧
        Q block := by
  constructor
  · rintro ⟨block, hblock, hQ⟩
    exact ⟨block, hsub hblock, List.mem_map_of_mem hblock, hQ⟩
  · rintro ⟨block, hblock, hslot, hQ⟩
    obtain ⟨block', hblock', heq⟩ := List.mem_map.1 hslot
    obtain rfl := List.inj_on_of_nodup_map h.slots (hsub hblock') hblock heq
    exact ⟨block', hblock', hQ⟩

variable {w : Buffer × Option Buffer}

theorem exists_row_iff {puts : Bool} :
    (∃ block ∈ blocks, ∃ row ∈ rowsOf values block, w = (row.1, if puts then some row.2 else none)) ↔
      (∃ block ∈ blocks, ((blockArchive values).encodeKey (.number (values.archivedMessage block).slot),
        if puts then some ((blockArchive values).encodeValue block) else none) = w) ∨
      (∃ block ∈ blocks, (indexKey .index_blockArchiveRootIndex (values.archivedMessage block).blockRoot,
        if puts then some (BigEndian.encode 8 (values.archivedMessage block).slot) else none) = w) ∨
      ∃ block ∈ blocks, (indexKey .index_blockArchiveParentRootIndex (values.archivedMessage block).parentRoot,
        if puts then some (BigEndian.encode 8 (values.archivedMessage block).slot) else none) = w := by
  unfold rowsOf
  simp only [List.mem_cons, List.not_mem_nil, or_false, exists_eq_or_imp, exists_eq_left, and_or_left, exists_or, eq_comm]

variable {call : Call values}

theorem mem_whole_iff (h : Chain values chain) (hcall : OfChain values chain call) :
    w ∈ (rules values).whole call ↔
      ∃ block ∈ chain, (values.archivedMessage block).slot ∈ call.slots ∧
        ∃ row ∈ rowsOf values block, w = (row.1, if call.puts then some row.2 else none) := by
  cases hcall with
  | put block hblock =>
    rw [show Call.slots (.put (.number (values.archivedMessage block).slot) block) =
        [block].map fun block => (values.archivedMessage block).slot from rfl,
      ← h.exists_block_iff (List.cons_subset.2 ⟨hblock, List.nil_subset _⟩), exists_row_iff]
    simp [Rules.whole, rules, putRows, storeRootIndex, storeParentRootIndex, Call.puts, eq_comm]
  | batchPut blocks hsub =>
    rw [show Call.slots (.batchPut (blocks.map fun block => (Id.number (values.archivedMessage block).slot, block))) =
        blocks.map fun block => (values.archivedMessage block).slot from List.map_map,
      ← h.exists_block_iff hsub, exists_row_iff]
    simp [Rules.whole, rules, putRows, storeRootIndex, storeParentRootIndex, Call.puts, eq_comm]
  | batchPutBinary blocks hsub =>
    rw [show Call.slots (.batchPutBinary (blocks.map fun block =>
        (Id.number (values.archivedMessage block).slot, (blockArchive values).encodeValue block, values.archivedMessage block))) =
        blocks.map fun block => (values.archivedMessage block).slot from List.map_map,
      ← h.exists_block_iff hsub, exists_row_iff]
    simp [Rules.whole, rules, putRows, storeRootIndex, storeParentRootIndex, Call.puts, eq_comm]
  | remove block hblock =>
    rw [show Call.slots (.remove block) = [block].map fun block => (values.archivedMessage block).slot from rfl,
      ← h.exists_block_iff (List.cons_subset.2 ⟨hblock, List.nil_subset _⟩), exists_row_iff]
    simp [Rules.whole, rules, deleteRows, deleteRootIndex, deleteParentRootIndex, Call.puts, eq_comm]
  | batchRemove blocks hsub =>
    rw [show Call.slots (.batchRemove blocks) = blocks.map fun block => (values.archivedMessage block).slot from rfl,
      ← h.exists_block_iff hsub, exists_row_iff]
    simp [Rules.whole, rules, deleteRows, deleteRootIndex, deleteParentRootIndex, Call.puts, eq_comm]

theorem agrees (h : Chain values chain) (hcall : OfChain values chain call) : Agrees (rules values) call := by
  intro w hw w' hw' hkey
  obtain ⟨block, hblock, -, row, hrow, rfl⟩ := (mem_whole_iff h hcall).1 hw
  obtain ⟨block', hblock', -, row', hrow', rfl⟩ := (mem_whole_iff h hcall).1 hw'
  obtain ⟨-, rfl⟩ := h.block_eq hblock hblock' hrow hrow' hkey
  rfl

theorem Exact.perform (h : Chain values chain) {stored : Nat → Bool} {db : Store} (hexact : Exact values chain stored db)
    (hcall : OfChain values chain call) :
    Exact values chain (storedAfter stored [call]) (Flights.perform db ((rules values).whole call)) where
  rows block hblock row hrow := by
    have hwrites : ∀ w ∈ (rules values).whole call, w.1 = row.1 → w.2 = if call.puts then some row.2 else none := by
      intro w hw hkey
      obtain ⟨block', hblock', -, row', hrow', rfl⟩ := (mem_whole_iff h hcall).1 hw
      obtain ⟨-, rfl⟩ := h.block_eq hblock' hblock hrow' hrow hkey
      rfl
    rw [get?_perform db hwrites]
    show _ = if (if (values.archivedMessage block).slot ∈ call.slots then call.puts else stored _) = true then some row.2 else none
    by_cases hslot : (values.archivedMessage block).slot ∈ call.slots
    · rw [if_pos hslot, if_pos]
      exact List.mem_map.2 ⟨_, (mem_whole_iff h hcall).2 ⟨block, hblock, hslot, row, hrow, rfl⟩, rfl⟩
    · rw [if_neg hslot, if_neg, hexact.rows block hblock row hrow]
      rintro hmem
      obtain ⟨w, hw, hkey⟩ := List.mem_map.1 hmem
      obtain ⟨block', hblock', hslot', row', hrow', rfl⟩ := (mem_whole_iff h hcall).1 hw
      obtain ⟨rfl, -⟩ := h.block_eq hblock' hblock hrow' hrow hkey
      exact hslot hslot'
  others key hkey hnone := by
    rw [get?_perform_of_notMem db, hexact.others key hkey hnone]
    intro hmem
    obtain ⟨w, hw, rfl⟩ := List.mem_map.1 hmem
    obtain ⟨block, hblock, -, row, hrow, rfl⟩ := (mem_whole_iff h hcall).1 hw
    exact hnone block hblock row hrow rfl

theorem Exact.sequential (h : Chain values chain) {calls : List (Call values)} {stored : Nat → Bool} {db : Store}
    (hexact : Exact values chain stored db) (hcalls : ∀ call ∈ calls, OfChain values chain call) :
    Exact values chain (storedAfter stored calls) (Flights.sequential (rules values) db calls) :=
  List.foldl_rel hexact fun call hcall _ _ hexact => hexact.perform h (hcalls call hcall)

end Lodestar.Db.BeaconDb.BlockArchiveRepository
