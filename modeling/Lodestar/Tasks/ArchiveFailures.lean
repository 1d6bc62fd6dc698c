import Lodestar.Db.ArchiveWrites
import Lodestar.Tasks.ArchiveBlocks
/-!
# ArchiveFailures — finalized blocks while a write of the task fails

The task awaits each chunk before the next and the chunks before the deletion of the other blocks.  Of a chunk it starts two writes
at once, the rows of the archive and the deletion of the same blocks, and either may fail while the other succeeds.  If it is the
deletion that fails, or an index, the blocks are in the archive; if it is the rows, they are nowhere (`notLost_iff`).
-/
namespace Lodestar.Tasks.ArchiveBlocksTask

open Lib Lib.SortedMap Flights Runs Db Db.BeaconDb
open scoped Lib.BigEndian

/-! ## What the task starts -/

inductive Call
  | processCanonicalBlocks (canonicalSummaries : List BlockSummary) (canonicalBlockEntries : List (Id × Buffer × BlockSummary))
  | deleteNonCanonicalBlocks (nonCanonicalSummaries : List BlockSummary)

section

variable (values : Values) (codec : HexCodec) (allCanonicalSummaries : List BlockSummary)

def deleteRows (summaries : List BlockSummary) : Update Buffer Buffer :=
  summaries.map fun summary => ((block values).encodeKey (blockKey summary.blockRoot), none)

def rules : Rules Call Buffer Buffer where
  awaited
    -- put to blockArchive db and delete block db
    | .processCanonicalBlocks canonicalSummaries canonicalBlockEntries =>
      (BlockArchiveRepository.rules values).awaited (.batchPutBinary canonicalBlockEntries) ++ [deleteRows values canonicalSummaries]
    | .deleteNonCanonicalBlocks nonCanonicalSummaries => [deleteRows values nonCanonicalSummaries]
  floating
    | .processCanonicalBlocks _ canonicalBlockEntries =>
      (BlockArchiveRepository.rules values).floating (.batchPutBinary canonicalBlockEntries)
    | .deleteNonCanonicalBlocks _ => []

def chunk (n : Nat) : List BlockSummary :=
  (allCanonicalSummaries.take (min (n * BATCH_SIZE + BATCH_SIZE) allCanonicalSummaries.length)).drop (n * BATCH_SIZE)

/-- What the task goes on with: the next chunk, when all its blocks could be read, and behind the last one the deletion of what the
fork choice then says is not canonical.  A read that fails, or that finds no block, ends the run. -/
inductive Starts (s : System Call Buffer Buffer) : Call → Prop
  | canonical (canonicalBlockEntries : List (Id × Buffer × BlockSummary))
      (hleft : s.calls.length * BATCH_SIZE < allCanonicalSummaries.length)
      (hread : (chunk allCanonicalSummaries s.calls.length).mapM (loadBlock values codec s.store) = .ok canonicalBlockEntries) :
      Starts s (.processCanonicalBlocks (chunk allCanonicalSummaries s.calls.length) canonicalBlockEntries)
  | nonCanonical (nonCanonicalSummaries : List BlockSummary) (hdone : allCanonicalSummaries.length ≤ s.calls.length * BATCH_SIZE)
      (honce : ∀ call ∈ s.calls, ∀ summaries, call.1 ≠ .deleteNonCanonicalBlocks summaries)
      (hsome : 0 < nonCanonicalSummaries.length) : Starts s (.deleteNonCanonicalBlocks nonCanonicalSummaries)

def OfTask (s : System Call Buffer Buffer) : Label Call → Prop
  | .start call => (∀ before ∈ s.calls, before.2 = .resolved) ∧ Starts values codec allCanonicalSummaries s call
  | _ => True

/-- Every canonical block that was in the block database is there or in the archive. -/
def NotLost (db db' : Store) : Prop :=
  ∀ summary ∈ allCanonicalSummaries, ∀ blockBuffer, (block values).getBinary db (blockKey summary.blockRoot) = some blockBuffer →
    (block values).getBinary db' (blockKey summary.blockRoot) = some blockBuffer ∨
      (blockArchive values).getBinary db' (.number summary.slot) = some blockBuffer

/-- The write archives no canonical block of the block database, unless the archive had it before. -/
def MayFail (db : Store) (update : Update Buffer Buffer) : Prop :=
  ∀ summary ∈ allCanonicalSummaries, ∀ blockBuffer, (block values).getBinary db (blockKey summary.blockRoot) = some blockBuffer →
    ((blockArchive values).encodeKey (.number summary.slot), some blockBuffer) ∈ update →
    (blockArchive values).getBinary db (.number summary.slot) = some blockBuffer

end

variable {values : Values} {codec : HexCodec} {all : List BlockSummary}

/-! ## The writes of a call -/

def Call.summaries : Call → List BlockSummary
  | .processCanonicalBlocks canonicalSummaries _ => canonicalSummaries
  | .deleteNonCanonicalBlocks nonCanonicalSummaries => nonCanonicalSummaries

abbrev putFlight (values : Values) (n : Nat) (entries : List (Id × Buffer × BlockSummary)) : Flight Buffer Buffer :=
  ⟨n, true, BlockArchiveRepository.putRows values (entries.map fun item => (item.1, item.2.1))⟩

abbrev deleteFlight (values : Values) (n : Nat) (summaries : List BlockSummary) : Flight Buffer Buffer :=
  ⟨n, true, deleteRows values summaries⟩

variable {n : Nat} {summaries : List BlockSummary} {entries : List (Id × Buffer × BlockSummary)} {flight : Flight Buffer Buffer}

theorem mem_flightsOf_chunk :
    flight ∈ (rules values).flightsOf n (.processCanonicalBlocks summaries entries) ↔
      flight = putFlight values n entries ∨ flight = deleteFlight values n summaries ∨
        (∃ entry ∈ entries, flight = ⟨n, false, BlockArchiveRepository.storeRootIndex entry.2.2⟩) ∨
        ∃ entry ∈ entries, flight = ⟨n, false, BlockArchiveRepository.storeParentRootIndex entry.2.2⟩ := by
  simp [Rules.flightsOf, rules, BlockArchiveRepository.rules, eq_comm]

theorem mem_flightsOf_nonCanonical :
    flight ∈ (rules values).flightsOf n (.deleteNonCanonicalBlocks summaries) ↔ flight = deleteFlight values n summaries := by
  simp [Rules.flightsOf, rules]

variable {call : Call} {w : Buffer × Option Buffer}

section

variable (hflight : flight ∈ (rules values).flightsOf n call) (hw : w ∈ flight.update)
include hflight hw

theorem of_archive_write {id : Id} (hkey : w.1 = (blockArchive values).encodeKey id) :
    ∃ summaries entries, call = .processCanonicalBlocks summaries entries ∧ flight = putFlight values n entries ∧
      ∃ entry ∈ entries, w = ((blockArchive values).encodeKey entry.1, some entry.2.1) := by
  have hdelete : ∀ summaries, w ∈ deleteRows values summaries → False := by
    intro summaries hmem
    obtain ⟨summary, -, rfl⟩ := List.mem_map.1 hmem
    exact encodeKey_ne (show Bucket.allForks_block.value ≠ Bucket.allForks_blockArchive.value by decide) _ _ hkey
  cases call with
  | processCanonicalBlocks summaries entries =>
    rcases mem_flightsOf_chunk.1 hflight with rfl | rfl | ⟨entry, -, rfl⟩ | ⟨entry, -, rfl⟩
    · obtain ⟨item, hitem, rfl⟩ := List.mem_map.1 hw
      obtain ⟨entry, hentry, rfl⟩ := List.mem_map.1 hitem
      exact ⟨summaries, entries, rfl, rfl, entry, hentry, rfl⟩
    · exact absurd hw (hdelete summaries)
    · obtain rfl := List.mem_singleton.1 hw
      exact absurd hkey
        (encodeKey_ne (show Bucket.index_blockArchiveRootIndex.value ≠ Bucket.allForks_blockArchive.value by decide) _ _)
    · obtain rfl := List.mem_singleton.1 hw
      exact absurd hkey
        (encodeKey_ne (show Bucket.index_blockArchiveParentRootIndex.value ≠ Bucket.allForks_blockArchive.value by decide) _ _)
  | deleteNonCanonicalBlocks summaries =>
    obtain rfl := mem_flightsOf_nonCanonical.1 hflight
    exact absurd hw (hdelete summaries)

theorem of_block_write {root : Root} (hkey : w.1 = (block values).encodeKey (blockKey root)) :
    w.2 = none ∧ flight = deleteFlight values n call.summaries ∧ root ∈ call.summaries.map (·.blockRoot) := by
  have hdelete : ∀ {summaries}, w ∈ deleteRows values summaries → w.2 = none ∧ root ∈ summaries.map (·.blockRoot) := by
    intro summaries hmem
    obtain ⟨summary, hsummary, rfl⟩ := List.mem_map.1 hmem
    rw [← encodeKey_blockKey_inj hkey]
    exact ⟨rfl, List.mem_map_of_mem hsummary⟩
  cases call with
  | processCanonicalBlocks summaries entries =>
    rcases mem_flightsOf_chunk.1 hflight with rfl | rfl | ⟨entry, -, rfl⟩ | ⟨entry, -, rfl⟩
    · obtain ⟨item, -, rfl⟩ := List.mem_map.1 hw
      exact absurd hkey (encodeKey_ne (show Bucket.allForks_blockArchive.value ≠ Bucket.allForks_block.value by decide) _ _)
    · exact ⟨(hdelete hw).1, rfl, (hdelete hw).2⟩
    · obtain rfl := List.mem_singleton.1 hw
      exact absurd hkey (encodeKey_ne (show Bucket.index_blockArchiveRootIndex.value ≠ Bucket.allForks_block.value by decide) _ _)
    · obtain rfl := List.mem_singleton.1 hw
      exact absurd hkey
        (encodeKey_ne (show Bucket.index_blockArchiveParentRootIndex.value ≠ Bucket.allForks_block.value by decide) _ _)
  | deleteNonCanonicalBlocks summaries =>
    obtain rfl := mem_flightsOf_nonCanonical.1 hflight
    exact ⟨(hdelete hw).1, rfl, (hdelete hw).2⟩

end

variable {db : Store}

/-! ## The chunks -/

variable {summary : BlockSummary}

theorem mem_chunk :
    summary ∈ chunk all n ↔ ∃ i, all[i]? = some summary ∧ i / BATCH_SIZE = n := by
  have hsize : 0 < BATCH_SIZE := by decide
  unfold chunk
  rw [List.mem_iff_getElem?]
  constructor
  · rintro ⟨i, hget⟩
    rw [List.getElem?_drop, List.getElem?_take] at hget
    split at hget
    · rename_i hlt
      refine ⟨n * BATCH_SIZE + i, hget, ?_⟩
      exact Nat.div_eq_of_lt_le (by omega) (by rw [Nat.succ_mul]; omega)
    · cases hget
  · rintro ⟨i, hget, rfl⟩
    have hlt := (List.getElem?_eq_some_iff.1 hget).1
    have hdiv := Nat.div_add_mod' i BATCH_SIZE
    have hmod := Nat.mod_lt i hsize
    refine ⟨i % BATCH_SIZE, ?_⟩
    rw [List.getElem?_drop, List.getElem?_take, hdiv, if_pos (by omega), hget]

theorem mem_of_mem_chunk (h : summary ∈ chunk all n) : summary ∈ all := by
  obtain ⟨i, hget, -⟩ := mem_chunk.1 h
  exact List.mem_of_getElem? hget

theorem exists_chunk (h : summary ∈ all) :
    ∃ n, summary ∈ chunk all n ∧ n * BATCH_SIZE < all.length := by
  obtain ⟨i, hget⟩ := List.getElem?_of_mem h
  have hlt := (List.getElem?_eq_some_iff.1 hget).1
  refine ⟨i / BATCH_SIZE, mem_chunk.2 ⟨i, hget, rfl⟩, ?_⟩
  have := Nat.div_mul_le_self i BATCH_SIZE
  omega

theorem chunk_eq (h : Canonical all) {n n' : Nat} (hmem : summary ∈ chunk all n) (hmem' : summary ∈ chunk all n') : n = n' := by
  obtain ⟨i, hget, rfl⟩ := mem_chunk.1 hmem
  obtain ⟨i', hget', rfl⟩ := mem_chunk.1 hmem'
  have hlt := (List.getElem?_eq_some_iff.1 hget).1
  rw [(List.getElem?_inj hlt (List.Nodup.of_map _ h.roots)).1 (hget.trans hget'.symm)]

theorem loadBlock_eq_ok {entry : Id × Buffer × BlockSummary} :
    loadBlock values codec db summary = .ok entry ↔
      ∃ blockBuffer, (block values).getBinary db (blockKey summary.blockRoot) = some blockBuffer ∧
        entry = (.number summary.slot, blockBuffer, summary) := by
  unfold loadBlock blockKey
  cases (block values).getBinary db (.bytes summary.blockRoot.toList) with
  | none => simp
  | some blockBuffer => simp [eq_comm]

/-! ## The calls of a run -/

inductive Made (values : Values) (all : List BlockSummary) (db : Store) (n : Nat) : Call → Prop
  | canonical (entries : List (Id × Buffer × BlockSummary)) (hleft : n * BATCH_SIZE < all.length)
      (hentries : ∀ entry, entry ∈ entries ↔ ∃ summary ∈ chunk all n, ∃ blockBuffer,
        (block values).getBinary db (blockKey summary.blockRoot) = some blockBuffer ∧
          entry = (.number summary.slot, blockBuffer, summary)) :
      Made values all db n (.processCanonicalBlocks (chunk all n) entries)
  | nonCanonical (summaries : List BlockSummary) (hdone : all.length ≤ n * BATCH_SIZE) :
      Made values all db n (.deleteNonCanonicalBlocks summaries)

section Calls

variable (h : Canonical all) {db : Store} {n : Nat} {call : Call} (hmade : Made values all db n call) {flight : Flight Buffer Buffer}
  (hflight : flight ∈ (rules values).flightsOf n call) {w : Buffer × Option Buffer} (hw : w ∈ flight.update)
  {summary : BlockSummary} (hmem : summary ∈ all)

include h hmade hflight hw hmem

theorem Made.archive_write (hkey : w.1 = (blockArchive values).encodeKey (.number summary.slot)) :
    summary ∈ chunk all n ∧
      ∃ entries, call = .processCanonicalBlocks (chunk all n) entries ∧ flight = putFlight values n entries ∧
        ∃ blockBuffer, (block values).getBinary db (blockKey summary.blockRoot) = some blockBuffer ∧ w.2 = some blockBuffer := by
  obtain ⟨summaries, entries, rfl, hput, entry, hentry, rfl⟩ := of_archive_write hflight hw hkey
  cases hmade with
  | canonical _ hleft hentries =>
    obtain ⟨summary', hmem', blockBuffer, hread, rfl⟩ := (hentries entry).1 hentry
    obtain rfl := h.eq_of_key (mem_of_mem_chunk hmem') hmem hkey
    exact ⟨hmem', entries, rfl, hput, blockBuffer, hread, rfl⟩

theorem Made.block_write (hkey : w.1 = (block values).encodeKey (blockKey summary.blockRoot)) :
    w.2 = none ∧ (summary ∈ chunk all n ∨ all.length ≤ n * BATCH_SIZE) := by
  obtain ⟨hnone, -, hroot⟩ := of_block_write hflight hw hkey
  refine ⟨hnone, ?_⟩
  cases hmade with
  | canonical entries hleft hentries =>
    obtain ⟨summary', hmem', heq⟩ := List.mem_map.1 hroot
    obtain rfl := List.inj_on_of_nodup_map h.roots (mem_of_mem_chunk hmem') hmem heq
    exact .inl hmem'
  | nonCanonical summaries hdone => exact .inr hdone

end Calls

variable {steps : List (System Call Buffer Buffer × Label Call)} {s : System Call Buffer Buffer}

section

variable (h : Canonical all) (hrun : Run (next (rules values)) (.first db) steps s)
include h hrun

theorem getBinary_of_made (hmade : ∀ n call, (s.calls.map (·.1))[n]? = some call → Made values all db n call)
    (hmem : summary ∈ chunk all s.calls.length) (hleft : s.calls.length * BATCH_SIZE < all.length) :
    (block values).getBinary s.store (blockKey summary.blockRoot) = (block values).getBinary db (blockKey summary.blockRoot) := by
  have hnone : ∀ flight ∈ s.settled, ∀ w ∈ flight.1.update, w.1 ≠ (block values).encodeKey (blockKey summary.blockRoot) := by
    rintro ⟨flight, succeeds⟩ hsettled w hw hkey
    obtain ⟨call, hcall, hflight⟩ := call_of_settled hrun hsettled
    have hlt : flight.call < s.calls.length := by
      have := (List.getElem?_eq_some_iff.1 hcall).1
      rwa [List.length_map] at this
    obtain ⟨-, hchunk | hdone⟩ := (hmade _ call hcall).block_write h hflight hw (mem_of_mem_chunk hmem) hkey
    · exact absurd (chunk_eq h hchunk hmem) (Nat.ne_of_lt hlt)
    · have := Nat.mul_le_mul_right BATCH_SIZE hlt.le
      omega
  rcases get?_store hrun (v := none) fun flight hsettled w hw hkey => absurd hkey (hnone _ hsettled w hw) with
    ⟨⟨flight, hsettled, hkey⟩, -⟩ | ⟨-, hread⟩
  · obtain ⟨w, hw, hkey⟩ := List.mem_map.1 hkey
    exact absurd hkey (hnone _ hsettled w hw)
  · exact hread

theorem made_of_run (htask : ∀ step ∈ steps, OfTask values codec all step.1 step.2) :
    ∀ n call, (s.calls.map (·.1))[n]? = some call → Made values all db n call := by
  refine forall_calls hrun fun steps' before call hprefix hmem hmade => ?_
  have hstarts : Starts values codec all before call := (htask _ hmem).2
  cases hstarts with
  | canonical entries hleft hread =>
    refine .canonical entries hleft fun entry => (mem_iff_of_mapM_eq_ok hread).trans ?_
    refine exists_congr fun summary => and_congr_right fun hsummary => ?_
    rw [loadBlock_eq_ok, getBinary_of_made h hprefix hmade hsummary hleft]
  | nonCanonical summaries hdone honce hsome => exact .nonCanonical summaries hdone

end

/-! ## No block is lost -/

section Settled

variable (h : Canonical all) {db : Store} {steps : List (System Call Buffer Buffer × Label Call)} {s : System Call Buffer Buffer}
  (hrun : Run (next (rules values)) (.first db) steps s)
  (hmade : ∀ n call, (s.calls.map (·.1))[n]? = some call → Made values all db n call)

include h hmade

variable {summary : BlockSummary} {blockBuffer : Buffer}

theorem exists_put {n : Nat} {call : Call} (hcall : (s.calls.map (·.1))[n]? = some call) (hmem : summary ∈ all)
    (hdeletes : summary ∈ chunk all n ∨ all.length ≤ n * BATCH_SIZE)
    (hread : (block values).getBinary db (blockKey summary.blockRoot) = some blockBuffer) :
    ∃ k entries, (s.calls.map (·.1))[k]? = some (.processCanonicalBlocks (chunk all k) entries) ∧ summary ∈ chunk all k ∧
      ((blockArchive values).encodeKey (.number summary.slot), some blockBuffer) ∈ (putFlight values k entries).update := by
  obtain ⟨k, hchunk, hleft⟩ := exists_chunk hmem
  have hle : k ≤ n := by
    rcases hdeletes with hdeletes | hdone
    · rw [chunk_eq h hchunk hdeletes]
    · exact (lt_of_mul_lt_mul_right (hleft.trans_le hdone) (Nat.zero_le _)).le
  have hlt : k < (s.calls.map (·.1)).length := hle.trans_lt (List.getElem?_eq_some_iff.1 hcall).1
  have hget := List.getElem?_eq_getElem hlt
  generalize (s.calls.map (·.1))[k] = call' at hget
  cases hmade k call' hget with
  | canonical entries _ hentries =>
    refine ⟨k, entries, hget, hchunk, ?_⟩
    have hentry := (hentries (.number summary.slot, blockBuffer, summary)).2 ⟨summary, hchunk, blockBuffer, hread, rfl⟩
    exact List.mem_map_of_mem (List.mem_map_of_mem hentry)
  | nonCanonical summaries hdone => omega

include hrun

theorem put_once {flight flight' : Flight Buffer Buffer} {succeeds succeeds' : Bool} (hsettled : (flight, succeeds) ∈ s.settled)
    (hsettled' : (flight', succeeds') ∈ s.settled) (hmem : summary ∈ all)
    (hkey : (blockArchive values).encodeKey (.number summary.slot) ∈ flight.update.map (·.1))
    (hkey' : (blockArchive values).encodeKey (.number summary.slot) ∈ flight'.update.map (·.1)) : succeeds = succeeds' := by
  have hchunk : ∀ {flight : Flight Buffer Buffer} {succeeds : Bool}, (flight, succeeds) ∈ s.settled →
      (blockArchive values).encodeKey (.number summary.slot) ∈ flight.update.map (·.1) → summary ∈ chunk all flight.call := by
    intro flight succeeds hsettled hkey
    obtain ⟨w, hw, hwkey⟩ := List.mem_map.1 hkey
    obtain ⟨call, hcall, hflight⟩ := call_of_settled hrun hsettled
    exact ((hmade _ call hcall).archive_write h hflight hw hmem hwkey).1
  refine settles_once hrun
    (P := fun flight => (blockArchive values).encodeKey (.number summary.slot) ∈ flight.update.map (·.1)) (fun n call hcall => ?_)
    hsettled hsettled' hkey hkey' (chunk_eq h (hchunk hsettled hkey) (hchunk hsettled' hkey'))
  cases hmade n call hcall with
  | canonical entries hleft hentries =>
    have hrest : ∀ flight ∈ deleteFlight values n (chunk all n) ::
        ((rules values).floating (.processCanonicalBlocks (chunk all n) entries)).map fun update => ⟨n, false, update⟩,
        (blockArchive values).encodeKey (.number summary.slot) ∉ flight.update.map (·.1) := by
      intro flight hflight hkey
      obtain ⟨w, hw, hwkey⟩ := List.mem_map.1 hkey
      have hmem : flight ∈ (rules values).flightsOf n (.processCanonicalBlocks (chunk all n) entries) :=
        List.mem_cons_of_mem _ hflight
      obtain ⟨_, _, -, hput, entry, -, rfl⟩ := of_archive_write hmem hw hwkey
      rcases List.mem_cons.1 hflight with rfl | hfloats
      · obtain ⟨summary', -, heq⟩ := List.mem_map.1 hw
        cases congrArg Prod.snd heq
      · obtain ⟨update, -, rfl⟩ := List.mem_map.1 hfloats
        cases congrArg Flight.awaited hput
    exact List.pairwise_cons.2 ⟨fun flight hflight hboth => hrest flight hflight hboth.2,
      List.pairwise_of_forall_mem_list fun flight hflight flight' _ hboth => hrest flight hflight hboth.1⟩
  | nonCanonical summaries hdone => exact List.pairwise_singleton _ _

theorem block_read (hmem : summary ∈ all) :
    ((∃ flight, (flight, true) ∈ s.settled ∧ (block values).encodeKey (blockKey summary.blockRoot) ∈ flight.update.map (·.1)) ∧
        (block values).getBinary s.store (blockKey summary.blockRoot) = none) ∨
      ((∀ flight, (flight, true) ∈ s.settled → (block values).encodeKey (blockKey summary.blockRoot) ∉ flight.update.map (·.1)) ∧
        (block values).getBinary s.store (blockKey summary.blockRoot) =
          (block values).getBinary db (blockKey summary.blockRoot)) := by
  refine get?_store hrun fun flight hsettled w hw hkey => ?_
  obtain ⟨call, hcall, hflight⟩ := call_of_settled hrun hsettled
  exact ((hmade _ call hcall).block_write h hflight hw hmem hkey).1

theorem archive_read (hmem : summary ∈ all) (hread : (block values).getBinary db (blockKey summary.blockRoot) = some blockBuffer) :
    ((∃ flight, (flight, true) ∈ s.settled ∧ (blockArchive values).encodeKey (.number summary.slot) ∈ flight.update.map (·.1)) ∧
        (blockArchive values).getBinary s.store (.number summary.slot) = some blockBuffer) ∨
      ((∀ flight, (flight, true) ∈ s.settled → (blockArchive values).encodeKey (.number summary.slot) ∉ flight.update.map (·.1)) ∧
        (blockArchive values).getBinary s.store (.number summary.slot) =
          (blockArchive values).getBinary db (.number summary.slot)) := by
  refine get?_store hrun fun flight hsettled w hw hkey => ?_
  obtain ⟨call, hcall, hflight⟩ := call_of_settled hrun hsettled
  obtain ⟨-, -, -, -, blockBuffer', hread', hrow⟩ := (hmade _ call hcall).archive_write h hflight hw hmem hkey
  rw [hrow, ← hread', hread]

end Settled

/-- **No canonical block is lost exactly when the write that fails is none that archives a block**, in every run of the task of which
one write may fail, when nothing is in flight any more. -/
theorem notLost_iff (h : Canonical all) {db : Store} {steps : List (System Call Buffer Buffer × Label Call)}
    {s : System Call Buffer Buffer} (hrun : Run (next (rules values)) (.first db) steps s)
    (htask : ∀ step ∈ steps, OfTask values codec all step.1 step.2) (hflights : s.flights = [])
    (hone : s.settled.Pairwise fun settled settled' => settled.2 = true ∨ settled'.2 = true) :
    NotLost values all db s.store ↔ ∀ flight, (flight, false) ∈ s.settled → MayFail values all db flight.update := by
  have hmade := made_of_run h hrun htask
  constructor
  · intro hkept flight hfailed summary hmem blockBuffer hread hrow
    obtain ⟨call, hcall, hflight⟩ := call_of_settled hrun hfailed
    obtain ⟨hchunk, entries, rfl, -⟩ := (hmade _ call hcall).archive_write h hflight hrow hmem rfl
    -- the deletion of the same chunk did not fail as well
    have hdeleted : (deleteFlight values flight.call (chunk all flight.call), true) ∈ s.settled := by
      obtain ⟨succeeds, hdelete⟩ := settled_of_call hrun hflights hcall (mem_flightsOf_chunk.2 (.inr (.inl rfl)))
      cases succeeds with
      | true => exact hdelete
      | false =>
        have hsymm : Std.Symm fun (a b : Flight Buffer Buffer × Bool) => a.2 = true ∨ b.2 = true := ⟨fun _ _ => Or.symm⟩
        have hne : (flight, false) ≠ (deleteFlight values flight.call (chunk all flight.call), false) := by
          intro heq
          rw [Prod.mk.injEq] at heq
          rw [heq.1] at hrow
          obtain ⟨summary', -, hrow'⟩ := List.mem_map.1 hrow
          cases hrow'
        rcases hone.forall hfailed hdelete hne with hfalse | hfalse <;> cases hfalse
    have hkey : (block values).encodeKey (blockKey summary.blockRoot) ∈ (deleteRows values (chunk all flight.call)).map (·.1) :=
      List.mem_map_of_mem (List.mem_map_of_mem hchunk)
    rcases hkept summary hmem blockBuffer hread with hstill | harchived
    · rcases block_read h hrun hmade hmem with ⟨-, hnone⟩ | ⟨hnot, -⟩
      · rw [hnone] at hstill
        cases hstill
      · exact absurd hkey (hnot _ hdeleted)
    · rcases archive_read h hrun hmade hmem hread with ⟨⟨flight', hput, hkey'⟩, -⟩ | ⟨-, hsame⟩
      · cases put_once h hrun hmade hfailed hput hmem (List.mem_map_of_mem hrow) hkey'
      · rw [← hsame, harchived]
  · intro hmay summary hmem blockBuffer hread
    rcases block_read h hrun hmade hmem with ⟨⟨flight, hdeleted, hkey⟩, -⟩ | ⟨-, hsame⟩
    · right
      obtain ⟨w, hw, hwkey⟩ := List.mem_map.1 hkey
      obtain ⟨call, hcall, hflight⟩ := call_of_settled hrun hdeleted
      have hdeletes := ((hmade _ call hcall).block_write h hflight hw hmem hwkey).2
      obtain ⟨k, entries, hput, -, hrow⟩ := exists_put h hmade hcall hmem hdeletes hread
      obtain ⟨succeeds, hsettled⟩ := settled_of_call hrun hflights hput (mem_flightsOf_chunk.2 (.inl rfl))
      rcases archive_read h hrun hmade hmem hread with ⟨-, harchived⟩ | ⟨hnot, hsame⟩
      · exact harchived
      · cases succeeds with
        | true => exact absurd (List.mem_map_of_mem hrow) (hnot _ hsettled)
        | false =>
          rw [hsame]
          exact hmay _ hsettled summary hmem blockBuffer hread hrow
    · left
      rw [hsame, hread]

/-! ## Three blocks -/

def threeSummaries : List BlockSummary := [⟨1, chainRoot 2, chainRoot 1⟩, ⟨2, chainRoot 3, chainRoot 2⟩, ⟨4, chainRoot 4, chainRoot 3⟩]

def sibling : BlockSummary := ⟨3, chainRoot 5, chainRoot 3⟩

def fourDb : Store :=
  (threeSummaries ++ [sibling]).foldl (fun db summary =>
    (block slotValues).putBinary db (blockKey summary.blockRoot) [UInt8.ofNat summary.slot]) .empty

def movesThree : Call :=
  .processCanonicalBlocks threeSummaries (threeSummaries.map fun summary => (.number summary.slot, [UInt8.ofNat summary.slot], summary))

/-- The index of the second block is written first, then the blocks are deleted. -/
def threeRun (archived indexed : Bool) : List (Label Call) :=
  [.start movesThree, .settle 3 indexed, .settle 1 true, .settle 0 archived, .settle 0 true, .settle 0 true, .settle 0 true,
    .settle 0 true, .settle 0 true]

theorem threeSummaries_canonical : Canonical threeSummaries where
  safe := by decide
  slots := by decide
  roots := by decide

theorem movesThree_ofTask : OfTask slotValues hexCodec threeSummaries (.first fourDb) (.start movesThree) :=
  ⟨fun call hmem => absurd hmem List.not_mem_nil, .canonical _ (by decide) (by decide +kernel)⟩

/-- The index fails, which nothing awaits, and the task goes on. -/
theorem notLost_iff_threeSummaries :
    let run := exec (next (rules slotValues))
      (threeRun true false ++ [.resolve 0, .start (.deleteNonCanonicalBlocks [sibling]), .settle 0 true, .resolve 1]) (.first fourDb)
    run.2.calls.map (·.2) = [.resolved, .resolved] ∧ NotLost slotValues threeSummaries fourDb run.2.store := by
  intro run
  have htask : ∀ step ∈ run.1, OfTask slotValues hexCodec threeSummaries step.1 step.2 := by
    refine List.forall_mem_cons.2 ⟨movesThree_ofTask, ?_⟩
    iterate 9 refine List.forall_mem_cons.2 ⟨trivial, ?_⟩
    refine List.forall_mem_cons.2 ⟨⟨List.forall_mem_singleton.2 rfl, .nonCanonical _ (by decide) ?_ (by decide)⟩, ?_⟩
    · exact List.forall_mem_singleton.2 fun summaries heq => by cases heq
    · exact List.forall_mem_cons.2 ⟨trivial, List.forall_mem_singleton.2 trivial⟩
  refine ⟨by decide +kernel, (notLost_iff threeSummaries_canonical (exec_run _ _ _) htask rfl (by decide +kernel)).2 ?_⟩
  intro flight hfailed summary hmem blockBuffer hread hrow
  have hfailing : run.2.settled.filter (fun settled => !settled.2) =
      [(⟨0, false, BlockArchiveRepository.storeRootIndex ⟨2, chainRoot 3, chainRoot 2⟩⟩, false)] := rfl
  have hindex : (flight, false) ∈ run.2.settled.filter (fun settled => !settled.2) := List.mem_filter.2 ⟨hfailed, rfl⟩
  rw [hfailing, List.mem_singleton, Prod.mk.injEq] at hindex
  rw [hindex.1] at hrow
  have hkey := congrArg Prod.fst (List.mem_singleton.1 hrow)
  exact absurd hkey (encodeKey_ne (by decide) _ _)

/-- The rows fail, and the blocks are deleted. -/
theorem run_loses_block : ¬ ∀ steps s, Run (next (rules slotValues)) (.first fourDb) steps s →
    (∀ step ∈ steps, OfTask slotValues hexCodec threeSummaries step.1 step.2) → s.flights = [] →
    (s.settled.Pairwise fun settled settled' => settled.2 = true ∨ settled'.2 = true) →
    NotLost slotValues threeSummaries fourDb s.store := by
  intro h
  have htask : ∀ step ∈ (exec (next (rules slotValues)) (threeRun false true) (.first fourDb)).1,
      OfTask slotValues hexCodec threeSummaries step.1 step.2 := by
    refine List.forall_mem_cons.2 ⟨movesThree_ofTask, ?_⟩
    iterate 7 refine List.forall_mem_cons.2 ⟨trivial, ?_⟩
    exact List.forall_mem_singleton.2 trivial
  have hkept := h _ _ (exec_run (next (rules slotValues)) (threeRun false true) (.first fourDb)) htask rfl (by decide +kernel)
  rcases hkept _ List.mem_cons_self [1] (by decide +kernel) with hstill | harchived
  · exact absurd hstill (by decide +kernel)
  · exact absurd harchived (by decide +kernel)

end Lodestar.Tasks.ArchiveBlocksTask
