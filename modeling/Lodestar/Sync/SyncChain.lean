import Mathlib.Data.List.Sort
import Lodestar.Lib.Greatest
import Lodestar.Network.PeerRpcScore
import Lodestar.Sync.Batch
/-!
# SyncChain — a chain of batches synced from a group of peers

The main thread runs one callback at a time: a method of the chain, the end of a download, the end of a segment that was processed,
and the main loop, which takes triggers one by one.  A trigger wakes the loop if it waits, and else it is kept for its next turn.
-/
namespace Lodestar.Sync

open Lib
open Network (PeerAction)

structure ChainTarget where
  slot : Nat
  root : Root
deriving DecidableEq

inductive SyncChainStatus
  | Stopped
  | Syncing
  | Synced
  | Error
deriving DecidableEq

inductive SyncError
  | batch (err : BatchError)
  | aborted
  | batchesStatus (message : String)
deriving DecidableEq

inductive StartError
  | ended (status : SyncChainStatus)
  | batch (err : BatchError)
deriving DecidableEq

structure PeerReport where
  peer : PeerId
  action : PeerAction
  actionName : String
deriving DecidableEq

/-- An iterator that does not buffer values; an error comes first, then the end, then a value. -/
structure ItTrigger where
  triggered : Bool := false
  ended : Bool := false
  error : Option SyncError := none
deriving DecidableEq

inductive Loop
  /-- It awaits the next value. -/
  | waiting
  /-- It got a value. -/
  | resumed
  /-- It awaits `processChainSegment` for a batch. -/
  | processing (id : Nat) (blocks : List SignedBeaconBlock)
  | throwing (error : SyncError)
  | failed
  /-- It broke out at a target slot, or found the iterator ended. -/
  | leaving (slot : Option Nat)
  | synced (slot : Option Nat)
deriving DecidableEq

structure SyncChain where
  target : Option ChainTarget
  validatedEpochs : Nat
  /-- Any epoch previous to this one has been validated. -/
  startEpoch : Nat
  status : SyncChainStatus
  batchProcessor : ItTrigger
  loop : Loop
  batches : List Batch
  peerset : OrderedMap PeerId ChainTarget
  /-- The batches that the map has no more. -/
  dropped : List Batch
  downloads : List Nat
  /-- How often peers were shuffled. -/
  shuffles : Nat
  reports : List PeerReport
  made : List Batch
  /-- The start epochs of the batches that were processed successfully. -/
  processed : List Nat

structure SyncChainOpts where
  epochsPerBatch : Nat := EPOCHS_PER_BATCH
  hashBlocks : List SignedBeaconBlock → List UInt8
  shuffle : Nat → List PeerId → List PeerId

/-! ## Targets and peers -/

def computeMostCommonTarget (targets : List ChainTarget) : Option ChainTarget :=
  let countById := targets.foldl (fun counts target => counts.set target (1 + (counts.get? target).getD 0)) OrderedMap.empty
  (countById.entries.foldl (keepGreater Prod.snd) none).map Prod.fst

def activeRequestsByPeer (batches : List Batch) (peer : PeerId) : Nat := batches.countP fun b => b.state == .Downloading peer

section

variable (peers : List PeerId) (activeRequests : PeerId → Nat)

/-- Sort peers by (1) no failed request (2) less active requests, then pick first. -/
def bestPeerToRetryBatch (b : Batch) : Option PeerId :=
  let failed := fun peer => if peer ∈ b.getFailedPeers then 1 else 0
  (peers.insertionSort fun p q => failed p < failed q ∨ (failed p = failed q ∧ activeRequests p ≤ activeRequests q)).head?

def idlePeers : List PeerId :=
  peers.filter fun peer => activeRequests peer == 0

end

def reportsFor (b : Batch) (attemptOk : Attempt) : List PeerReport :=
  (b.failedProcessingAttempts.filter fun attempt => attempt.hash != attemptOk.hash).map fun attempt =>
    if attemptOk.peer = attempt.peer then
      -- The same peer corrected its previous attempt
      ⟨attempt.peer, .MidToleranceError, "SyncChainInvalidBatchSelf"⟩
    else
      -- A different peer sent an bad batch
      ⟨attempt.peer, .LowToleranceError, "SyncChainInvalidBatchOther"⟩

/-- What the loop of `advanceChain` does to the batches. -/
structure Advanced where
  error : Option BatchError
  kept : List Batch
  dropped : List Batch
  reports : List PeerReport

def dropBefore (newStartEpoch : Int) : List Batch → Advanced
  | [] => { error := none, kept := [], dropped := [], reports := [] }
  | b :: batches =>
    if (b.startEpoch : Int) < newStartEpoch then
      match b.validationSuccess with
      | .error e => { error := some e, kept := batches, dropped := [b], reports := [] }
      | .ok attemptOk =>
        let rest := dropBefore newStartEpoch batches
        { rest with dropped := b :: rest.dropped, reports := reportsFor b attemptOk ++ rest.reports }
    else
      let rest := dropBefore newStartEpoch batches
      { rest with kept := b :: rest.kept }

/-- The pending batches before a failed one are to be retried; the first that throws ends the loop. -/
def invalidateBefore (startEpoch : Nat) : List Batch → Except BatchError Unit × List Batch
  | [] => (.ok (), [])
  | b :: batches =>
    if b.startEpoch < startEpoch then
      match b.validationError with
      | (.error e, b) => (.error e, b :: batches)
      | (.ok (), b) =>
        let rest := invalidateBefore startEpoch batches
        (rest.1, b :: rest.2)
    else
      let rest := invalidateBefore startEpoch batches
      (rest.1, b :: rest.2)

namespace SyncChain

/-- The constructor: the main loop awaits its first value. -/
def init (startEpoch : Nat) : SyncChain :=
  { target := none, validatedEpochs := 0, startEpoch := startEpoch, status := .Stopped, batchProcessor := {}, loop := .waiting
    batches := [], peerset := .empty, dropped := [], downloads := [], shuffles := 0, reports := [], made := [], processed := [] }

variable (P : Preset) (opts : SyncChainOpts)

/-! ## The iterator -/

def awaitNext (s : SyncChain) : SyncChain :=
  match s.batchProcessor.error with
  | some error => { s with loop := .throwing error }
  | none =>
    if s.batchProcessor.ended then { s with loop := .leaving none }
    else if s.batchProcessor.triggered then
      { s with batchProcessor := { s.batchProcessor with triggered := false }, loop := .resumed }
    else { s with loop := .waiting }

def triggerBatchProcessor (s : SyncChain) : SyncChain :=
  let s := { s with batchProcessor := { s.batchProcessor with triggered := true } }
  if s.loop = .waiting then s.awaitNext else s

def endBatchProcessor (error : SyncError) (s : SyncChain) : SyncChain :=
  let s := { s with batchProcessor := { s.batchProcessor with error := some error } }
  if s.loop = .waiting then s.awaitNext else s

def throwInLoop (error : SyncError) (s : SyncChain) : SyncChain :=
  { s with batchProcessor := { s.batchProcessor with ended := true }, loop := .throwing error }

/-! ## Requests -/

/-- An object after a method changed it. -/
def putBatch (b : Batch) (s : SyncChain) : SyncChain :=
  { s with
    batches := s.batches.map fun other => if other.id = b.id then b else other
    dropped := s.dropped.map fun other => if other.id = b.id then b else other }

def findBatch (id : Nat) (s : SyncChain) : Option Batch := (s.batches ++ s.dropped).find? fun b => b.id == id

def sendBatch (b : Batch) (peer : PeerId) (s : SyncChain) : SyncChain :=
  match b.startDownloading peer with
  | .ok b => { s.putBatch b with downloads := s.downloads ++ [b.id] }
  -- Callers send batches that await their download, so this is not reached
  | .error e => s.endBatchProcessor (.batch e)

def includeNextBatch (s : SyncChain) : Option (Batch × SyncChain) :=
  -- Don't count batches in the AwaitingValidation state, to prevent stalling sync
  let batchesInBuffer := s.batches.filter fun b => b.status == .Downloading || b.status == .AwaitingProcessing
  if BATCH_BUFFER_SIZE < batchesInBuffer.length then none
  else
    let startEpoch := toBeDownloadedStartEpoch s.batches s.startEpoch opts.epochsPerBatch
    let toBeDownloadedSlot := computeStartSlotAtEpoch P startEpoch + BATCH_SLOT_OFFSET
    -- Don't request batches beyond the target head slot
    if s.target.any fun target => target.slot < toBeDownloadedSlot then none
    else if s.batches.any fun b => b.startEpoch == startEpoch then none
    else
      let b := Batch.new s.made.length startEpoch
      some (b, { s with batches := s.batches ++ [b], made := s.made ++ [b] })

def retryBatches (peers : List PeerId) (activeRequests : PeerId → Nat) : List Batch → SyncChain → SyncChain
  | [], s => s
  | b :: batches, s =>
    if b.status = .AwaitingDownload then
      match bestPeerToRetryBatch peers activeRequests b with
      | some peer => retryBatches peers activeRequests batches (s.sendBatch b peer)
      | none => retryBatches peers activeRequests batches s
    else retryBatches peers activeRequests batches s

def requestNewBatches : List PeerId → SyncChain → SyncChain
  | [], s => s
  | peer :: peers, s =>
    match s.includeNextBatch P opts with
    | none => s
    | some (b, s) => requestNewBatches peers (s.sendBatch b peer)

def requestBatches (s : SyncChain) : SyncChain :=
  if s.status ≠ .Syncing then s
  else
    let peers := opts.shuffle s.shuffles (s.peerset.entries.map Prod.fst)
    let activeRequests := activeRequestsByPeer s.batches
    let s := { s with shuffles := s.shuffles + 1 }
    requestNewBatches P opts (idlePeers peers activeRequests) (s.retryBatches peers activeRequests s.batches)

/-! ## The methods of the chain -/

/-- Drops any batches previous to `newStartEpoch` and updates the chain boundaries. -/
def advanceChain (newStartEpoch : Int) (s : SyncChain) : Except BatchError Unit × SyncChain :=
  -- make sure this epoch produces an advancement
  if newStartEpoch ≤ (s.startEpoch : Int) then (.ok (), s)
  else
    let advanced := dropBefore newStartEpoch s.batches
    let s := { s with
      batches := advanced.kept
      dropped := s.dropped ++ advanced.dropped
      validatedEpochs := s.validatedEpochs + advanced.dropped.length * EPOCHS_PER_BATCH
      reports := s.reports ++ advanced.reports }
    match advanced.error with
    | some e => (.error e, s)
    | none => (.ok (), { s with startEpoch := newStartEpoch.toNat })

def advanceIf (imported : Bool) (startEpoch : Nat) (s : SyncChain) : Except BatchError Unit × SyncChain :=
  if imported then s.advanceChain startEpoch else (.ok (), s)

def alignedEpoch (startEpoch localFinalizedEpoch : Nat) : Int :=
  startEpoch + ((localFinalizedEpoch : Int) - startEpoch) / (EPOCHS_PER_BATCH : Int) * (EPOCHS_PER_BATCH : Int)

def startSyncing (localFinalizedEpoch : Nat) (s : SyncChain) : Except StartError Unit × SyncChain :=
  match s.status with
  | .Syncing => (.ok (), s)
  | .Error => (.error (.ended .Error), s)
  | .Synced => (.error (.ended .Synced), s)
  | .Stopped =>
    let s := { s with status := .Syncing }
    -- to avoid dropping local progress, we advance the chain with its batch boundaries
    match s.advanceChain (alignedEpoch s.startEpoch localFinalizedEpoch) with
    | (.error e, s) => (.error (.batch e), s)
    | (.ok (), s) => (.ok (), (s.requestBatches P opts).triggerBatchProcessor)

def stopSyncing (s : SyncChain) : SyncChain := { s with status := .Stopped }

def remove (s : SyncChain) : SyncChain := s.endBatchProcessor .aborted

def computeTarget (s : SyncChain) : SyncChain := { s with target := computeMostCommonTarget (s.peerset.entries.map Prod.snd) }

def addPeer (peer : PeerId) (target : ChainTarget) (s : SyncChain) : SyncChain :=
  ({ s with peerset := s.peerset.set peer target }.computeTarget).requestBatches P opts

def removePeer (peer : PeerId) (s : SyncChain) : SyncChain := { s with peerset := s.peerset.delete peer }.computeTarget

/-! ## The callbacks -/

/-- The rest of `sendBatch`, after the download of a batch ended with blocks or failed. -/
def downloaded (id : Nat) (result : Option (List SignedBeaconBlock)) (s : SyncChain) : SyncChain :=
  let s := { s with downloads := s.downloads.erase id }
  match s.findBatch id with
  | none => s
  | some b =>
    match result with
    | some blocks =>
      match b.downloadingSuccess blocks with
      | .error e => (s.endBatchProcessor (.batch e)).requestBatches P opts
      | .ok b => (((s.putBatch b).triggerBatchProcessor).requestBatches P opts).requestBatches P opts
    | none =>
      match b.downloadingError with
      | (.error e, b) => ((s.putBatch b).endBatchProcessor (.batch e)).requestBatches P opts
      | (.ok (), b) => ((s.putBatch b).requestBatches P opts).requestBatches P opts

inductive SegmentResult
  | ok
  | chainSegmentError (importedBlocks : Nat)
  | otherError

def processedBatch (b : Batch) (blocks : List SignedBeaconBlock) (s : SyncChain) : Except BatchError Unit × SyncChain :=
  match b.processingSuccess with
  | .error e => (.error e, s)
  | .ok after =>
    let s := { s.putBatch after with processed := s.processed ++ [b.startEpoch] }
    -- If the processed batch is not empty, validate previous AwaitingValidation blocks.
    match s.advanceIf (0 < blocks.length) b.startEpoch with
    | (.error e, s) => (.error e, s)
    | (.ok (), s) => (.ok (), (s.triggerBatchProcessor).requestBatches P opts)

/-- The rest of `processBatch` after a failure. -/
def failedBatch (b : Batch) (importedBlocks : Nat) (s : SyncChain) : Except BatchError Unit × SyncChain :=
  match b.processingError with
  | (.error e, after) => (.error e, s.putBatch after)
  | (.ok (), after) =>
    let s := s.putBatch after
    -- At least one block was imported, so all previous batches are valid
    match s.advanceIf (0 < importedBlocks) b.startEpoch with
    | (.error e, s) => (.error e, s)
    | (.ok (), s) =>
      -- All previous batches are potentially faulty and marked for retry.
      let invalidated := invalidateBefore b.startEpoch s.batches
      let s := { s with batches := invalidated.2 }
      match invalidated.1 with
      | .error e => (.error e, s)
      | .ok () => (.ok (), s.requestBatches P opts)

/-- The main loop goes on after a segment, or it throws what `processBatch` threw. -/
def afterSegment : Except BatchError Unit × SyncChain → SyncChain
  | (.error e, s) => s.throwInLoop (.batch e)
  | (.ok (), s) => s.awaitNext

def processedSegment (id : Nat) (blocks : List SignedBeaconBlock) (result : SegmentResult) (s : SyncChain) : SyncChain :=
  match s.findBatch id with
  | none => s
  | some b =>
    match result with
    | .ok => afterSegment (s.processedBatch P opts b blocks)
    | .chainSegmentError importedBlocks => afterSegment (s.failedBatch P opts b importedBlocks)
    | .otherError => afterSegment (s.failedBatch P opts b 0)

def isDone (s : SyncChain) (target : ChainTarget) : Bool :=
  target.slot ≤ computeStartSlotAtEpoch P (toBeProcessedStartEpoch s.batches s.startEpoch opts.epochsPerBatch)

def turn (s : SyncChain) : SyncChain :=
  if s.status ≠ .Syncing then s.awaitNext
  else
    match validateBatchesStatus s.batches with
    | .error message => s.throwInLoop (.batchesStatus message)
    | .ok () =>
      match s.target.filter (s.isDone P opts) with
      | some target => { s with batchProcessor := { s.batchProcessor with ended := true }, loop := .leaving (some target.slot) }
      | none =>
        match getNextBatchToProcess s.batches with
        | none => s.awaitNext
        | some b =>
          match b.startProcessing opts.hashBlocks with
          | .error e => s.throwInLoop (.batch e)
          | .ok (blocks, b) => { s.putBatch b with loop := .processing b.id blocks }

def reportsAtEnd (error : SyncError) (peers : List PeerId) : List PeerReport :=
  match error with
  | .batch err =>
    if err.code = .MAX_PROCESSING_ATTEMPTS then
      peers.map fun peer => ⟨peer, .LowToleranceError, "SyncChainMaxProcessingAttempts"⟩
    else []
  | _ => []

def settle (s : SyncChain) : SyncChain :=
  match s.loop with
  | .leaving slot => { s with status := .Synced, loop := .synced slot }
  | .throwing .aborted => { s with loop := .failed }
  | .throwing error =>
    { s with status := .Error, loop := .failed, reports := s.reports ++ reportsAtEnd error (s.peerset.entries.map Prod.fst) }
  | _ => s

inductive Event
  | addPeer (peer : PeerId) (target : ChainTarget)
  | removePeer (peer : PeerId)
  | startSyncing (localFinalizedEpoch : Nat)
  | stopSyncing
  | remove
  | downloaded (id : Nat) (result : Option (List SignedBeaconBlock))
  | turn
  | processed (result : SegmentResult)
  | settle

/-- A callback runs where what it is a callback of has happened. -/
def next (event : Event) (s : SyncChain) : Option SyncChain :=
  match event with
  | .addPeer peer target => some (s.addPeer P opts peer target)
  | .removePeer peer => some (s.removePeer peer)
  | .startSyncing localFinalizedEpoch => some (s.startSyncing P opts localFinalizedEpoch).2
  | .stopSyncing => some s.stopSyncing
  | .remove => some s.remove
  | .downloaded id result => if id ∈ s.downloads then some (s.downloaded P opts id result) else none
  | .turn => if s.loop = .resumed then some (s.turn P opts) else none
  | .processed result =>
    match s.loop with
    | .processing id blocks => some (s.processedSegment P opts id blocks result)
    | _ => none
  | .settle =>
    match s.loop with
    | .throwing _ => some s.settle
    | .leaving _ => some s.settle
    | _ => none

end SyncChain

end Lodestar.Sync
