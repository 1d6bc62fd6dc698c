import Lodestar.Chain.ProcessBlocks
import Lodestar.ReqResp.Types
/-!
# Batch — the epochs that range sync downloads and processes together

A batch is downloaded, processed, and validated by the next batch that imports a block.  Its request leaves out the first slot of
its first epoch and takes in the first slot after its last.

The batches of a chain are kept in order, and the functions below read off them what is processed and what is downloaded next.
-/
namespace Lodestar.Sync

open ReqResp (BeaconBlocksByRangeRequest)

def MAX_BATCH_DOWNLOAD_ATTEMPTS : Nat := 5

/-- Consider batch faulty after downloading and processing this number of times. -/
def MAX_BATCH_PROCESSING_ATTEMPTS : Nat := 3

def BATCH_SLOT_OFFSET : Nat := 1

def EPOCHS_PER_BATCH : Nat := 2

/-- The maximum number of batches to queue before requesting more. -/
def BATCH_BUFFER_SIZE : Nat := 5

/-- A peer by its base58 text. -/
abbrev PeerId := String

structure Attempt where
  peer : PeerId
  /-- The hash of the blocks of the attempt. -/
  hash : List UInt8
deriving DecidableEq

inductive BatchStatus
  | AwaitingDownload
  | Downloading
  | AwaitingProcessing
  | Processing
  | AwaitingValidation
deriving DecidableEq

inductive BatchState
  | AwaitingDownload
  | Downloading (peer : PeerId)
  | AwaitingProcessing (peer : PeerId) (blocks : List SignedBeaconBlock)
  | Processing (attempt : Attempt)
  /-- It is only valid once the next batch imports at least a block. -/
  | AwaitingValidation (attempt : Attempt)
deriving DecidableEq

def BatchState.status : BatchState → BatchStatus
  | .AwaitingDownload => .AwaitingDownload
  | .Downloading _ => .Downloading
  | .AwaitingProcessing _ _ => .AwaitingProcessing
  | .Processing _ => .Processing
  | .AwaitingValidation _ => .AwaitingValidation

inductive BatchErrorCode
  | WRONG_STATUS (expectedStatus : BatchStatus)
  | MAX_DOWNLOAD_ATTEMPTS
  | MAX_PROCESSING_ATTEMPTS
deriving DecidableEq

structure BatchError where
  code : BatchErrorCode
  startEpoch : Nat
  status : BatchStatus
deriving DecidableEq

structure Batch where
  id : Nat
  startEpoch : Nat
  state : BatchState
  failedProcessingAttempts : List Attempt
  failedDownloadAttempts : List PeerId
deriving DecidableEq

namespace Batch

def new (id startEpoch : Nat) : Batch :=
  { id := id, startEpoch := startEpoch, state := .AwaitingDownload, failedProcessingAttempts := [], failedDownloadAttempts := [] }

def request (P : Preset) (epochsPerBatch : Nat) (b : Batch) : BeaconBlocksByRangeRequest :=
  let startSlot := computeStartSlotAtEpoch P b.startEpoch + BATCH_SLOT_OFFSET
  let endSlot := startSlot + epochsPerBatch * P.SLOTS_PER_EPOCH
  { startSlot := startSlot, count := endSlot - startSlot, step := 1 }

def status (b : Batch) : BatchStatus := b.state.status

section

variable (b : Batch)

def getFailedPeers : List PeerId := b.failedDownloadAttempts ++ b.failedProcessingAttempts.map (·.peer)

def errorType (code : BatchErrorCode) : BatchError := ⟨code, b.startEpoch, b.status⟩

def wrongStatusErrorType (expectedStatus : BatchStatus) : BatchError := b.errorType (.WRONG_STATUS expectedStatus)

/-! ## The steps of a batch, which throw in another state -/

def startDownloading (peer : PeerId) : Except BatchError Batch :=
  match b.state with
  | .AwaitingDownload => .ok { b with state := .Downloading peer }
  | _ => .error (b.wrongStatusErrorType .AwaitingDownload)

def downloadingSuccess (blocks : List SignedBeaconBlock) : Except BatchError Batch :=
  match b.state with
  | .Downloading peer => .ok { b with state := .AwaitingProcessing peer blocks }
  | _ => .error (b.wrongStatusErrorType .Downloading)

/-- Downloading -> AwaitingDownload; after too many failures it throws with the failure noted. -/
def downloadingError : Except BatchError Unit × Batch :=
  match b.state with
  | .Downloading peer =>
    let b := { b with failedDownloadAttempts := b.failedDownloadAttempts ++ [peer] }
    if MAX_BATCH_DOWNLOAD_ATTEMPTS < b.failedDownloadAttempts.length then (.error (b.errorType .MAX_DOWNLOAD_ATTEMPTS), b)
    else (.ok (), { b with state := .AwaitingDownload })
  | _ => (.error (b.wrongStatusErrorType .Downloading), b)

def startProcessing (hashBlocks : List SignedBeaconBlock → List UInt8) (b : Batch) :
    Except BatchError (List SignedBeaconBlock × Batch) :=
  match b.state with
  | .AwaitingProcessing peer blocks => .ok (blocks, { b with state := .Processing ⟨peer, hashBlocks blocks⟩ })
  | _ => .error (b.wrongStatusErrorType .AwaitingProcessing)

def processingSuccess : Except BatchError Batch :=
  match b.state with
  | .Processing attempt => .ok { b with state := .AwaitingValidation attempt }
  | _ => .error (b.wrongStatusErrorType .Processing)

/-- After too many failures it throws with the failure noted. -/
def onProcessingError (attempt : Attempt) : Except BatchError Unit × Batch :=
  let b := { b with failedProcessingAttempts := b.failedProcessingAttempts ++ [attempt] }
  if MAX_BATCH_PROCESSING_ATTEMPTS < b.failedProcessingAttempts.length then (.error (b.errorType .MAX_PROCESSING_ATTEMPTS), b)
  else (.ok (), { b with state := .AwaitingDownload })

def processingError : Except BatchError Unit × Batch :=
  match b.state with
  | .Processing attempt => b.onProcessingError attempt
  | _ => (.error (b.wrongStatusErrorType .Processing), b)

def validationError : Except BatchError Unit × Batch :=
  match b.state with
  | .AwaitingValidation attempt => b.onProcessingError attempt
  | _ => (.error (b.wrongStatusErrorType .AwaitingValidation), b)

def validationSuccess : Except BatchError Attempt :=
  match b.state with
  | .AwaitingValidation attempt => .ok attempt
  | _ => .error (b.wrongStatusErrorType .AwaitingValidation)

end

end Batch

/-! ## The batches of a chain -/

/-- Validates that the status and ordering of batches is valid: `[AwaitingValidation]* [Processing]?
[AwaitingDownload,Downloading,AwaitingProcessing]*`. -/
def validateBatchesStatusFrom : List Batch → Nat → Nat → Except String Unit
  | [], _, _ => .ok ()
  | b :: batches, processing, preProcessing =>
    match b.status with
    | .AwaitingValidation =>
      if 0 < processing then .error "AwaitingValidation state found after Processing"
      else if 0 < preProcessing then .error "AwaitingValidation state found after PreProcessing"
      else validateBatchesStatusFrom batches processing preProcessing
    | .Processing =>
      if 0 < preProcessing then .error "Processing state found after PreProcessing"
      else if 0 < processing then .error "More than one Processing state found"
      else validateBatchesStatusFrom batches (processing + 1) preProcessing
    | .AwaitingDownload => validateBatchesStatusFrom batches processing (preProcessing + 1)
    | .Downloading => validateBatchesStatusFrom batches processing (preProcessing + 1)
    | .AwaitingProcessing => validateBatchesStatusFrom batches processing (preProcessing + 1)

def validateBatchesStatus (batches : List Batch) : Except String Unit := validateBatchesStatusFrom batches 0 0

def getNextBatchToProcess : List Batch → Option Batch
  | [] => none
  | b :: batches =>
    match b.status with
    -- If an AwaitingProcessing batch exists it can only be preceeded by AwaitingValidation
    | .AwaitingValidation => getNextBatchToProcess batches
    | .AwaitingProcessing => some b
    | .AwaitingDownload => none
    | .Downloading => none
    | .Processing => none

section

variable (batches : List Batch) (startEpoch epochsPerBatch : Nat)

def toBeProcessedStartEpoch : Nat :=
  match batches.reverse.find? fun b => b.status == .AwaitingValidation with
  | some lastAwaitingValidation => lastAwaitingValidation.startEpoch + epochsPerBatch
  | none => startEpoch

def toBeDownloadedStartEpoch : Nat :=
  match batches.getLast? with
  | some lastBatch => lastBatch.startEpoch + epochsPerBatch
  | none => startEpoch

end

end Lodestar.Sync
