import Lodestar.Lib.Fallible
/-!
# BlsMultiThreadWorkerPool — signature sets verified by a pool of workers

A call is cut into jobs, jobs of any calls are packed into one request to a worker, and the results come back as an array.  The
main thread runs one callback at a time: a call, a `runJob` timer, a worker's reply, a worker that is spawned.  A job is the
promise of one chunk of one call, and `settled` has every `resolve` and `reject` of such a promise, in order.
-/
namespace Lodestar.Bls

open Lib

/-- `@chainsafe/bls`, with the point format and the coordinates that the pool uses. -/
structure Library where
  PublicKey : Type
  Signature : Type
  aggregate : List PublicKey → Except String PublicKey
  toBytes : PublicKey → List UInt8
  publicKeyFromBytes : List UInt8 → Except String PublicKey
  signatureFromBytes : List UInt8 → Bool → Except String Signature
  verify : Signature → PublicKey → List UInt8 → Bool
  verifyMultipleSignatures : List (PublicKey × List UInt8 × Signature) → Bool

variable (bls : Library)

inductive SignatureSet
  | single (pubkey : bls.PublicKey) (signingRoot signature : List UInt8)
  | aggregate (pubkeys : List bls.PublicKey) (signingRoot signature : List UInt8)

namespace SignatureSet

variable {bls}

def signingRoot : SignatureSet bls → List UInt8
  | single _ signingRoot _ => signingRoot
  | aggregate _ signingRoot _ => signingRoot

def signature : SignatureSet bls → List UInt8
  | single _ _ signature => signature
  | aggregate _ _ signature => signature

def getAggregatedPubkey : SignatureSet bls → Except String bls.PublicKey
  | single pubkey _ _ => .ok pubkey
  | aggregate pubkeys _ _ => bls.aggregate pubkeys

end SignatureSet

structure SerializedSet where
  publicKey : List UInt8
  message : List UInt8
  signature : List UInt8

structure BlsWorkReq where
  validateSignature : Bool
  sets : List SerializedSet

/-! ## The worker -/

def MIN_SET_COUNT_TO_BATCH : Nat := 2

/-- `Array.every` with a callback that can throw. -/
def every {α : Type} (f : α → Except String Bool) : List α → Except String Bool
  | [] => .ok true
  | a :: l => do if ← f a then every f l else pure false

def withSignature (validateSignature : Bool) (set : bls.PublicKey × List UInt8 × List UInt8) :
    Except String (bls.PublicKey × List UInt8 × bls.Signature) := do
  let signature ← bls.signatureFromBytes set.2.2 validateSignature
  pure (set.1, set.2.1, signature)

def verifySignatureSetsMaybeBatch (sets : List (bls.PublicKey × List UInt8 × List UInt8)) (validateSignature : Bool) :
    Except String Bool := do
  if MIN_SET_COUNT_TO_BATCH ≤ sets.length then
    let parsed ← sets.mapM (withSignature bls validateSignature)
    pure (bls.verifyMultipleSignatures parsed)
  else if sets.length = 0 then throw "Empty signature set"
  else
    every (fun set => do
      let (publicKey, message, sig) ← withSignature bls validateSignature set
      pure (bls.verify sig publicKey message)) sets

abbrev WorkResult := Except String Bool

def deserializeSet (set : SerializedSet) : Except String (bls.PublicKey × List UInt8 × List UInt8) := do
  let publicKey ← bls.publicKeyFromBytes set.publicKey
  pure (publicKey, set.message, set.signature)

def doBlsWorkReq (workReq : BlsWorkReq) : WorkResult := do
  let sets ← workReq.sets.mapM (deserializeSet bls)
  verifySignatureSetsMaybeBatch bls sets workReq.validateSignature

def doManyBlsWorkReq (workReqArr : List BlsWorkReq) : List WorkResult := workReqArr.map (doBlsWorkReq bls)

/-! ## The pool -/

def MAX_SIGNATURE_SETS_PER_JOB : Nat := 128

def chunkifyMaximizeChunkSize {α : Type} (arr : List α) (minPerChunk : Nat) : List (List α) :=
  let chunkCount := arr.length / minPerChunk
  if chunkCount ≤ 1 then [arr]
  else
    -- Prefer less chunks of bigger size
    let perChunk := (arr.length + chunkCount - 1) / chunkCount
    (List.range' 0 ((arr.length + perChunk - 1) / perChunk) perChunk).map fun i => (arr.drop i).take perChunk

structure JobQueueItem where
  call : Nat
  chunk : Nat
  workReq : BlsWorkReq

def JobQueueItem.key (job : JobQueueItem) : Nat × Nat := (job.call, job.chunk)

inductive WorkerStatus
  | initializing
  | initializationError (error : String)
  | idle
  /-- With the work package it was sent. -/
  | running (jobs : List JobQueueItem)

namespace WorkerStatus

def isIdle : WorkerStatus → Bool
  | idle => true
  | _ => false

def isInitializationError : WorkerStatus → Bool
  | initializationError _ => true
  | _ => false

def package : WorkerStatus → List JobQueueItem
  | running jobs => jobs
  | _ => []

end WorkerStatus

/-- A call of `verifySignatureSets`: its arguments, the requests that were queued for it, and what it threw before all were. -/
structure Call (bls : Library) where
  sets : List (SignatureSet bls)
  validateSignature : Bool
  requests : List BlsWorkReq
  thrown : Option String

structure Pool (bls : Library) where
  workers : List WorkerStatus
  jobs : List JobQueueItem
  /-- The `runJob` timers that have not fired. -/
  runJobs : Nat
  calls : List (Call bls)
  settled : List ((Nat × Nat) × Except String Bool)

variable {bls}

namespace Pool

def start (poolSize : Nat) : Pool bls := ⟨List.replicate poolSize .initializing, [], 0, [], []⟩

/-- `job.resolve` with a result, `job.reject` with an error. -/
def settle (job : JobQueueItem) (result : Except String Bool) (pool : Pool bls) : Pool bls :=
  { pool with settled := pool.settled ++ [(job.key, result)] }

def initializationError (pool : Pool bls) : Option String :=
  match pool.workers with
  | .initializationError error :: _ => if pool.workers.all (·.isInitializationError) then some error else none
  | _ => none

def queueBlsWork (job : JobQueueItem) (pool : Pool bls) : Pool bls :=
  match pool.initializationError with
  | some error => pool.settle job (.error error)
  | none => { pool with jobs := pool.jobs ++ [job], runJobs := pool.runJobs + 1 }

end Pool

def serializeSet (set : SignatureSet bls) : Except String SerializedSet := do
  let publicKey ← set.getAggregatedPubkey
  pure { publicKey := bls.toBytes publicKey, message := set.signingRoot, signature := set.signature }

def toWorkReq (validateSignature : Bool) (sets : List (SignatureSet bls)) : Except String BlsWorkReq := do
  let sets ← sets.mapM serializeSet
  pure { validateSignature, sets }

def workRequests (validateSignature : Bool) : List (List (SignatureSet bls)) → List BlsWorkReq × Option String
  | [] => ([], none)
  | chunk :: chunks =>
    match toWorkReq validateSignature chunk with
    | .error error => ([], some error)
    | .ok workReq => (workReq :: (workRequests validateSignature chunks).1, (workRequests validateSignature chunks).2)

namespace Pool

def verifySignatureSets (sets : List (SignatureSet bls)) (validateSignature : Bool) (pool : Pool bls) : Pool bls :=
  let (requests, thrown) := workRequests validateSignature (chunkifyMaximizeChunkSize sets MAX_SIGNATURE_SETS_PER_JOB)
  let jobs := requests.zipIdx.map fun (workReq, chunk) => { call := pool.calls.length, chunk, workReq : JobQueueItem }
  let pool := jobs.foldl (fun pool job => queueBlsWork job pool) pool
  { pool with calls := pool.calls ++ [{ sets, validateSignature, requests, thrown }] }

section

variable (pool : Pool bls) (key : Nat × Nat)

def settlement : Option (Except String Bool) :=
  (pool.settled.find? fun entry => decide (entry.1 = key)).map (·.2)

def rejection : Option String :=
  match pool.settlement key with
  | some (.error error) => some error
  | _ => none

def resolution : Option Bool :=
  match pool.settlement key with
  | some (.ok isValid) => some isValid
  | _ => none

end

/-- What a call has returned: `Promise.all` rejects with the first rejection, and resolves when every promise has. -/
def outcome (pool : Pool bls) (c : Nat) (call : Call bls) : Option (Except String Bool) :=
  let promises := (List.range call.requests.length).map fun i => (c, i)
  match call.thrown with
  | some error => some (.error error)
  | none =>
    match pool.settled.findSome? fun entry => if entry.1 ∈ promises then pool.rejection entry.1 else none with
    | some error => some (.error error)
    | none =>
      (promises.mapM pool.resolution).map fun results =>
        if results.length = 0 then .error "Empty results array" else .ok (results.all (· == true))

/-- Grab pending work up to a max number of signatures. -/
def prepareWork : Nat → List JobQueueItem → List JobQueueItem × List JobQueueItem
  | _, [] => ([], [])
  | totalSigs, job :: jobs =>
    if totalSigs < MAX_SIGNATURE_SETS_PER_JOB then
      let (taken, rest) := prepareWork (totalSigs + job.workReq.sets.length) jobs
      (job :: taken, rest)
    else ([], job :: jobs)

def runJob (pool : Pool bls) : Pool bls :=
  match pool.workers.findIdx? (·.isIdle) with
  | none => pool
  | some worker =>
    let (jobs, rest) := prepareWork 0 pool.jobs
    if jobs.length = 0 then pool else { pool with workers := pool.workers.set worker (.running jobs), jobs := rest }

def unwrapResults (jobs : List JobQueueItem) : Nat → List WorkResult → Pool bls → Pool bls × Option String
  | _, [], pool => (pool, none)
  | i, jobResult :: result, pool =>
    match jobs[i]? with
    | none => (pool, some "TypeError")
    | some job => unwrapResults jobs (i + 1) result (pool.settle job jobResult)

def rejectAll (jobs : List JobQueueItem) (error : String) (pool : Pool bls) : Pool bls :=
  jobs.foldl (fun pool job => pool.settle job (.error error)) pool

/-- The rest of `runJob`, once the worker has replied or its communication has failed. -/
def onReply (worker : Nat) (jobs : List JobQueueItem) (reply : Except String (List WorkResult)) (pool : Pool bls) : Pool bls :=
  let pool :=
    match reply with
    | .error error => pool.rejectAll jobs error
    | .ok result =>
      match unwrapResults jobs 0 result pool with
      | (pool, some error) => pool.rejectAll jobs error
      | (pool, none) => pool
  { pool with workers := pool.workers.set worker .idle, runJobs := pool.runJobs + 1 }

end Pool

/-! ## The machine -/

inductive Label (bls : Library)
  | verify (sets : List (SignatureSet bls)) (validateSignature : Bool)
  | spawned (worker : Nat) (failure : Option String)
  | runJob
  | reply (worker : Nat) (failure : Option String)

/-- One callback of the main thread.  A call is given at least one set, and a worker that replies has done its whole request. -/
def next : Label bls → Pool bls → Option (Pool bls)
  | .verify sets validateSignature, pool => if sets.isEmpty then none else some (pool.verifySignatureSets sets validateSignature)
  | .spawned worker failure, pool =>
    match pool.workers[worker]?, failure with
    | some .initializing, none =>
      some { pool with workers := pool.workers.set worker .idle, runJobs := pool.runJobs + 1 }
    | some .initializing, some error => some { pool with workers := pool.workers.set worker (.initializationError error) }
    | _, _ => none
  | .runJob, pool => if pool.runJobs = 0 then none else some { pool.runJob with runJobs := pool.runJobs - 1 }
  | .reply worker failure, pool =>
    match pool.workers[worker]?, failure with
    | some (.running jobs), none => some (pool.onReply worker jobs (.ok (doManyBlsWorkReq bls (jobs.map (·.workReq)))))
    | some (.running jobs), some error => some (pool.onReply worker jobs (.error error))
    | _, _ => none

end Lodestar.Bls
