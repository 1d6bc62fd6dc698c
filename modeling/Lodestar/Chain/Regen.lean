import Lodestar.Chain.StateCache
import Lodestar.Chain.ProcessBlocks
import Lodestar.Util.JobQueue
/-!
# Regen — states that the fork choice has already seen

A state is read from a cache, or its blocks are replayed from the nearest ancestor that one of the caches has a state of.  Both
caches and the fork choice are read before the first wait; later only the database is asked, for the blocks that were picked.
-/
namespace Lodestar

open Lib

/-- What a `RegenError` carries.  A block of the database always has its tree-backed form, so `BLOCK_NOT_IN_DB` is left out. -/
inductive RegenErrorCode
  | BLOCK_NOT_IN_FORKCHOICE (blockRoot : HexRoot)
  | STATE_NOT_IN_FORKCHOICE (stateRoot : HexRoot)
  | SLOT_BEFORE_BLOCK_SLOT (slot blockSlot : Nat)
  | NO_SEED_STATE
  | TOO_MANY_BLOCK_PROCESSED (stateRoot : HexRoot)
  | STATE_TRANSITION_ERROR (error : Thrown)
deriving DecidableEq

inductive RegenThrown
  | regenError (code : RegenErrorCode)
  | queueError (code : QueueErrorCode)
  | protoArray (err : ProtoArrayError)
  | thrown (err : Thrown)
deriving DecidableEq

section Slots

variable {State SignatureSet : Type} (P : Preset) (m : Modules State SignatureSet)

def processSlotsByCheckpoint (preState : State) (slot : Nat) (w : World) : Except Thrown State × World :=
  let preEpoch := computeEpochAtSlot P (m.view preState).slot
  match processSlotsToNearestCheckpoint P m (computeEpochAtSlot P slot - preEpoch) (computeStartSlotAtEpoch P (preEpoch + 1))
      preState w with
  | (.error e, w) => (.error e, w)
  | (.ok postState, w) =>
    if (m.view postState).slot < slot then (m.processSlots postState slot, w) else (.ok postState, w)

def computeEpochAtSlotInt (slot : Int) : Int := slot / P.SLOTS_PER_EPOCH

end Slots

structure Moment (State : Type) where
  caches : StateCaches State
  world : World

/-- What a regenerator asks over time: the state transition, `db.block.get`, and what other handlers do while it waits. -/
structure StateRegenerator (State SignatureSet : Type) where
  modules : Modules State SignatureSet
  getBlock : World → HexRoot → Option SignedBeaconBlock
  meanwhile : World → World

namespace StateRegenerator

variable {State SignatureSet : Type} (P : Preset) (regen : StateRegenerator State SignatureSet)

def MAX_EPOCH_TO_PROCESS : Nat := 5

def findSeed (caches : StateCaches State) : ProtoBlock → List ProtoBlock → List ProtoBlock → Option (State × List ProtoBlock)
  | _, _, [] => none
  | last, later, b :: ancestors =>
    match caches.stateCache.get b.stateRoot with
    | some state => some (state, last :: later)
    | none =>
      match caches.checkpointStateCache.getLatest b.blockRoot (computeEpochAtSlotInt P ((last.slot : Int) - 1)) with
      | some state => some (state, last :: later)
      | none => findSeed caches b (last :: later) ancestors

def replayJob : IProcessBlock where
  reprocess := true
  prefinalized := true
  validProposerSignature := true
  validSignatures := true

def replay : List ProtoBlock → State → World → Except RegenThrown State × World
  | [], state, w => (.ok state, w)
  | b :: blocks, state, w =>
    let w := regen.meanwhile w
    match regen.getBlock w b.blockRoot with
    | none => (.error (.thrown (.error (.message s!"No block found for {b.blockRoot}"))), w)
    | some block =>
      match runStateTransition P regen.modules replayJob block state w with
      | (.error e, w) => (.error (.regenError (.STATE_TRANSITION_ERROR e)), w)
      -- this avoids keeping our node busy processing blocks
      | (.ok state, w) => replay blocks state (regen.meanwhile w)

section

variable (now : Moment State)

def getState (stateRoot : HexRoot) : Except RegenThrown State × World :=
  let w := now.world
  -- Trivial case, state at stateRoot is already cached
  match now.caches.stateCache.get stateRoot with
  | some cachedState => (.ok cachedState, w)
  | none =>
    match w.forkChoice.forwardIterateBlocks.find? fun summary => summary.stateRoot = stateRoot with
    | none => (.error (.regenError (.STATE_NOT_IN_FORKCHOICE stateRoot)), w)
    | some block =>
      match w.forkChoice.iterateBlocks block.parentRoot with
      | .error e => (.error (.protoArray e), w)
      | .ok ancestors =>
        match findSeed P now.caches block [] ancestors with
        | none => (.error (.regenError .NO_SEED_STATE), w)
        | some (state, blocksToReplay) =>
          if blocksToReplay.length > MAX_EPOCH_TO_PROCESS * P.SLOTS_PER_EPOCH then
            (.error (.regenError (.TOO_MANY_BLOCK_PROCESSED stateRoot)), w)
          else replay P regen blocksToReplay state w

def passOn : Except Thrown State × World → Except RegenThrown State × World
  | (.error e, w) => (.error (.thrown e), w)
  | (.ok state, w) => (.ok state, w)

def getBlockSlotState (blockRoot : HexRoot) (slot : Nat) : Except RegenThrown State × World :=
  let w := now.world
  match w.forkChoice.getBlock blockRoot with
  | .error e => (.error (.protoArray e), w)
  | .ok none => (.error (.regenError (.BLOCK_NOT_IN_FORKCHOICE blockRoot)), w)
  | .ok (some block) =>
    if slot < block.slot then (.error (.regenError (.SLOT_BEFORE_BLOCK_SLOT slot block.slot)), w)
    else
      match now.caches.checkpointStateCache.getLatest blockRoot (computeEpochAtSlot P slot) with
      -- it either is in requested epoch or needs to have empty slots processed until the requested epoch
      | some latestCheckpointState => passOn (processSlotsByCheckpoint P regen.modules latestCheckpointState slot w)
      | none =>
        match getState P regen now block.stateRoot with
        | (.error e, w) => (.error e, w)
        | (.ok blockState, w) => passOn (processSlotsByCheckpoint P regen.modules blockState slot w)

def getCheckpointState (cp : CheckpointHex) : Except RegenThrown State × World :=
  getBlockSlotState P regen now cp.root (computeStartSlotAtEpoch P cp.epoch)

def getPreState (block : ForkBlock) : Except RegenThrown State × World :=
  let w := now.world
  match w.forkChoice.getBlock block.parentRoot with
  | .error e => (.error (.protoArray e), w)
  | .ok none => (.error (.regenError (.BLOCK_NOT_IN_FORKCHOICE block.parentRoot)), w)
  | .ok (some parentBlock) =>
    let parentEpoch := computeEpochAtSlot P parentBlock.slot
    let blockEpoch := computeEpochAtSlot P block.slot
    -- This may save us at least one epoch transition
    if parentEpoch < blockEpoch then getCheckpointState P regen now ⟨blockEpoch, block.parentRoot⟩
    else getState P regen now parentBlock.stateRoot

end

end StateRegenerator

/-! ## The queue in front -/

namespace QueuedStateRegenerator

variable {State SignatureSet : Type} (P : Preset) (regen : StateRegenerator State SignatureSet)

/-- `jobQueue.push`: the job finds what there is when its turn comes, or the queue is full or aborted. -/
def push (now : Moment State) (turn : Except QueueErrorCode (Moment State))
    (job : Moment State → Except RegenThrown State × World) : Except RegenThrown State × World :=
  match turn with
  | .error code => (.error (.queueError code), now.world)
  | .ok later => job later

def getPreState (now : Moment State) (turn : Except QueueErrorCode (Moment State)) (block : ForkBlock) :
    Except RegenThrown State × World :=
  let w := now.world
  -- First attempt to fetch the state from caches before queueing
  match w.forkChoice.getBlock block.parentRoot with
  | .error e => (.error (.protoArray e), w)
  | .ok none => (.error (.regenError (.BLOCK_NOT_IN_FORKCHOICE block.parentRoot)), w)
  | .ok (some parentBlock) =>
    let parentEpoch := computeEpochAtSlot P parentBlock.slot
    let blockEpoch := computeEpochAtSlot P block.slot
    let checkpointState :=
      if parentEpoch < blockEpoch then now.caches.checkpointStateCache.getLatest block.parentRoot blockEpoch else none
    match checkpointState with
    | some checkpointState => (.ok checkpointState, w)
    | none =>
      match now.caches.stateCache.get parentBlock.stateRoot with
      | some state => (.ok state, w)
      -- The state is not immediately available in the caches, enqueue the job
      | none => push now turn fun later => regen.getPreState P later block

def getCheckpointState (now : Moment State) (turn : Except QueueErrorCode (Moment State)) (cp : CheckpointHex) :
    Except RegenThrown State × World :=
  match now.caches.checkpointStateCache.get cp with
  | some checkpointState => (.ok checkpointState, now.world)
  | none => push now turn fun later => regen.getCheckpointState P later cp

def getBlockSlotState (now : Moment State) (turn : Except QueueErrorCode (Moment State)) (blockRoot : HexRoot) (slot : Nat) :
    Except RegenThrown State × World :=
  push now turn fun later => regen.getBlockSlotState P later blockRoot slot

def getState (now : Moment State) (turn : Except QueueErrorCode (Moment State)) (stateRoot : HexRoot) :
    Except RegenThrown State × World :=
  match now.caches.stateCache.get stateRoot with
  | some state => (.ok state, now.world)
  | none => push now turn fun later => regen.getState P later stateRoot

end QueuedStateRegenerator

end Lodestar
