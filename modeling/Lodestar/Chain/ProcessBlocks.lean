import Lodestar.Types
import Lodestar.ForkChoice.ForkChoice
/-!
# ProcessBlocks — blocks and chain segments on their way into the chain

Blocks of one epoch run through the state transition one after the other; each is handed to the fork choice, announced and
stored at once, and the signatures of all of them are verified together at the end, unless batch verification is off.

The state transition, the caches and the signature verification answer as `Modules` says, in any way at all.  Where the
source awaits, other handlers run: the fork choice takes the calls `meanwhile` names, which register no block, for the
processor runs one job at a time.
-/
namespace Lodestar

open Lib

structure SignedBeaconBlock where
  message : ForkBlock
  signature : BLSSignature
deriving DecidableEq

structure IProcessBlock where
  reprocess : Bool
  prefinalized : Bool
  validProposerSignature : Bool
  validSignatures : Bool
deriving DecidableEq

inductive ChainError
  | forkChoice (err : ForkChoiceError)
  | message (text : String)
deriving DecidableEq

inductive BlockErrorCode
  | PRESTATE_MISSING
  | PARENT_UNKNOWN (parentRoot : HexRoot)
  | INVALID_SIGNATURE
  | BEACON_CHAIN_ERROR (error : ChainError)
deriving DecidableEq

/-- What can be thrown on the way: a `RegenError`, a `BlockError`, or another error. -/
inductive Thrown
  | regenError
  | blockError (code : BlockErrorCode)
  | error (err : ChainError)
deriving DecidableEq

/-- What the processing of blocks does to the world, in order: the events it emits (a checkpoint comes with its state, of
which the slot is kept), the blocks that `forkChoice.onBlock` took and that the handler of the block event stored, and the
blocks whose signature sets were found valid. -/
inductive Effect
  | checkpoint (checkpoint : CheckpointHex) (stateSlot : Nat)
  | verified (block : SignedBeaconBlock)
  | registered (block : SignedBeaconBlock)
  | block (block : SignedBeaconBlock)
  | persisted (block : SignedBeaconBlock)
  | forkChoiceHead (head : ProtoBlock)
deriving DecidableEq

inductive OtherCall
  | onAttestation (attestation : IndexedAttestation)
  | updateTime (currentSlot : Nat)
  | prune (finalizedRoot : HexRoot)
  | updateHead

def OtherCall.op : OtherCall → ForkChoice.Op
  | .onAttestation attestation => .onAttestation attestation
  | .updateTime currentSlot => .updateTime currentSlot
  | .prune finalizedRoot => .prune finalizedRoot
  | .updateHead => .updateHead

structure World where
  forkChoice : ForkChoice
  effects : List Effect

namespace World

def emit (w : World) (effect : Effect) : World := { w with effects := w.effects ++ [effect] }

end World

/-- The modules the processing asks, with their answers; what depends on the past is a function of the effects so far. -/
structure Modules (State SignatureSet : Type) where
  disableBlsBatchVerify : Bool
  getPreState : ForkBlock → Except Thrown State
  view : State → ForkState
  currentShufflingEpoch : State → Nat
  latestBlockRoot : State → HexRoot
  processSlots : State → Nat → Except Thrown State
  /-- By `verifyProposer` and `verifySignatures`. -/
  stateTransition : State → SignedBeaconBlock → Bool → Bool → Except Thrown State
  /-- `checkpointStateCache.get`, the effective balances of the state it finds. -/
  justifiedBalances : List Effect → CheckpointHex → Option (List Nat)
  getAllBlockSignatureSets : State → SignedBeaconBlock → Except Thrown (List SignatureSet)
  getAllBlockSignatureSetsExceptProposer : State → SignedBeaconBlock → Except Thrown (List SignatureSet)
  verifySignatureSets : List SignatureSet → Except Thrown Bool
  meanwhile : List Effect → List OtherCall

section Process

variable {State SignatureSet : Type} (P : Preset) (m : Modules State SignatureSet)

def pause (w : World) : World :=
  { w with forkChoice := ForkChoice.runOps P w.forkChoice ((m.meanwhile w.effects).map OtherCall.op) }

def emitCheckpointEvent (state : State) (w : World) : Except Thrown Unit × World :=
  let slot := (m.view state).slot
  if slot % P.SLOTS_PER_EPOCH ≠ 0 then
    (.error (.error (.message "Checkpoint state slot must be first in an epoch")), w)
  else (.ok (), w.emit (.checkpoint ⟨computeEpochAtSlot P slot, m.latestBlockRoot state⟩ slot))

def processSlotsToNearestCheckpoint : Nat → Nat → State → World → Except Thrown State × World
  | 0, _, state, w => (.ok state, w)
  | n + 1, nextEpochSlot, state, w =>
    match m.processSlots state nextEpochSlot with
    | .error e => (.error e, w)
    | .ok postState =>
      match emitCheckpointEvent P m postState w with
      | (.error e, w) => (.error e, w)
      | (.ok (), w) => processSlotsToNearestCheckpoint n (nextEpochSlot + P.SLOTS_PER_EPOCH) postState (pause P m w)

def balancesFor (postState : State) (w : World) : Except Thrown (List Nat) :=
  let checkpoint := (m.view postState).currentJustifiedCheckpoint
  if checkpoint.epoch > w.forkChoice.fcStore.justifiedCheckpoint.epoch then
    match m.justifiedBalances w.effects checkpoint with
    | none => .error (.error (.message s!"State not available for justified checkpoint {checkpoint.epoch} {checkpoint.root}"))
    | some balances => .ok balances
  else .ok []

def cacheCheckpointStates (block : SignedBeaconBlock) (preState : State) (w : World) : Except Thrown State × World :=
  let postSlot := block.message.slot
  let preEpoch := m.currentShufflingEpoch preState
  let postEpoch := computeEpochAtSlot P postSlot
  let passCheckpoint := preEpoch < postEpoch ∧ postSlot ≠ computeStartSlotAtEpoch P postEpoch
  let firstEpoch := computeEpochAtSlot P (m.view preState).slot + 1
  if passCheckpoint then
    processSlotsToNearestCheckpoint P m (postEpoch + 1 - firstEpoch) (computeStartSlotAtEpoch P firstEpoch) preState w
  else (.ok preState, w)

def registerBlock (block : SignedBeaconBlock) (postState : State) (w : World) : Except Thrown State × World :=
  match balancesFor m postState w with
  | .error e => (.error e, w)
  | .ok justifiedBalances =>
    match w.forkChoice.onBlock P block.message (m.view postState) (some justifiedBalances) with
    | (.error e, forkChoice) => (.error (.error (.forkChoice e)), { w with forkChoice := forkChoice })
    | (.ok (), forkChoice) => (.ok postState, { w with forkChoice := forkChoice }.emit (.registered block))

section

variable (job : IProcessBlock)

section

variable (block : SignedBeaconBlock) (preState : State) (w : World)

/-- The first half of `runStateTransition`, up to `forkChoice.onBlock`. -/
def transitionBlock : Except Thrown State × World :=
  match cacheCheckpointStates P m block preState w with
  | (.error e, w) => (.error e, w)
  | (.ok state, w) =>
    match m.stateTransition state block (!job.validSignatures && !job.validProposerSignature) (!job.validSignatures) with
    | .error e => (.error e, w)
    | .ok postState => registerBlock P m block postState (if job.validSignatures then w else w.emit (.verified block))

/-- The second half of `runStateTransition`: the events, and the head. -/
def announceBlock (block : SignedBeaconBlock) (postState : State) (w : World) : Except Thrown Unit × World :=
  -- `forkChoice.onBlock` does not touch the cached head
  let oldHead := w.forkChoice.head
  if job.reprocess then (.ok (), w)
  else
    match if block.message.slot % P.SLOTS_PER_EPOCH = 0 then emitCheckpointEvent P m postState w else (.ok (), w) with
    | (.error e, w) => (.error e, w)
    | (.ok (), w) =>
      -- the handler of the event stores the block
      let w := (w.emit (.block block)).emit (.persisted block)
      match w.forkChoice.updateHead with
      | (.error e, forkChoice) => (.error (.error (.forkChoice e)), { w with forkChoice := forkChoice })
      | (.ok head, forkChoice) =>
        let w := { w with forkChoice := forkChoice }
        if oldHead.map (·.blockRoot) ≠ some head.blockRoot then (.ok (), w.emit (.forkChoiceHead head)) else (.ok (), w)

def runStateTransition : Except Thrown State × World :=
  match transitionBlock P m job block preState w with
  | (.error e, w') => (.error e, w')
  | (.ok postState, w') =>
    match announceBlock P m job block postState w' with
    | (.error e, w'') => (.error e, w'')
    | (.ok (), w'') => (.ok postState, w'')

end

/-- The loop of `processBlocksInEpoch`: the last state and the number of blocks it got through. -/
def importBlocks (job : IProcessBlock) : List SignedBeaconBlock → State → Nat → World →
    Except Thrown State × Nat × World
  | [], preState, n, w => (.ok preState, n, w)
  | block :: blocks, preState, n, w =>
    match runStateTransition P m job block preState w with
    | (.error e, w) => (.error e, n, w)
    | (.ok postState, w) => importBlocks job blocks postState (n + 1) (pause P m w)

def collectSignatureSets (job : IProcessBlock) (state : State) : List SignedBeaconBlock →
    Except Thrown (List SignatureSet)
  | [] => .ok []
  | block :: blocks => do
    let sets ← if job.validProposerSignature then m.getAllBlockSignatureSetsExceptProposer state block
      else m.getAllBlockSignatureSets state block
    let rest ← collectSignatureSets job state blocks
    .ok (sets ++ rest)

def verifyBatch (state : State) (blocks : List SignedBeaconBlock) (w : World) : Except Thrown Unit × World :=
  match collectSignatureSets m job state blocks with
  | .error e => (.error e, w)
  | .ok signatureSets =>
    let verified := { w with effects := w.effects ++ blocks.map .verified }
    if signatureSets.length > 0 then
      match m.verifySignatureSets signatureSets with
      | .error e => (.error e, pause P m w)
      | .ok false => (.error (.blockError .INVALID_SIGNATURE), pause P m w)
      | .ok true => (.ok (), pause P m verified)
    else (.ok (), verified)

def jobInBatch : IProcessBlock :=
  { job with
    validProposerSignature := !m.disableBlsBatchVerify || job.validProposerSignature
    validSignatures := !m.disableBlsBatchVerify || job.validSignatures }

def Thrown.toBlockError : Thrown → BlockErrorCode
  | .regenError => .PRESTATE_MISSING
  | .blockError code => code
  | .error err => .BEACON_CHAIN_ERROR err

/-- The outcome, and the number of blocks that `onProcessBlock` counted. -/
def processBlocksInEpoch (blocksInEpoch : List SignedBeaconBlock) (w : World) : Except BlockErrorCode Unit × Nat × World :=
  match blocksInEpoch with
  | [] => (.ok (), 0, w)
  | firstBlock :: _ =>
    match m.getPreState firstBlock.message with
    | .error e => (.error e.toBlockError, 0, pause P m w)
    | .ok preState =>
      match importBlocks P m (jobInBatch m job) blocksInEpoch preState 0 (pause P m w) with
      | (.error e, n, w) => (.error e.toBlockError, n, w)
      | (.ok state, n, w) =>
        if !m.disableBlsBatchVerify && !job.validSignatures then
          match verifyBatch P m job state blocksInEpoch w with
          | (.error e, w) => (.error e.toBlockError, n, w)
          | (.ok (), w) => (.ok (), n, w)
        else (.ok (), n, w)

def processBlock (block : SignedBeaconBlock) (w : World) : Except BlockErrorCode Unit × World :=
  if !w.forkChoice.protoArray.hasBlock block.message.parentRoot then
    (.error (.PARENT_UNKNOWN block.message.parentRoot), w)
  else
    let (r, _, w) := processBlocksInEpoch P m job [block] w
    (r, w)

/-! ## Chain segments -/

def addToGroup (block : SignedBeaconBlock) (groups : OrderedMap Nat (List SignedBeaconBlock)) :
    OrderedMap Nat (List SignedBeaconBlock) :=
  let epoch := computeEpochAtSlot P block.message.slot
  groups.set epoch ((groups.get? epoch).getD [] ++ [block])

def groupBlocksByEpoch (blocks : List SignedBeaconBlock) : List (List SignedBeaconBlock) :=
  (blocks.foldl (fun groups block => addToGroup P block groups) .empty).entries.map (·.2)

structure ChainSegmentError where
  code : BlockErrorCode
  importedBlocks : Nat
deriving DecidableEq

def processGroups (job : IProcessBlock) : List (List SignedBeaconBlock) → World → Except ChainSegmentError Unit × World
  | [], w => (.ok (), w)
  | blocksInEpoch :: groups, w =>
    match processBlocksInEpoch P m job blocksInEpoch w with
    | (.error code, importedBlocks, w) => (.error ⟨code, importedBlocks⟩, w)
    | (.ok (), _, w) => processGroups job groups w

def processChainSegment (blocks : List SignedBeaconBlock) (w : World) : Except ChainSegmentError Unit × World :=
  match blocks.head? with
  | some firstSegBlock =>
    if !w.forkChoice.protoArray.hasBlock firstSegBlock.message.parentRoot then
      (.error ⟨.PARENT_UNKNOWN firstSegBlock.message.parentRoot, 0⟩, w)
    else processGroups P m job (groupBlocksByEpoch P blocks) w
  | none => (.ok (), w)

end

end Process

end Lodestar
