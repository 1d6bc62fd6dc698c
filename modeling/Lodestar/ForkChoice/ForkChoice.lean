import Lodestar.Params
import Lodestar.ForkChoice.ComputeDeltas
/-!
# ForkChoice — the store around the block tree

The class keeps the checkpoints and balances that the block tree is scored with, the votes, and the attestations that wait
for their slot.  Roots are kept in hex throughout, which `toHexString` and `fromHexString` translate one to one.

A method is a function to a pair: its outcome, and the fork choice as it then is, also when it throws.
-/
namespace Lodestar

open Lib

structure CheckpointHex where
  epoch : Nat
  root : HexRoot
deriving DecidableEq

structure ForkChoiceStore where
  currentSlot : Nat
  justifiedCheckpoint : CheckpointHex
  finalizedCheckpoint : CheckpointHex
  bestJustifiedCheckpoint : CheckpointHex
deriving DecidableEq

structure ForkBlock where
  slot : Nat
  parentRoot : HexRoot
  stateRoot : HexRoot
  root : HexRoot
deriving DecidableEq

structure ForkState where
  slot : Nat
  currentJustifiedCheckpoint : CheckpointHex
  finalizedCheckpoint : CheckpointHex
  blockRoots : Nat → HexRoot

structure IndexedAttestation where
  attestingIndices : List Nat
  slot : Nat
  beaconBlockRoot : HexRoot
  target : CheckpointHex
deriving DecidableEq

structure QueuedAttestation where
  slot : Nat
  attestingIndices : List Nat
  blockRoot : HexRoot
  targetEpoch : Nat
deriving DecidableEq

inductive InvalidBlock
  | UNKNOWN_PARENT (root : HexRoot)
  | FUTURE_SLOT (currentSlot blockSlot : Nat)
  | FINALIZED_SLOT (finalizedSlot blockSlot : Nat)
  | NOT_FINALIZED_DESCENDANT (finalizedRoot blockAncestor : HexRoot)
deriving DecidableEq

inductive InvalidAttestation
  | EMPTY_AGGREGATION_BITFIELD
  | UNKNOWN_HEAD_BLOCK (beaconBlockRoot : HexRoot)
  | BAD_TARGET_EPOCH (target slot : Nat)
  | UNKNOWN_TARGET_ROOT (root : HexRoot)
  | FUTURE_EPOCH (attestationEpoch currentEpoch : Nat)
  | PAST_EPOCH (attestationEpoch currentEpoch : Nat)
  | INVALID_TARGET (attestation localRoot : HexRoot)
  | ATTESTS_TO_FUTURE_BLOCK (block attestation : Nat)
  | FUTURE_SLOT (attestationSlot : Nat) (latestPermissibleSlot : Int)
deriving DecidableEq

/-- What the fork choice throws; `protoArray` is an error of the block tree passed on. -/
inductive ForkChoiceError
  | INVALID_ATTESTATION (err : InvalidAttestation)
  | INVALID_BLOCK (err : InvalidBlock)
  | MISSING_PROTO_ARRAY_BLOCK (root : HexRoot)
  | UNKNOWN_ANCESTOR (descendantRoot : HexRoot) (ancestorSlot : Nat)
  | INCONSISTENT_ON_TICK (previousSlot time : Nat)
  | ATTEMPT_TO_REVERT_JUSTIFICATION (store state : Nat)
  | UNABLE_TO_SET_JUSTIFIED_CHECKPOINT (error : String)
  | protoArray (err : ProtoArrayError)
deriving DecidableEq

structure ForkChoice where
  fcStore : ForkChoiceStore
  protoArray : ProtoArray
  votes : List (Option VoteTracker)
  justifiedBalances : List Nat
  bestJustifiedBalances : List Nat
  queuedAttestations : List QueuedAttestation
  synced : Bool
  head : Option ProtoBlock
deriving DecidableEq

namespace ForkChoice

def construct (fcStore : ForkChoiceStore) (protoArray : ProtoArray) (queuedAttestations : List QueuedAttestation)
    (justifiedBalances : List Nat) : ForkChoice where
  fcStore := fcStore
  protoArray := protoArray
  votes := []
  justifiedBalances := justifiedBalances
  bestJustifiedBalances := justifiedBalances
  queuedAttestations := queuedAttestations
  synced := false
  head := none

/-! ## The head -/

/-- The part of `updateHead` that is skipped while the fork choice is synced. -/
def sync (fc : ForkChoice) : Except ForkChoiceError Unit × ForkChoice :=
  if fc.synced then (.ok (), fc)
  else
    match computeDeltas fc.protoArray.indices fc.votes fc.justifiedBalances fc.justifiedBalances with
    | (.error e, votes) => (.error (.protoArray e), { fc with votes := votes })
    | (.ok deltas, votes) =>
      match fc.protoArray.applyScoreChanges deltas fc.fcStore.justifiedCheckpoint.epoch
          fc.fcStore.finalizedCheckpoint.epoch with
      | (.error e, protoArray) => (.error (.protoArray e), { fc with votes := votes, protoArray := protoArray })
      | (.ok (), protoArray) => (.ok (), { fc with votes := votes, protoArray := protoArray, synced := true })

def updateHead (fc : ForkChoice) : Except ForkChoiceError ProtoBlock × ForkChoice :=
  match fc.sync with
  | (.error e, fc) => (.error e, fc)
  | (.ok (), fc) =>
    match fc.protoArray.findHead fc.fcStore.justifiedCheckpoint.root with
    | .error e => (.error (.protoArray e), fc)
    | .ok headRoot =>
      match fc.protoArray.indices.get? headRoot with
      | none => (.error (.MISSING_PROTO_ARRAY_BLOCK headRoot), fc)
      | some headIndex =>
        match fc.protoArray.nodes[headIndex]? with
        | none => (.error (.MISSING_PROTO_ARRAY_BLOCK headRoot), fc)
        | some headNode => (.ok headNode.toProtoBlock, { fc with head := some headNode.toProtoBlock })

/-! ## Blocks -/

def getAncestor (fc : ForkChoice) (blockRoot : HexRoot) (ancestorSlot : Nat) : Except ForkChoiceError HexRoot :=
  match fc.protoArray.getBlock blockRoot with
  | none => .error (.MISSING_PROTO_ARRAY_BLOCK blockRoot)
  | some block =>
    if block.slot > ancestorSlot then
      match fc.protoArray.iterateNodes blockRoot with
      | .error e => .error (.protoArray e)
      | .ok nodes =>
        match nodes.find? (fun node => decide (node.slot ≤ ancestorSlot)) with
        | some node => .ok node.blockRoot
        | none => .error (.UNKNOWN_ANCESTOR blockRoot ancestorSlot)
    else .ok blockRoot

section

variable (fc : ForkChoice) (justifiedCheckpoint : CheckpointHex) (justifiedBalances : List Nat)

def updateJustified : ForkChoice :=
  { fc with
    synced := false
    justifiedBalances := justifiedBalances
    fcStore := { fc.fcStore with justifiedCheckpoint := justifiedCheckpoint } }

def updateBestJustified : ForkChoice :=
  { fc with
    bestJustifiedBalances := justifiedBalances
    fcStore := { fc.fcStore with bestJustifiedCheckpoint := justifiedCheckpoint } }

end

section Preset

variable (P : Preset)

section

variable (fc : ForkChoice)

def shouldUpdateJustifiedCheckpoint (state : ForkState) : Except ForkChoiceError Bool :=
  let justifiedSlot := computeStartSlotAtEpoch P fc.fcStore.justifiedCheckpoint.epoch
  if computeSlotsSinceEpochStart P fc.fcStore.currentSlot < P.SAFE_SLOTS_TO_UPDATE_JUSTIFIED then .ok true
  else if justifiedSlot ≥ state.slot then .error (.ATTEMPT_TO_REVERT_JUSTIFICATION justifiedSlot state.slot)
  else if computeEpochAtSlot P state.slot < computeEpochAtSlot P fc.fcStore.currentSlot then .ok true
  else match fc.getAncestor state.currentJustifiedCheckpoint.root justifiedSlot with
    | .error e => .error e
    | .ok justifiedAncestor => .ok (decide (justifiedAncestor = fc.fcStore.justifiedCheckpoint.root))

def checkBlock (block : ForkBlock) : Except ForkChoiceError Unit :=
  let finalizedSlot := computeStartSlotAtEpoch P fc.fcStore.finalizedCheckpoint.epoch
  if !fc.protoArray.hasBlock block.parentRoot then .error (.INVALID_BLOCK (.UNKNOWN_PARENT block.parentRoot))
  else if block.slot > fc.fcStore.currentSlot then
    .error (.INVALID_BLOCK (.FUTURE_SLOT fc.fcStore.currentSlot block.slot))
  else if block.slot ≤ finalizedSlot then .error (.INVALID_BLOCK (.FINALIZED_SLOT finalizedSlot block.slot))
  else match fc.getAncestor block.parentRoot finalizedSlot with
    | .error e => .error e
    | .ok blockAncestor =>
      if blockAncestor ≠ fc.fcStore.finalizedCheckpoint.root then
        .error (.INVALID_BLOCK (.NOT_FINALIZED_DESCENDANT fc.fcStore.finalizedCheckpoint.root blockAncestor))
      else .ok ()

def noBalances : ForkChoiceError := .UNABLE_TO_SET_JUSTIFIED_CHECKPOINT "No validator balances supplied"

def noteJustified (state : ForkState) (justifiedBalances : Option (List Nat)) : Except ForkChoiceError Bool × ForkChoice :=
  if state.currentJustifiedCheckpoint.epoch > fc.fcStore.justifiedCheckpoint.epoch then
    match justifiedBalances with
    | none => (.error noBalances, fc)
    | some justifiedBalances =>
      let fc := if state.currentJustifiedCheckpoint.epoch > fc.fcStore.bestJustifiedCheckpoint.epoch then
        fc.updateBestJustified state.currentJustifiedCheckpoint justifiedBalances else fc
      (fc.shouldUpdateJustifiedCheckpoint P state, fc)
  else (.ok false, fc)

/-- "Update finalized checkpoint"; `finalizedSlot` is the start slot of the finalized epoch before it. -/
def noteFinalized (state : ForkState) (finalizedSlot : Nat) (shouldUpdateJustified : Bool) :
    Except ForkChoiceError Bool × ForkChoice :=
  if state.finalizedCheckpoint.epoch > fc.fcStore.finalizedCheckpoint.epoch then
    let fc := { fc with fcStore := { fc.fcStore with finalizedCheckpoint := state.finalizedCheckpoint } }
    if fc.fcStore.justifiedCheckpoint ≠ state.currentJustifiedCheckpoint ∧
        state.currentJustifiedCheckpoint.epoch > fc.fcStore.justifiedCheckpoint.epoch then (.ok true, fc)
    else match fc.getAncestor fc.fcStore.justifiedCheckpoint.root finalizedSlot with
      | .error e => (.error e, fc)
      | .ok ancestor => (.ok (shouldUpdateJustified || decide (ancestor ≠ fc.fcStore.finalizedCheckpoint.root)), fc)
  else (.ok shouldUpdateJustified, fc)

section

variable (block : ForkBlock) (state : ForkState)

def toProtoBlock : ProtoBlock :=
  let targetSlot := computeStartSlotAtEpoch P (computeEpochAtSlot P block.slot)
  { slot := block.slot
    blockRoot := block.root
    parentRoot := block.parentRoot
    targetRoot := if block.slot = targetSlot then block.root else state.blockRoots (targetSlot % P.SLOTS_PER_HISTORICAL_ROOT)
    stateRoot := block.stateRoot
    justifiedEpoch := state.currentJustifiedCheckpoint.epoch
    finalizedEpoch := state.finalizedCheckpoint.epoch }

/-- The end of `onBlock`: the block joins the block tree. -/
def registerBlock : Except ForkChoiceError Unit × ForkChoice :=
  match fc.protoArray.onBlock (toProtoBlock P block state) with
  | (.error e, protoArray) => (.error (.protoArray e), { fc with protoArray := protoArray })
  | (.ok (), protoArray) => (.ok (), { fc with protoArray := protoArray })

def onBlock (justifiedBalances : Option (List Nat)) : Except ForkChoiceError Unit × ForkChoice :=
  match fc.checkBlock P block with
  | .error e => (.error e, fc)
  | .ok () =>
    let finalizedSlot := computeStartSlotAtEpoch P fc.fcStore.finalizedCheckpoint.epoch
    match fc.noteJustified P state justifiedBalances with
    | (.error e, fc) => (.error e, fc)
    | (.ok shouldUpdateJustified, fc) =>
      match fc.noteFinalized state finalizedSlot shouldUpdateJustified with
      | (.error e, fc) => (.error e, fc)
      | (.ok false, fc) => fc.registerBlock P block state
      | (.ok true, fc) =>
        match justifiedBalances with
        | none => (.error noBalances, fc)
        | some justifiedBalances =>
          (fc.updateJustified state.currentJustifiedCheckpoint justifiedBalances).registerBlock P block state

end

/-! ## Attestations -/

/-- An element of a JavaScript array set, the array growing by holes where it is too short. -/
def setVote (votes : List (Option VoteTracker)) (i : Nat) (vote : VoteTracker) : List (Option VoteTracker) :=
  if i < votes.length then votes.set i (some vote)
  else votes ++ List.replicate (i - votes.length) none ++ [some vote]

def addLatestMessage (validatorIndex nextEpoch : Nat) (nextRoot : HexRoot) : ForkChoice :=
  let fc := { fc with synced := false }
  match (fc.votes[validatorIndex]?).join with
  | none =>
    { fc with votes := setVote fc.votes validatorIndex ⟨HEX_ZERO_HASH, nextRoot, nextEpoch⟩ }
  | some vote =>
    if nextEpoch > vote.nextEpoch then
      { fc with votes := setVote fc.votes validatorIndex ⟨vote.currentRoot, nextRoot, nextEpoch⟩ }
    else fc

def addLatestMessages (validatorIndices : List Nat) (nextEpoch : Nat) (nextRoot : HexRoot) : ForkChoice :=
  validatorIndices.foldl (fun fc validatorIndex => fc.addLatestMessage validatorIndex nextEpoch nextRoot) fc

def validateOnAttestation (attestation : IndexedAttestation) : Except InvalidAttestation Unit :=
  let epochNow := computeEpochAtSlot P fc.fcStore.currentSlot
  let targetEpoch := attestation.target.epoch
  if attestation.attestingIndices.isEmpty then .error .EMPTY_AGGREGATION_BITFIELD
  else if targetEpoch > epochNow then .error (.FUTURE_EPOCH targetEpoch epochNow)
  else if targetEpoch + 1 < epochNow then .error (.PAST_EPOCH targetEpoch epochNow)
  else if targetEpoch ≠ computeEpochAtSlot P attestation.slot then .error (.BAD_TARGET_EPOCH targetEpoch attestation.slot)
  else if fc.fcStore.currentSlot < attestation.slot + 1 then
    .error (.FUTURE_SLOT attestation.slot ((fc.fcStore.currentSlot : Int) - 1))
  else if !fc.protoArray.hasBlock attestation.target.root then .error (.UNKNOWN_TARGET_ROOT attestation.target.root)
  else match fc.protoArray.getBlock attestation.beaconBlockRoot with
    | none => .error (.UNKNOWN_HEAD_BLOCK attestation.beaconBlockRoot)
    | some block =>
      let expectedTarget := if targetEpoch > computeEpochAtSlot P block.slot then attestation.beaconBlockRoot
        else block.targetRoot
      if expectedTarget ≠ attestation.target.root then .error (.INVALID_TARGET attestation.target.root expectedTarget)
      else if block.slot > attestation.slot then .error (.ATTESTS_TO_FUTURE_BLOCK block.slot attestation.slot)
      else .ok ()

def onAttestation (attestation : IndexedAttestation) : Except ForkChoiceError Unit × ForkChoice :=
  if attestation.beaconBlockRoot = HEX_ZERO_HASH then (.ok (), fc)
  else match fc.validateOnAttestation P attestation with
    | .error e => (.error (.INVALID_ATTESTATION e), fc)
    | .ok () =>
      if attestation.slot < fc.fcStore.currentSlot then
        (.ok (), fc.addLatestMessages attestation.attestingIndices attestation.target.epoch attestation.beaconBlockRoot)
      else
        (.ok (), { fc with queuedAttestations := fc.queuedAttestations ++
          [{ slot := attestation.slot, attestingIndices := attestation.attestingIndices,
             blockRoot := attestation.beaconBlockRoot, targetEpoch := attestation.target.epoch }] })

/-! ## Time -/

def processAttestationQueue : ForkChoice :=
  let eligible := fc.queuedAttestations.filter (fun a => decide (a.slot ≤ fc.fcStore.currentSlot))
  eligible.foldl (fun fc a => fc.addLatestMessages a.attestingIndices a.targetEpoch a.blockRoot)
    { fc with queuedAttestations := fc.queuedAttestations.filter (fun a => !decide (a.slot ≤ fc.fcStore.currentSlot)) }

def onTick (time : Nat) : Except ForkChoiceError Unit × ForkChoice :=
  if time > fc.fcStore.currentSlot + 1 then (.error (.INCONSISTENT_ON_TICK fc.fcStore.currentSlot time), fc)
  else
    let fc := { fc with fcStore := { fc.fcStore with currentSlot := time } }
    if computeSlotsSinceEpochStart P time ≠ 0 then (.ok (), fc)
    else if fc.fcStore.bestJustifiedCheckpoint.epoch > fc.fcStore.justifiedCheckpoint.epoch then
      (.ok (), fc.updateJustified fc.fcStore.bestJustifiedCheckpoint fc.bestJustifiedBalances)
    else (.ok (), fc)

end

/-- The loop of `updateTime`, the slots one at a time. -/
def tickTo (currentSlot : Nat) : Nat → ForkChoice → Except ForkChoiceError Unit × ForkChoice
  | 0, fc => (.ok (), fc)
  | n + 1, fc =>
    if fc.fcStore.currentSlot < currentSlot then
      match fc.onTick P (fc.fcStore.currentSlot + 1) with
      | (.error e, fc) => (.error e, fc)
      | (.ok (), fc) => tickTo currentSlot n fc
    else (.ok (), fc)

def updateTime (fc : ForkChoice) (currentSlot : Nat) : Except ForkChoiceError Unit × ForkChoice :=
  match tickTo P currentSlot (currentSlot - fc.fcStore.currentSlot) fc with
  | (.error e, fc) => (.error e, fc)
  | (.ok (), fc) => (.ok (), fc.processAttestationQueue)

end Preset

/-! ## Pruning -/

section

variable (fc : ForkChoice)

def prune (finalizedRoot : HexRoot) : Except ForkChoiceError (List ProtoBlock) × ForkChoice :=
  match fc.protoArray.maybePrune finalizedRoot with
  | (.error e, protoArray) => (.error (.protoArray e), { fc with protoArray := protoArray })
  | (.ok removed, protoArray) => (.ok (removed.map (·.toProtoBlock)), { fc with protoArray := protoArray })

/-! ## Queries -/

def isDescendantOfFinalized (blockRoot : HexRoot) : Except ProtoArrayError Bool :=
  fc.protoArray.isDescendant fc.fcStore.finalizedCheckpoint.root blockRoot

/-- A block that is known **and** a descendant of the finalized root. -/
def getBlock (fc : ForkChoice) (blockRoot : HexRoot) : Except ProtoArrayError (Option ProtoBlock) :=
  match fc.protoArray.getBlock blockRoot with
  | none => .ok none
  | some block => (fc.isDescendantOfFinalized blockRoot).map fun isDescendant => if isDescendant then some block else none

/-- `iterateBlockSummaries`, of whole blocks: those from a root backwards, the last node left out. -/
def iterateBlocks (blockRoot : HexRoot) : Except ProtoArrayError (List ProtoBlock) :=
  (fc.protoArray.iterateNodes blockRoot).map fun nodes =>
    let blocks := nodes.map (·.toProtoBlock)
    blocks.take (blocks.length - 1)

/-- `forwardIterateBlockSummaries`, of whole blocks. -/
def forwardIterateBlocks : List ProtoBlock := fc.protoArray.nodes.map (·.toProtoBlock)

end

/-! ## Runs -/

/-- A call of one of the methods. -/
inductive Op
  | onBlock (block : ForkBlock) (state : ForkState) (justifiedBalances : Option (List Nat))
  | onAttestation (attestation : IndexedAttestation)
  | updateTime (currentSlot : Nat)
  | prune (finalizedRoot : HexRoot)
  | updateHead

def Op.run (P : Preset) (fc : ForkChoice) : Op → ForkChoice
  | .onBlock block state justifiedBalances => (fc.onBlock P block state justifiedBalances).2
  | .onAttestation attestation => (fc.onAttestation P attestation).2
  | .updateTime currentSlot => (fc.updateTime P currentSlot).2
  | .prune finalizedRoot => (fc.prune finalizedRoot).2
  | .updateHead => fc.updateHead.2

def runOps (P : Preset) (fc : ForkChoice) (ops : List Op) : ForkChoice := ops.foldl (Op.run P) fc

def Along (P : Preset) (Q : ForkChoice → Op → Prop) : ForkChoice → List Op → Prop
  | _, [] => True
  | fc, op :: ops => Q fc op ∧ Along P Q (op.run P fc) ops

theorem Along.keeps {P : Preset} {Q : ForkChoice → Op → Prop} {I : ForkChoice → Prop}
    (hstep : ∀ {fc : ForkChoice} {op : Op}, I fc → Q fc op → I (op.run P fc)) :
    ∀ {ops : List Op} {fc : ForkChoice}, Along P Q fc ops → I fc → I (runOps P fc ops)
  | [], _, _, h => h
  | _ :: _, _, ⟨hop, hops⟩, h => (keeps hstep hops (hstep h hop) :)

end ForkChoice

end Lodestar
