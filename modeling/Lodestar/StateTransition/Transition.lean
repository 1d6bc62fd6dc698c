import Lodestar.StateTransition.Block
import Lodestar.StateTransition.Epoch
/-!
# Transition — slots, epochs and blocks over the cached state

`processSlots` dials a state to a slot, through an epoch transition at the end of every epoch and the upgrade at the epoch of
the altair fork; `stateTransition` goes on with a block.  Each works on a copy, so an error leaves its input as it was.
-/
namespace Lodestar.StateTransition

open Lib

variable {P : Preset} (env : Env P) (cfg : ChainConfig)

/-! ## The upgrade to altair -/

def upgradeTreeBackedState (state : BeaconState P) : Except String (BeaconState P) := do
  let validatorCount := state.validators.length
  let epoch := getCurrentEpoch state
  let syncCommittee ← getNextSyncCommittee env state
  pure { state with
    fork := { previousVersion := state.fork.currentVersion, currentVersion := cfg.ALTAIR_FORK_VERSION, epoch }
    -- the places of the pending attestations are those of the participation lists
    previousEpochAttestations := []
    currentEpochAttestations := []
    previousEpochParticipation := List.replicate validatorCount emptyParticipationStatus
    currentEpochParticipation := List.replicate validatorCount emptyParticipationStatus
    inactivityScores := List.replicate validatorCount 0
    currentSyncCommittee := syncCommittee
    nextSyncCommittee := syncCommittee }

section

variable (state : CachedBeaconState P)

def translateParticipation (pendingAttestations : List PendingAttestation) : Except String (CachedBeaconState P) := do
  let participation ← pendingAttestations.foldlM (fun participation attestation => do
    let flags ← getAttestationParticipationStatus state attestation.data attestation.inclusionDelay
    let attestingIndices ← state.epochCtx.getAttestingIndices P attestation.data attestation.aggregationBits
    attestingIndices.foldlM (fun participation index => modifyAt typeError participation index (·.or flags)) participation)
    state.previousEpochParticipation
  pure { state with previousEpochParticipation := participation }

def upgradeState : Except String (CachedBeaconState P) := do
  let pendingAttestations := state.previousEpochAttestations
  let postTreeBackedState ← upgradeTreeBackedState env cfg state.toBeaconState
  let postState ← createCachedBeaconState env cfg postTreeBackedState noOpts
  translateParticipation postState pendingAttestations

/-! ## Slots -/

def processSlot : CachedBeaconState P :=
  let place := state.slot % P.SLOTS_PER_HISTORICAL_ROOT
  let place_lt : place < P.SLOTS_PER_HISTORICAL_ROOT := Nat.mod_lt _ P.historicalRoot_pos
  let previousStateRoot := env.stateRoot (getForkName P cfg state.slot) state.toBeaconState
  let latestBlockHeader := if state.latestBlockHeader.stateRoot = zeroRoot
    then { state.latestBlockHeader with stateRoot := previousStateRoot } else state.latestBlockHeader
  let previousBlockRoot := env.headerRoot latestBlockHeader
  { state with
    stateRoots := state.stateRoots.set place previousStateRoot place_lt
    latestBlockHeader := latestBlockHeader
    blockRoots := state.blockRoots.set place previousBlockRoot place_lt }

def crossEpoch : Except String (CachedBeaconState P) := do
  -- At fork boundary we don't want to process "next fork" epoch before upgrading state
  let fork := getForkName P cfg state.slot
  let state ← processEpochByFork env cfg fork state
  let state := { state with slot := state.slot + 1 }
  let epochCtx ← rotateEpochs env cfg state.epochCtx state.toBeaconState
  let state := { state with epochCtx }
  let epoch := computeEpochAtSlot P state.slot
  if epoch = GENESIS_EPOCH then pure state
  else if (epoch : ℕ∞) = cfg.ALTAIR_FORK_EPOCH then upgradeState env cfg state
  else pure state

def advanceSlot : Except String (CachedBeaconState P) :=
  let state := processSlot env cfg state
  if (state.slot + 1) % P.SLOTS_PER_EPOCH = 0 then crossEpoch env cfg state
  else pure { state with slot := state.slot + 1 }

end

def advanceSlots : Nat → CachedBeaconState P → Except String (CachedBeaconState P)
  | 0, state => pure state
  | slots + 1, state => do
    let state ← advanceSlot env cfg state
    advanceSlots slots state

section

variable (state : CachedBeaconState P)

/-- Like `process_slots` from the spec but additionally handles fork upgrades. -/
def processSlots (slot : Nat) : Except String (CachedBeaconState P) := do
  check (state.slot ≤ slot) s!"Too old slot {slot}, current={state.slot}"
  -- every turn ends one slot later
  advanceSlots env cfg (slot - state.slot) state

/-! ## Blocks -/

def processBlock (block : BeaconBlock) (verifySignatures : Bool) : Except String (CachedBeaconState P) :=
  processBlockByFork env cfg (getForkName P cfg block.slot) state block verifySignatures

structure TransitionOptions where
  verifyStateRoot : Bool
  verifyProposer : Bool
  verifySignatures : Bool

def stateTransition (signedBlock : SignedBeaconBlock) (options : TransitionOptions) : Except String (CachedBeaconState P) := do
  let block := signedBlock.message
  -- Process slots (including those with no blocks) since block. Includes state upgrades
  let postState ← processSlots env cfg state block.slot
  let valid ← (if options.verifyProposer then env.verifyProposerSignature postState signedBlock else pure true)
  check valid "Invalid block signature"
  let postState ← processBlock env cfg postState block options.verifySignatures
  check (!options.verifyStateRoot ||
    decide (block.stateRoot = env.stateRoot (getForkName P cfg postState.slot) postState.toBeaconState)) "Invalid state root"
  pure postState

end

/-! ## Runs -/

/-- What a caller does with a cached state.  The maps of public keys are shared by all copies of a state, so the transition of
another copy, also one that throws, may write them in between. -/
inductive Op
  | slots (slot : Nat)
  | block (block : BeaconBlock) (verifySignatures : Bool)
  | transition (signedBlock : SignedBeaconBlock) (options : TransitionOptions)
  | sharedPubkeys (pubkey2index : OrderedMap BLSPubkey Nat) (index2pubkey : List (Option BLSPubkey))

def runOp (state : CachedBeaconState P) : Op → Except String (CachedBeaconState P)
  | .slots slot => processSlots env cfg state slot
  | .block block verifySignatures => processBlock env cfg state block verifySignatures
  | .transition signedBlock options => stateTransition env cfg state signedBlock options
  | .sharedPubkeys pubkey2index index2pubkey =>
    pure { state with epochCtx := { state.epochCtx with pubkey2index, index2pubkey } }

def runOps (state : CachedBeaconState P) (ops : List Op) : Except String (CachedBeaconState P) :=
  ops.foldlM (runOp env cfg) state

end Lodestar.StateTransition
