import Lodestar.StateTransition.State
import Lodestar.Lib.Fallible
/-!
# Util — the small functions the state transition is made of

Bytes, epochs of a state, validators, balances, block roots, finality and aggregation bits, each as its file under `util`
computes it.
-/
namespace Lodestar.StateTransition

open Lib

/-! ## Numbers and bytes -/

def intToBytes (value length : Nat) : List UInt8 := (List.range length).map fun k => UInt8.ofNat (value / 256 ^ k)

def bytesToBigInt : List UInt8 → Nat
  | [] => 0
  | byte :: bytes => byte.toNat + 256 * bytesToBigInt bytes

def bigIntSqrtLoop (n x y : Nat) : Nat := if y < x then bigIntSqrtLoop n y ((y + n / y) / 2) else x
termination_by x

/-- The largest `k` with `k ^ 2 ≤ n`, by Newton's iteration from above; `intSqrt` is the same loop over `number`. -/
def bigIntSqrt (n : Nat) : Nat := bigIntSqrtLoop n n ((n + 1) / 2)

/-- Reading a field of an entry that is not there. -/
def typeError : String := "TypeError"

/-! ## Constants of the specification -/

def DOMAIN_BEACON_PROPOSER : List UInt8 := [0, 0, 0, 0]
def DOMAIN_BEACON_ATTESTER : List UInt8 := [1, 0, 0, 0]
def DOMAIN_SYNC_COMMITTEE : List UInt8 := [7, 0, 0, 0]
def BASE_REWARDS_PER_EPOCH : Nat := 4
def DEPOSIT_CONTRACT_TREE_DEPTH : Nat := 32
def TIMELY_SOURCE_WEIGHT : Nat := 14
def TIMELY_TARGET_WEIGHT : Nat := 26
def TIMELY_HEAD_WEIGHT : Nat := 14
def SYNC_REWARD_WEIGHT : Nat := 2
def PROPOSER_WEIGHT : Nat := 8
def WEIGHT_DENOMINATOR : Nat := 64

section

variable {P : Preset}

/-! ## Epochs and forks -/

section

variable (state : BeaconState P)

def getCurrentEpoch : Nat := computeEpochAtSlot P state.slot

def getPreviousEpoch : Nat :=
  let currentEpoch := getCurrentEpoch state
  if currentEpoch = GENESIS_EPOCH then GENESIS_EPOCH else currentEpoch - 1

def getForkName (P : Preset) (cfg : ChainConfig) (slot : Nat) : ForkName :=
  if cfg.ALTAIR_FORK_EPOCH ≤ computeEpochAtSlot P slot then .altair else .phase0

/-! ## Validators -/

def isActiveValidator (validator : Validator) (epoch : Nat) : Bool :=
  decide (validator.activationEpoch ≤ epoch) && decide ((epoch : ℕ∞) < validator.exitEpoch)

def isSlashableValidator (validator : Validator) (epoch : Nat) : Bool :=
  !validator.slashed && decide (validator.activationEpoch ≤ epoch) && decide ((epoch : ℕ∞) < validator.withdrawableEpoch)

def indicesWhere (test : Validator → Bool) (validators : List Validator) : List Nat :=
  (validators.zipIdx.filter fun entry => test entry.1).map (·.2)

def getActiveValidatorIndices (epoch : Nat) : List Nat :=
  indicesWhere (isActiveValidator · epoch) state.validators

def getChurnLimit (cfg : ChainConfig) (activeValidatorCount : Nat) : Nat :=
  max cfg.MIN_PER_EPOCH_CHURN_LIMIT (activeValidatorCount / cfg.CHURN_LIMIT_QUOTIENT)

/-! ## Balances -/

def getTotalBalance (indices : List Nat) : Except String Nat := do
  let total ← indices.foldlM (fun total index => do
    let validator ← getAt typeError state.validators index
    pure (total + validator.effectiveBalance)) 0
  pure (max P.EFFECTIVE_BALANCE_INCREMENT total)

def getTotalActiveBalance : Except String Nat :=
  getTotalBalance state (getActiveValidatorIndices state (getCurrentEpoch state))

section

variable (state : CachedBeaconState P) (index : Nat)

def increaseBalance (delta : Nat) : Except String (CachedBeaconState P) := do
  let balances ← modifyAt typeError state.balances index (· + delta)
  pure { state with balances := balances }

/-- Set to 0 when underflow. -/
def decreaseBalance (delta : Nat) : Except String (CachedBeaconState P) := do
  let balances ← modifyAt typeError state.balances index
    (fun currentBalance => if currentBalance < delta then 0 else currentBalance - delta)
  pure { state with balances := balances }

def updateValidator (update : Validator → Validator) : CachedBeaconState P :=
  { state with validators := state.validators.modify index update }

end

def getEffectiveBalances (justifiedState : CachedBeaconState P) : List Nat :=
  let justifiedEpoch := justifiedState.epochCtx.currentShuffling.epoch
  justifiedState.validators.map fun v => if isActiveValidator v justifiedEpoch then v.effectiveBalance else 0

/-! ## Block roots and finality -/

def getBlockRootAtSlot (slot : Nat) : Except String Root := do
  check (slot < state.slot) s!"Cannot get block root for slot in the future: {slot} < {state.slot}"
  check (state.slot ≤ slot + P.SLOTS_PER_HISTORICAL_ROOT) "Cannot get block root from slot more than SLOTS_PER_HISTORICAL_ROOT in the past"
  pure (state.blockRoots.get ⟨slot % P.SLOTS_PER_HISTORICAL_ROOT, Nat.mod_lt _ P.historicalRoot_pos⟩)

def getBlockRoot (epoch : Nat) : Except String Root :=
  getBlockRootAtSlot state (computeStartSlotAtEpoch P epoch)

def getFinalityDelay : Int := (getPreviousEpoch state : Int) - state.finalizedCheckpoint.epoch

def isInInactivityLeak : Bool :=
  decide ((P.MIN_EPOCHS_TO_INACTIVITY_PENALTY : Int) < getFinalityDelay state)

end

end

/-! ## Aggregation bits -/

def zipIndexes : List Nat → List Bool → List Nat × List Nat
  | [], _ => ([], [])
  | index :: indexes, bits =>
    let rest := zipIndexes indexes bits.tail
    if bits.headD false then (index :: rest.1, rest.2) else (rest.1, index :: rest.2)

def zipIndexesCommitteeBits (indexes : List Nat) (bits : List Bool) : List Nat := (zipIndexes indexes bits).1

end Lodestar.StateTransition
