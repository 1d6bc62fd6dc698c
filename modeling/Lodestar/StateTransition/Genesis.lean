import Lodestar.StateTransition.Block
import Lodestar.Lib.MerkleTree
/-!
# Genesis — the state that deposits build before the chain starts

`applyDeposits` processes the deposits of a batch, each against the root of the deposits up to it, and then gives every
validator its effective balance and activates those that reach the maximum.  A throw leaves what was written before it.
-/
namespace Lodestar.StateTransition

open Lib

def GENESIS_SLOT : Nat := 0

structure GenesisConfig extends ChainConfig where
  GENESIS_FORK_VERSION : Version
  MIN_GENESIS_ACTIVE_VALIDATOR_COUNT : Nat
  MIN_GENESIS_TIME : Nat
  GENESIS_DELAY : Nat

structure GenesisEnv (P : Preset) extends Env P where
  validatorsRoot : List Validator → Root
  depositDataRootListRoot : List Root → Root
  /-- `getSingleProof` at the place of an index. -/
  getSingleProof : List Root → (index : Nat) → List Root
  verify_getSingleProof : ∀ (tree : List Root) (index : Nat) (leaf : Root), tree[index]? = some leaf → tree.length ≤ 2 ^ 32 →
    verifyMerkleBranch toEnv leaf (getSingleProof tree index) (DEPOSIT_CONTRACT_TREE_DEPTH + 1) index
      (depositDataRootListRoot tree) = .ok true

structure GenesisState (P : Preset) extends CachedBeaconState P where
  genesisTime : Nat
  genesisValidatorsRoot : Root

variable {P : Preset} (env : GenesisEnv P) (cfg : GenesisConfig)

def isValidGenesisValidators (state : BeaconState P) : Bool :=
  decide (cfg.MIN_GENESIS_ACTIVE_VALIDATOR_COUNT ≤
    (getActiveValidatorIndices state (computeEpochAtSlot P GENESIS_SLOT)).length)

def isValidGenesisState (state : GenesisState P) : Bool :=
  decide (cfg.MIN_GENESIS_TIME ≤ state.genesisTime) && isValidGenesisValidators cfg state.toBeaconState

/-! ## The state without deposits -/

def zeroCheckpoint : Checkpoint := { epoch := 0, root := zeroRoot }

def defaultEth1Data : Eth1Data := { depositRoot := zeroRoot, depositCount := 0, blockHash := zeroRoot }

def defaultSyncCommittee (P : Preset) : SyncCommittee :=
  { pubkeys := List.replicate P.SYNC_COMMITTEE_SIZE (Vector.replicate 48 0), aggregatePubkey := Vector.replicate 48 0 }

def defaultBody (P : Preset) : BeaconBlockBody where
  randaoReveal := Vector.replicate 96 0
  eth1Data := defaultEth1Data
  graffiti := zeroRoot
  proposerSlashings := []
  attesterSlashings := []
  attestations := []
  deposits := []
  voluntaryExits := []
  syncAggregate :=
    { syncCommitteeBits := List.replicate P.SYNC_COMMITTEE_SIZE false, syncCommitteeSignature := Vector.replicate 96 0 }

def getTemporaryBlockHeader (env : Env P) (cfg : ChainConfig) : BeaconBlockHeader :=
  { slot := GENESIS_SLOT, proposerIndex := 0, parentRoot := zeroRoot, stateRoot := zeroRoot
    bodyRoot := env.bodyRoot (getForkName P cfg GENESIS_SLOT) (defaultBody P) }

def genesisBeaconState (eth1Data : Eth1Data) (latestBlockHeader : BeaconBlockHeader) : BeaconState P where
  slot := GENESIS_SLOT
  fork :=
    { previousVersion := cfg.GENESIS_FORK_VERSION
      currentVersion := match getForkName P cfg.toChainConfig GENESIS_SLOT with
        | .phase0 => cfg.GENESIS_FORK_VERSION
        | .altair => cfg.ALTAIR_FORK_VERSION
      epoch := computeEpochAtSlot P GENESIS_SLOT }
  latestBlockHeader := latestBlockHeader
  blockRoots := Vector.replicate _ zeroRoot
  stateRoots := Vector.replicate _ zeroRoot
  historicalRoots := []
  eth1Data := eth1Data
  eth1DataVotes := []
  eth1DepositIndex := 0
  validators := []
  balances := []
  randaoMixes := Vector.replicate _ eth1Data.blockHash
  slashings := Vector.replicate _ 0
  previousEpochAttestations := []
  currentEpochAttestations := []
  previousEpochParticipation := []
  currentEpochParticipation := []
  justificationBits := Vector.replicate 4 false
  previousJustifiedCheckpoint := zeroCheckpoint
  currentJustifiedCheckpoint := zeroCheckpoint
  finalizedCheckpoint := zeroCheckpoint
  inactivityScores := []
  currentSyncCommittee := defaultSyncCommittee P
  nextSyncCommittee := defaultSyncCommittee P

def getGenesisBeaconState (genesisEth1Data : Eth1Data) (latestBlockHeader : BeaconBlockHeader) :
    Except String (GenesisState P) := do
  let state ← createCachedBeaconState env.toEnv cfg.toChainConfig (genesisBeaconState cfg genesisEth1Data latestBlockHeader)
    noOpts
  pure { toCachedBeaconState := state, genesisTime := 0, genesisValidatorsRoot := zeroRoot }

/-! ## What the builder writes to it -/

def applyEth1BlockHash (state : CachedBeaconState P) (eth1BlockHash : Root) : CachedBeaconState P :=
  { state with
    eth1Data := { state.eth1Data with blockHash := eth1BlockHash }
    randaoMixes := Vector.replicate _ eth1BlockHash }

def applyTimestamp (state : GenesisState P) (eth1Timestamp : Nat) : GenesisState P :=
  { state with genesisTime := eth1Timestamp + cfg.GENESIS_DELAY }

def activateAtGenesis (P : Preset) (validator : Validator) (balance : Nat) : Validator :=
  let effectiveBalance := min (balance - balance % P.EFFECTIVE_BALANCE_INCREMENT) P.MAX_EFFECTIVE_BALANCE
  if effectiveBalance = P.MAX_EFFECTIVE_BALANCE then
    { validator with
      effectiveBalance
      activationEligibilityEpoch := computeEpochAtSlot P GENESIS_SLOT
      activationEpoch := computeEpochAtSlot P GENESIS_SLOT }
  else { validator with effectiveBalance }

def processActivations (state : CachedBeaconState P) : Except String (CachedBeaconState P) := do
  let validators ← state.validators.zipIdx.mapM fun entry => do
    let balance ← getAt typeError state.balances entry.2
    pure (activateAtGenesis P entry.1 balance)
  pure { state with validators }

/-- The next root for `depositDataRootList`: from the full list when there is one, else of the deposit itself. -/
def nextDepositDataRoot (fullDepositDataRootList : Option (List Root)) (depositDataRootList : List Root) (deposit : Deposit) :
    Except String Root :=
  match fullDepositDataRootList with
  | some full => getAt typeError full depositDataRootList.length
  | none => pure (env.depositDataRoot deposit.data)

/-- The loop over the new deposits.  A deposit that throws does so at its proof, before it writes. -/
def processDeposits (fullDepositDataRootList : Option (List Root)) :
    (depositDataRootList : List Root) → CachedBeaconState P → List Deposit → Option String × CachedBeaconState P
  | _, state, [] => (none, state)
  | depositDataRootList, state, deposit :: newDeposits =>
    match nextDepositDataRoot env fullDepositDataRootList depositDataRootList deposit with
    | .error error => (some error, state)
    | .ok root =>
      let depositDataRootList := depositDataRootList ++ [root]
      let state := { state with eth1Data := { state.eth1Data with
        depositRoot := env.depositDataRootListRoot depositDataRootList
        depositCount := state.eth1Data.depositCount + 1 } }
      match processDeposit env.toEnv (getForkName P cfg.toChainConfig GENESIS_SLOT) state deposit with
      | .error error => (some error, state)
      | .ok state => processDeposits fullDepositDataRootList depositDataRootList state newDeposits

def applyDeposits (state : GenesisState P) (newDeposits : List Deposit) (fullDepositDataRootList : Option (List Root)) :
    Option String × GenesisState P :=
  let depositDataRootList := match fullDepositDataRootList with
    | some full => (List.range state.eth1Data.depositCount).mapM (getAt typeError full)
    | none => .ok []
  match depositDataRootList with
  | .error error => (some error, state)
  | .ok depositDataRootList =>
    match processDeposits env cfg fullDepositDataRootList depositDataRootList state.toCachedBeaconState newDeposits with
    | (some error, cached) => (some error, { state with toCachedBeaconState := cached })
    | (none, cached) =>
      match processActivations cached with
      | .error error => (some error, { state with toCachedBeaconState := cached })
      | .ok cached =>
        (none, { state with
          toCachedBeaconState := cached
          genesisValidatorsRoot := env.validatorsRoot cached.validators })

end Lodestar.StateTransition
