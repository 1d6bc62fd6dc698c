import Lodestar.Eth1.Stream
import Lodestar.StateTransition.GenesisDeposits
/-!
# GenesisBuilder — deposits on their way into the genesis state

A builder takes batches from the stream of deposits until there are enough validators, and from then on ranges with the block
at their end until that block is late enough.  It keeps the deposits it has seen in a set, which is empty again when a builder
is restored from what the one before it persisted.  `Run` is the builder with the stream it reads, and `step` one answer of the
node, one batch, or the end or the start of the process.
-/
namespace Lodestar.Chain

open Lib StateTransition Eth1

variable {P : Preset} (env : GenesisEnv P) (cfg : StreamConfig)

structure GenesisBuilder (P : Preset) where
  state : GenesisState P
  depositTree : List Root
  lastProcessedBlockNumber : Option Nat := none
  depositCache : List Nat := []
  fromBlock : Nat

structure PendingStatus (P : Preset) where
  state : GenesisState P
  depositTree : List Root
  lastProcessedBlockNumber : Nat

namespace GenesisBuilder

def new (pendingStatus : Option (PendingStatus P)) : Except String (GenesisBuilder P) :=
  match pendingStatus with
  | some pending => do
    let cached ← createCachedBeaconState env.toEnv cfg.toChainConfig pending.state.toBeaconState noOpts
    pure
      { state := { pending.state with toCachedBeaconState := cached }
        depositTree := pending.depositTree
        fromBlock := max (pending.lastProcessedBlockNumber + 1) cfg.deployBlock }
  | none => do
    let state ← getGenesisBeaconState env cfg.toGenesisConfig defaultEth1Data (getTemporaryBlockHeader env.toEnv cfg.toChainConfig)
    pure { state, depositTree := [], fromBlock := cfg.deployBlock }

def pushDeposits : (depositTree : List Root) → List DepositEvent → List Root × List Deposit
  | depositTree, [] => (depositTree, [])
  | depositTree, depositEvent :: depositEvents =>
    let depositTree := depositTree ++ [env.depositDataRoot depositEvent.depositData]
    let deposit := { proof := env.getSingleProof depositTree depositEvent.index, data := depositEvent.depositData }
    let rest := pushDeposits depositTree depositEvents
    (rest.1, deposit :: rest.2)

def newEvents (builder : GenesisBuilder P) (depositEvents : List DepositEvent) : List DepositEvent :=
  depositEvents.filter fun depositEvent => decide (depositEvent.index ∉ builder.depositCache)

def applyDeposits (builder : GenesisBuilder P) (depositEvents : List DepositEvent) : Option String × GenesisBuilder P :=
  let newEvents := builder.newEvents depositEvents
  let pushed := pushDeposits env builder.depositTree newEvents
  let applied := StateTransition.applyDeposits env cfg.toGenesisConfig builder.state pushed.2 (some pushed.1)
  (applied.1, { builder with
    state := applied.2
    depositTree := pushed.1
    depositCache := builder.depositCache ++ newEvents.map (·.index) })

end GenesisBuilder

/-! ## Runs -/

inductive Stream
  /-- The first phase: the batches still to be yielded, and the block from which the next range is fetched. -/
  | deposits (fromBlock : Nat) (batches : List IBatchDepositEvents)
  | enoughValidators (blockNumber : Nat)
  /-- The second phase: a range to fetch and to yield. -/
  | blocks (fromBlock toBlock : Nat)
  | fetched (toBlock : Nat)
  | found (blockNumber : Nat)
  | stopped (error : String)

structure Run (P : Preset) where
  builder : GenesisBuilder P
  stream : Stream
  applied : List DepositEvent
  /-- What `initStateFromEth1` has persisted, with the deposits in it. -/
  persisted : Option (PendingStatus P × List DepositEvent)

inductive Event
  /-- The node answers `getBlockNumber`, and gives what is asked for next. -/
  | height (remoteHighestBlock : Nat)
  /-- The builder processes what the stream yields. -/
  | next
  | abort (error : String)
  /-- The process starts anew. -/
  | restart

namespace Run

variable (chain : Eth1Chain)

/-- A throw ends the run; the state is persisted when a block has been processed. -/
def stop (run : Run P) (error : String) : Run P :=
  { run with
    stream := .stopped error
    persisted := match run.builder.lastProcessedBlockNumber with
      | some lastProcessedBlockNumber =>
        some (⟨run.builder.state, run.builder.depositTree, lastProcessedBlockNumber⟩, run.applied)
      | none => run.persisted }

/-- `this.applyDeposits`; the index of the state counts the deposits that were processed. -/
def applyDeposits (run : Run P) (depositEvents : List DepositEvent) : Option String × Run P :=
  let applied := run.builder.applyDeposits env cfg depositEvents
  let processed := applied.2.state.eth1DepositIndex - run.builder.state.eth1DepositIndex
  (applied.1, { run with
    builder := applied.2
    applied := run.applied ++ (run.builder.newEvents depositEvents).take processed })

section

variable (run : Run P)

def onHeight (remoteHighestBlock : Nat) : Run P :=
  let remoteFollowBlock := getRemoteFollowBlock cfg remoteHighestBlock
  match run.stream with
  | .deposits fromBlock [] =>
    let toBlock := min remoteFollowBlock (fromBlock + cfg.maxBlocksPerPoll)
    { run with stream := .deposits toBlock (groupDepositEventsByBlock (chain.getDepositEvents fromBlock toBlock)) }
  | .enoughValidators blockNumber =>
    let fromBlock := min (max blockNumber cfg.deployBlock) remoteFollowBlock
    { run with stream := .blocks fromBlock fromBlock }
  | .fetched toBlock =>
    { run with stream := .blocks toBlock (nextToBlock cfg remoteFollowBlock toBlock (chain.timestamp toBlock)) }
  | .deposits _ (_ :: _) | .blocks _ _ | .found _ | .stopped _ => run

def onNext : Run P :=
  match run.stream with
  | .deposits fromBlock (batch :: batches) =>
    match run.applyDeposits env cfg batch.depositEvents with
    | (some error, run) => run.stop error
    | (none, run) =>
      { run with
        builder := { run.builder with lastProcessedBlockNumber := some batch.blockNumber }
        stream := if isValidGenesisValidators cfg.toGenesisConfig run.builder.state.toBeaconState
          then .enoughValidators batch.blockNumber else .deposits fromBlock batches }
  | .blocks fromBlock toBlock =>
    match run.applyDeposits env cfg (chain.getDepositEvents fromBlock toBlock) with
    | (some error, run) => run.stop error
    | (none, run) =>
      let state := applyTimestamp cfg.toGenesisConfig run.builder.state (chain.timestamp toBlock)
      let state := { state with
        toCachedBeaconState := applyEth1BlockHash state.toCachedBeaconState (chain.blockHash toBlock) }
      { run with
        builder := { run.builder with state, lastProcessedBlockNumber := some toBlock }
        stream := if isValidGenesisState cfg.toGenesisConfig state then .found toBlock else .fetched toBlock }
  | .deposits _ [] | .enoughValidators _ | .fetched _ | .found _ | .stopped _ => run

/-- The process ends; a genesis that was found is persisted as such. -/
def onAbort (error : String) : Run P :=
  match run.stream with
  | .found _ | .stopped _ => run
  | .deposits _ _ | .enoughValidators _ | .blocks _ _ | .fetched _ => run.stop error

def restore : Run P :=
  match GenesisBuilder.new env cfg (run.persisted.map (·.1)) with
  | .error error => { run with stream := .stopped error }
  | .ok builder =>
    { run with
      builder
      stream := .deposits (max builder.fromBlock cfg.deployBlock) []
      applied := (run.persisted.map (·.2)).getD [] }

def onRestart : Run P :=
  match run.stream with
  | .found _ => run
  | .deposits _ _ | .enoughValidators _ | .blocks _ _ | .fetched _ | .stopped _ => run.restore env cfg

def step : Event → Run P
  | .height remoteHighestBlock => run.onHeight cfg chain remoteHighestBlock
  | .next => run.onNext env cfg chain
  | .abort error => run.onAbort error
  | .restart => run.onRestart env cfg

def runs (events : List Event) : Run P := events.foldl (step env cfg chain) run

end

def start (builder : GenesisBuilder P) : Run P where
  builder := builder
  stream := .deposits (max builder.fromBlock cfg.deployBlock) []
  applied := []
  persisted := none

end Run

def heights (events : List Event) : List Nat :=
  events.filterMap fun event => match event with
    | .height remoteHighestBlock => some remoteHighestBlock
    | .next | .abort _ | .restart => none

end Lodestar.Chain
