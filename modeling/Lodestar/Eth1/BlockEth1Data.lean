import Lodestar.StateTransition.EpochCache
import Lodestar.StateTransition.GenesisDeposits
import Lodestar.Eth1.Eth1Vote
/-!
# BlockEth1Data — the eth1 data and deposits of a block, and the block that takes them

The producer predicts what its own vote does to the state's eth1 data and proves the deposits in the tree of the data it
expects.  `getEth1DataAndDeposits_accepted` says that the transition agrees: it comes to the same data, the same number of
deposits and the same roots.
-/
namespace Lodestar.Eth1

open Lib Db StateTransition Eth1DepositsCache
open scoped Lib.BigEndian

/-- Both sides compute the roots of deposits by the same SSZ types. -/
structure SszAgrees {P : Preset} (env : GenesisEnv P) (values : Eth1Values) : Prop where
  depositData : ∀ data, values.depositDataHashTreeRoot data = env.depositDataRoot data
  depositDataRootList : ∀ roots, values.depositDataRootListHashTreeRoot roots = env.depositDataRootListRoot roots

namespace Eth1ForBlockProduction

variable {P : Preset} (env : GenesisEnv P) (values : Eth1Values) (config : Eth1VoteConfig)
  (hashTreeRoot : Eth1Data → Root) (eth1DataGetter : Eth1DataGetter)

def getEth1Data (state : GenesisState P) : Except DepositsError (Option Eth1Data) :=
  (getEth1VotesToConsider config state eth1DataGetter).map fun eth1VotesToConsider =>
    pickEth1Vote hashTreeRoot state.toBeaconState eth1VotesToConsider

def getDeposits (state : GenesisState P) (eth1DataVote : Eth1Data) (s : Eth1ForBlockProduction) :
    Except DepositsError (List Deposit) × Eth1ForBlockProduction :=
  -- Eth1 data may change due to the vote included in this block
  let newEth1Data := (getNewEth1Data state.toBeaconState eth1DataVote).getD state.eth1Data
  let (deposits, depositsCache) :=
    Eth1.getDeposits state.toBeaconState newEth1Data (get values env.getSingleProof) s.depositsCache
  (deposits, { s with depositsCache })

/-- Return eth1Data and deposits ready for block production for a given state.  There is no vote to read a field of when the
vote is undefined. -/
def getEth1DataAndDeposits (state : GenesisState P) (s : Eth1ForBlockProduction) :
    Except DepositsError (Eth1Data × List Deposit) × Eth1ForBlockProduction :=
  match getEth1Data config hashTreeRoot eth1DataGetter state with
  | .error error => (.error error, s)
  | .ok none => (.error (.eth1 (.error typeError)), s)
  | .ok (some eth1Data) =>
    match getDeposits env values state eth1Data s with
    | (.error error, s) => (.error error, s)
    | (.ok deposits, s) => (.ok (eth1Data, deposits), s)

end Eth1ForBlockProduction

/-! ## The block that takes them -/

section Accepted

variable {P : Preset} {env : GenesisEnv P} {values : Eth1Values}

/-- Eth1 data that counts deposits of the log, none less than the state has processed, and has the root of those. -/
structure Covers (log : DepositLog values) (depositIndex : Nat) (eth1Data : Eth1Data) : Prop where
  index_le : depositIndex ≤ eth1Data.depositCount
  count_le : eth1Data.depositCount ≤ log.events.length
  root_eq : eth1Data.depositRoot = values.depositDataRootListHashTreeRoot (log.roots.take eth1Data.depositCount)

theorem getNewEth1Data_eq {state : BeaconState P} {eth1DataVote newEth1Data : Eth1Data}
    (h : getNewEth1Data state eth1DataVote = some newEth1Data) : newEth1Data = eth1DataVote := by
  unfold getNewEth1Data at h
  dsimp only at h
  split at h
  · cases h
  · split at h
    · cases h
    · split at h
      · exact (Option.some.inj h).symm
      · cases h

theorem processEth1Data_eth1Data (state : CachedBeaconState P) (body : BeaconBlockBody) :
    (processEth1Data state body).eth1Data = (getNewEth1Data state.toBeaconState body.eth1Data).getD state.eth1Data := by
  unfold processEth1Data
  cases hnew : getNewEth1Data state.toBeaconState body.eth1Data with
  | none => rfl
  | some newEth1Data =>
    rw [getNewEth1Data_eq hnew]
    rfl

theorem verify_provedDeposits (hssz : SszAgrees env values) {log : DepositLog values} {eth1Data : Eth1Data}
    {first last i : Nat} (hcovers : Covers log first eth1Data) (hlast : last ≤ eth1Data.depositCount) {deposit : Deposit}
    (hdeposit : (Stored.provedDeposits env.getSingleProof log eth1Data.depositCount first last)[i]? = some deposit) :
    verifyMerkleBranch env.toEnv (env.depositDataRoot deposit.data) deposit.proof (DEPOSIT_CONTRACT_TREE_DEPTH + 1)
      (first + i) eth1Data.depositRoot = .ok true := by
  unfold Stored.provedDeposits at hdeposit
  rw [List.getElem?_map, Option.map_eq_some_iff] at hdeposit
  obtain ⟨event, hevent, rfl⟩ := hdeposit
  rw [List.getElem?_drop, List.getElem?_take] at hevent
  split at hevent
  · rename_i hlt
    have hindex : event.index = first + i := log.index_eq _ event hevent
    have hleaf : (log.roots.take eth1Data.depositCount)[first + i]? = some (env.depositDataRoot event.depositData) := by
      rw [List.getElem?_take, if_pos (by omega)]
      unfold DepositLog.roots
      rw [List.getElem?_map, hevent, Option.map_some, hssz.depositData]
    have hlength : (log.roots.take eth1Data.depositCount).length ≤ 2 ^ 32 := by
      have hcount := hcovers.count_le
      have hlog := log.length_le
      rw [List.length_take]
      omega
    have hverify := env.verify_getSingleProof _ _ _ hleaf hlength
    rw [hcovers.root_eq, hssz.depositDataRootList]
    rw [hindex]
    exact hverify
  · cases hevent

variable {config : Eth1VoteConfig} {hashTreeRoot : Eth1Data → Root} {eth1DataGetter : Eth1DataGetter}

/-- **The eth1 data and deposits of a producer pass in its own block**: from a stored log that covers every vote to consider
and the state's data, they are returned; in a body they have the number of deposits that `processOperations` expects after
`processEth1Data`, and each deposit has a proof that `processDeposit` accepts at its index. -/
theorem getEth1DataAndDeposits_accepted (hssz : SszAgrees env values) {log : DepositLog values} {s : Eth1ForBlockProduction}
    (hstored : Stored s.depositsCache log) {state : GenesisState P} {votes : List Eth1Data}
    (hvotes : getEth1VotesToConsider config state eth1DataGetter = .ok votes)
    (hcovers : ∀ eth1Data, eth1Data ∈ votes ∨ eth1Data = state.eth1Data → Covers log state.eth1DepositIndex eth1Data) :
    ∃ eth1Data deposits s',
      Eth1ForBlockProduction.getEth1DataAndDeposits env values config hashTreeRoot eth1DataGetter state s =
        (.ok (eth1Data, deposits), s') ∧
      ∀ body : BeaconBlockBody, body.eth1Data = eth1Data → body.deposits = deposits →
        (body.deposits.length : Int) =
          min (P.MAX_DEPOSITS : Int) (((processEth1Data state.toCachedBeaconState body).eth1Data.depositCount : Int) -
            (processEth1Data state.toCachedBeaconState body).eth1DepositIndex) ∧
        ∀ (i : Nat) deposit, body.deposits[i]? = some deposit →
          verifyMerkleBranch env.toEnv (env.depositDataRoot deposit.data) deposit.proof (DEPOSIT_CONTRACT_TREE_DEPTH + 1)
            ((processEth1Data state.toCachedBeaconState body).eth1DepositIndex + i)
            (processEth1Data state.toCachedBeaconState body).eth1Data.depositRoot = .ok true := by
  obtain ⟨vote, hpick, hvote⟩ := pickEth1Vote_spec hashTreeRoot state.toBeaconState votes
  -- the data the deposits are asked for: the vote, or that of the state
  generalize hnew : (getNewEth1Data state.toBeaconState vote).getD state.eth1Data = newEth1Data
  have hnewCovers : Covers log state.eth1DepositIndex newEth1Data := by
    cases hsome : getNewEth1Data state.toBeaconState vote with
    | none =>
      rw [hsome, Option.getD_none] at hnew
      exact hcovers newEth1Data (.inr hnew.symm)
    | some data =>
      rw [hsome, Option.getD_some, getNewEth1Data_eq hsome] at hnew
      exact hnew ▸ hcovers vote hvote
  obtain ⟨cache', hstored', -, hdeposits⟩ :=
    hstored.getDeposits_eq env.getSingleProof hnewCovers.index_le hnewCovers.count_le
  rw [if_neg (not_not.2 hnewCovers.root_eq.symm)] at hdeposits
  refine ⟨vote, Stored.provedDeposits env.getSingleProof log newEth1Data.depositCount state.eth1DepositIndex
    (state.eth1DepositIndex + min P.MAX_DEPOSITS (newEth1Data.depositCount - state.eth1DepositIndex)),
    { s with depositsCache := cache' }, ?_, ?_⟩
  · unfold Eth1ForBlockProduction.getEth1DataAndDeposits Eth1ForBlockProduction.getEth1Data
    rw [hvotes]
    dsimp only [Except.map]
    rw [hpick]
    dsimp only
    unfold Eth1ForBlockProduction.getDeposits
    rw [hnew]
    dsimp only
    rw [hdeposits]
  · intro body hbody hbodyDeposits
    have hindex_le := hnewCovers.index_le
    have hcount_le := hnewCovers.count_le
    have hdata : (processEth1Data state.toCachedBeaconState body).eth1Data = newEth1Data := by
      rw [processEth1Data_eth1Data, hbody, hnew]
    have hindex : (processEth1Data state.toCachedBeaconState body).eth1DepositIndex = state.eth1DepositIndex := rfl
    rw [hdata, hindex, hbodyDeposits]
    constructor
    · rw [Stored.length_provedDeposits _ _ _ (by omega)]
      omega
    · intro i deposit hdeposit
      exact verify_provedDeposits hssz hnewCovers (by omega) hdeposit

end Accepted

/-! ## A vote that wins -/

def producerEnv : GenesisEnv minimal := merkleGenesisEnv (plainEnv minimal) fun _ => zeroRoot

def producerValues : Eth1Values :=
  { plainEth1Values with
    depositDataHashTreeRoot := producerEnv.depositDataRoot
    depositDataRootListHashTreeRoot := producerEnv.depositDataRootListRoot }

def producerLog : DepositLog producerValues :=
  let log := plainLog [1, 2, 3] (by decide) (by decide) (by decide)
  ⟨log.events, log.index_eq, log.ordered, log.length_le, log.readable⟩

def countedData (depositCount : Nat) : Eth1Data :=
  { depositRoot := producerEnv.depositDataRootListRoot (producerLog.roots.take depositCount), depositCount
    blockHash := zeroRoot }

def votingState : GenesisState minimal :=
  let shuffling := { epoch := 1, activeIndices := [0, 1], shuffling := [0, 1], committees := [], committeesPerSlot := 1 }
  let committee := { committee := awaitingDeposit.currentSyncCommittee, validatorIndices := [] }
  { awaitingDeposit with
    eth1Data := countedData 2
    eth1DataVotes := List.replicate 16 (countedData 3)
    eth1DepositIndex := 1
    epochCtx := {
      pubkey2index := .empty, index2pubkey := [], proposers := []
      previousShuffling := shuffling, currentShuffling := shuffling, nextShuffling := shuffling
      syncParticipantReward := 0, syncProposerReward := 0, baseRewardPerIncrement := 0 }
    currentIndexedSyncCommittee := committee
    nextIndexedSyncCommittee := committee
    genesisTime := 0
    genesisValidatorsRoot := zeroRoot }

def votingConfig : Eth1VoteConfig :=
  { ETH1_FOLLOW_DISTANCE := 16, deployBlock := 0, SECONDS_PER_ETH1_BLOCK := 14, SECONDS_PER_SLOT := 6 }

theorem covers_countedData {depositCount : Nat} (hlow : 1 ≤ depositCount) (hhigh : depositCount ≤ 3) :
    Covers producerLog votingState.eth1DepositIndex (countedData depositCount) where
  index_le := hlow
  count_le := hhigh
  root_eq := rfl

/-- The cached data is the winning vote: the block changes the state's data and proves two deposits in the tree of three. -/
theorem getEth1DataAndDeposits_accepted_winning : ∃ s eth1Data deposits s', Stored s.depositsCache producerLog ∧
    getNewEth1Data votingState.toBeaconState (countedData 3) = some (countedData 3) ∧
    Eth1ForBlockProduction.getEth1DataAndDeposits producerEnv producerValues votingConfig (·.blockHash)
      (fun _ => .ok [countedData 3]) votingState s = (.ok (eth1Data, deposits), s') ∧
    ∀ body : BeaconBlockBody, body.eth1Data = eth1Data → body.deposits = deposits →
      (body.deposits.length : Int) =
        min (minimal.MAX_DEPOSITS : Int)
          (((processEth1Data votingState.toCachedBeaconState body).eth1Data.depositCount : Int) -
            (processEth1Data votingState.toCachedBeaconState body).eth1DepositIndex) := by
  have hempty : Stored ⟨.empty, none⟩ (DepositLog.empty : DepositLog producerValues) := Stored.nil
  obtain ⟨cache, -, hstored⟩ := hempty.add_eq (show producerLog.events = [] ++ producerLog.events from rfl)
  have hvotes : getEth1VotesToConsider votingConfig votingState (fun _ => .ok [countedData 3]) = .ok [countedData 3] := rfl
  have hcovers : ∀ eth1Data, eth1Data ∈ [countedData 3] ∨ eth1Data = votingState.eth1Data →
      Covers producerLog votingState.eth1DepositIndex eth1Data := by
    rintro eth1Data (hvote | hstate)
    · rw [List.mem_singleton.1 hvote]
      exact covers_countedData (by decide) (by decide)
    · rw [hstate]
      exact covers_countedData (by decide) (by decide)
  obtain ⟨eth1Data, deposits, s', hreturns, hpasses⟩ := @getEth1DataAndDeposits_accepted _ producerEnv producerValues
    votingConfig (·.blockHash) _ ⟨fun _ => rfl, fun _ => rfl⟩ _ ⟨cache, none⟩ hstored _ _ hvotes hcovers
  exact ⟨_, eth1Data, deposits, s', hstored, by decide +kernel, hreturns, fun body hdata hdeposits =>
    (hpasses body hdata hdeposits).1⟩

end Lodestar.Eth1
