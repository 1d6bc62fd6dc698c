import Lodestar.Lib.Memo
import Lodestar.StateTransition.EpochProcess
/-!
# Epoch — the steps of an epoch transition, and their order in each fork

Every step takes the state and what `prepareEpochProcessState` computed.  `processRewardsAndPenalties` leaves the balances it
wrote in the process record, where `processEffectiveBalanceUpdates` finds them.  The rewards that go with an effective balance are
computed once and kept in a table by that balance.
-/
namespace Lodestar.StateTransition

open Lib

variable {P : Preset} (env : Env P) (cfg : ChainConfig)

/-! ## Justification and finalization -/

section

variable (state : CachedBeaconState P) (process : EpochProcess)

def processJustificationAndFinalization : Except String (CachedBeaconState P) := do
  let previousEpoch := process.prevEpoch
  let currentEpoch := process.currentEpoch
  -- skip FFG updates in the first two epochs
  if currentEpoch ≤ GENESIS_EPOCH + 1 then pure state
  else
    let oldPreviousJustifiedCheckpoint := state.previousJustifiedCheckpoint
    let oldCurrentJustifiedCheckpoint := state.currentJustifiedCheckpoint
    let state := { state with previousJustifiedCheckpoint := state.currentJustifiedCheckpoint }
    let old := state.justificationBits
    let bits := #v[false, old.get 0, old.get 1, old.get 2]
    let (state, bits) ←
      (if process.totalActiveStake * 2 ≤ process.prevEpochUnslashedStake.targetStake * 3 then do
        let root ← getBlockRoot state.toBeaconState previousEpoch
        pure ({ state with currentJustifiedCheckpoint := { epoch := previousEpoch, root } }, bits.set 1 true)
      else pure (state, bits))
    let (state, bits) ←
      (if process.totalActiveStake * 2 ≤ process.currEpochUnslashedTargetStake * 3 then do
        let root ← getBlockRoot state.toBeaconState currentEpoch
        pure ({ state with currentJustifiedCheckpoint := { epoch := currentEpoch, root } }, bits.set 0 true)
      else pure (state, bits))
    let state := { state with justificationBits := bits }
    -- the 2nd/3rd/4th most recent epochs are all justified, the 2nd using the 4th as source
    let finalized := if bits.get 1 && bits.get 2 && bits.get 3 && oldPreviousJustifiedCheckpoint.epoch + 3 == currentEpoch
      then oldPreviousJustifiedCheckpoint else state.finalizedCheckpoint
    -- the 2nd/3rd most recent epochs are both justified, the 2nd using the 3rd as source
    let finalized := if bits.get 1 && bits.get 2 && oldPreviousJustifiedCheckpoint.epoch + 2 == currentEpoch
      then oldPreviousJustifiedCheckpoint else finalized
    -- the 1st/2nd/3rd most recent epochs are all justified, the 1st using the 3rd as source
    let finalized := if bits.get 0 && bits.get 1 && bits.get 2 && oldCurrentJustifiedCheckpoint.epoch + 2 == currentEpoch
      then oldCurrentJustifiedCheckpoint else finalized
    -- the 1st/2nd most recent epochs are both justified, the 1st using the 2nd as source
    let finalized := if bits.get 0 && bits.get 1 && oldCurrentJustifiedCheckpoint.epoch + 1 == currentEpoch
      then oldCurrentJustifiedCheckpoint else finalized
    pure { state with finalizedCheckpoint := finalized }

/-! ## Rewards and penalties, phase0 -/

structure RewardPenaltyItem where
  baseReward : Nat
  proposerReward : Nat
  maxAttesterReward : Nat
  sourceCheckpointReward : Nat
  targetCheckpointReward : Nat
  headReward : Nat
  basePenalty : Nat
  finalityDelayPenalty : Int

def rewardPenaltyItem (P : Preset) (process : EpochProcess) (finalityDelay : Int) (isInInactivityLeak : Bool)
    (effBalance : Nat) : RewardPenaltyItem :=
  let increment := P.EFFECTIVE_BALANCE_INCREMENT
  let total := max process.totalActiveStake increment
  let prevEpochSourceStake := max process.prevEpochUnslashedStake.sourceStake increment / increment
  let prevEpochTargetStake := max process.prevEpochUnslashedStake.targetStake increment / increment
  let prevEpochHeadStake := max process.prevEpochUnslashedStake.headStake increment / increment
  let balanceSqRoot := bigIntSqrt total
  let totalBalance := total / increment
  let baseReward := effBalance * P.BASE_REWARD_FACTOR / balanceSqRoot / BASE_REWARDS_PER_EPOCH
  let proposerReward := baseReward / P.PROPOSER_REWARD_QUOTIENT
  { baseReward
    proposerReward
    maxAttesterReward := baseReward - proposerReward
    sourceCheckpointReward := if isInInactivityLeak then baseReward else baseReward * prevEpochSourceStake / totalBalance
    targetCheckpointReward := if isInInactivityLeak then baseReward else baseReward * prevEpochTargetStake / totalBalance
    headReward := if isInInactivityLeak then baseReward else baseReward * prevEpochHeadStake / totalBalance
    basePenalty := baseReward * BASE_REWARDS_PER_EPOCH - proposerReward
    finalityDelayPenalty := Int.tdiv (effBalance * finalityDelay) P.INACTIVITY_PENALTY_QUOTIENT }

/-- `arr[index] += delta`; an index outside the array writes a property that no one reads. -/
def addAt (l : List Int) (index : Int) (delta : Int) : List Int :=
  if 0 ≤ index then l.modify index.toNat (· + delta) else l

/-- The rewards and penalties of one validator, added to those so far.  A delay of 0 gives an infinite reward, whose
conversion to a `bigint` throws. -/
def attestationDeltaStep (isInInactivityLeak : Bool) (deltas : List Int × List Int)
    (i : Nat) (status : AttesterStatus) (item : RewardPenaltyItem) : Except String (List Int × List Int) := do
  let (rewards, penalties) := deltas
  let rewards ← (if hasMarkers status.flags FLAG_PREV_SOURCE_ATTESTER_OR_UNSLASHED then do
      check (status.inclusionDelay ≠ 0) "RangeError"
      pure (addAt (addAt rewards status.proposerIndex item.proposerReward) i (item.maxAttesterReward / status.inclusionDelay : Nat))
    else pure rewards)
  if hasMarkers status.flags FLAG_ELIGIBLE_ATTESTER then
    let source := hasMarkers status.flags FLAG_PREV_SOURCE_ATTESTER_OR_UNSLASHED
    let target := hasMarkers status.flags FLAG_PREV_TARGET_ATTESTER_OR_UNSLASHED
    let head := hasMarkers status.flags FLAG_PREV_HEAD_ATTESTER_OR_UNSLASHED
    let rewards := if source then addAt rewards i item.sourceCheckpointReward else rewards
    let penalties := if source then penalties else addAt penalties i item.baseReward
    let rewards := if target then addAt rewards i item.targetCheckpointReward else rewards
    let penalties := if target then penalties else addAt penalties i item.baseReward
    let rewards := if head then addAt rewards i item.headReward else rewards
    let penalties := if head then penalties else addAt penalties i item.baseReward
    -- take away max rewards if we're not finalizing
    let penalties := if isInInactivityLeak then addAt penalties i item.basePenalty else penalties
    let penalties := if isInInactivityLeak && !target then addAt penalties i item.finalityDelayPenalty else penalties
    pure (rewards, penalties)
  else pure (rewards, penalties)

def getAttestationDeltas : Except String (List Int × List Int) := do
  let validatorCount := process.statuses.length
  let finalityDelay : Int := (process.prevEpoch : Int) - state.finalizedCheckpoint.epoch
  let isInInactivityLeak := decide ((P.MIN_EPOCHS_TO_INACTIVITY_PENALTY : Int) < finalityDelay)
  let loop ← process.statuses.zipIdx.foldlM (fun (loop : OrderedMap Nat RewardPenaltyItem × List Int × List Int) entry => do
    let validator ← getAt typeError process.validators entry.2
    let found := lookup (rewardPenaltyItem P process finalityDelay isInInactivityLeak) loop.1 validator.effectiveBalance
    let deltas ← attestationDeltaStep isInInactivityLeak loop.2 entry.2 entry.1 found.1
    pure (found.2, deltas)) (.empty, List.replicate validatorCount 0, List.replicate validatorCount 0)
  pure loop.2

/-! ## Rewards and penalties, altair -/

def TIMELY_SOURCE_FLAG_INDEX : Nat := 0
def TIMELY_TARGET_FLAG_INDEX : Nat := 1
def TIMELY_HEAD_FLAG_INDEX : Nat := 2

def PARTICIPATION_FLAG_WEIGHTS : List Nat := [TIMELY_SOURCE_WEIGHT, TIMELY_TARGET_WEIGHT, TIMELY_HEAD_WEIGHT]

section

variable (P : Preset) (process : EpochProcess) (effectiveBalance : Nat)

def getBaseReward : Nat :=
  effectiveBalance / P.EFFECTIVE_BALANCE_INCREMENT * process.baseRewardPerIncrement

structure RewardPenaltyItemAltair where
  baseReward : Nat
  timelySourceReward : Nat
  timelySourcePenalty : Nat
  timelyTargetReward : Nat
  timelyTargetPenalty : Nat
  timelyHeadReward : Nat

def rewardPenaltyItemAltair : RewardPenaltyItemAltair :=
  let activeIncrements := process.totalActiveStake / P.EFFECTIVE_BALANCE_INCREMENT
  let baseReward := getBaseReward P process effectiveBalance
  let tsUnslashedParticipatingIncrements := process.prevEpochUnslashedStake.sourceStake / P.EFFECTIVE_BALANCE_INCREMENT
  let ttUnslashedParticipatingIncrements := process.prevEpochUnslashedStake.targetStake / P.EFFECTIVE_BALANCE_INCREMENT
  let thUnslashedParticipatingIncrements := process.prevEpochUnslashedStake.headStake / P.EFFECTIVE_BALANCE_INCREMENT
  let tsRewardNumerator := baseReward * TIMELY_SOURCE_WEIGHT * tsUnslashedParticipatingIncrements
  let ttRewardNumerator := baseReward * TIMELY_TARGET_WEIGHT * ttUnslashedParticipatingIncrements
  let thRewardNumerator := baseReward * TIMELY_HEAD_WEIGHT * thUnslashedParticipatingIncrements
  { baseReward
    timelySourceReward := tsRewardNumerator / (activeIncrements * WEIGHT_DENOMINATOR)
    timelySourcePenalty := baseReward * TIMELY_SOURCE_WEIGHT / WEIGHT_DENOMINATOR
    timelyTargetReward := ttRewardNumerator / (activeIncrements * WEIGHT_DENOMINATOR)
    timelyTargetPenalty := baseReward * TIMELY_TARGET_WEIGHT / WEIGHT_DENOMINATOR
    timelyHeadReward := thRewardNumerator / (activeIncrements * WEIGHT_DENOMINATOR) }

end

/-- `arr[index] += delta` on `bigint`s: `undefined` takes none. -/
def addAtOrThrow (l : List Int) (index delta : Nat) : Except String (List Int) := modifyAt typeError l index (· + (delta : Int))

/-- The rewards and penalties of one eligible validator, added to those so far: the three flags, then inactivity. -/
def rewardsPenaltiesStep (state : CachedBeaconState P) (isInInactivityLeakBn : Bool) (deltas : List Int × List Int) (i : Nat)
    (status : AttesterStatus) (effectiveBalance : Nat) (item : RewardPenaltyItemAltair) : Except String (List Int × List Int) := do
  let source := hasMarkers status.flags FLAG_PREV_SOURCE_ATTESTER_OR_UNSLASHED
  let target := hasMarkers status.flags FLAG_PREV_TARGET_ATTESTER_OR_UNSLASHED
  let head := hasMarkers status.flags FLAG_PREV_HEAD_ATTESTER_OR_UNSLASHED
  let rewards ← (if source && !isInInactivityLeakBn then addAtOrThrow deltas.1 i item.timelySourceReward else pure deltas.1)
  let penalties ← (if source then pure deltas.2 else addAtOrThrow deltas.2 i item.timelySourcePenalty)
  let rewards ← (if target && !isInInactivityLeakBn then addAtOrThrow rewards i item.timelyTargetReward else pure rewards)
  let penalties ← (if target then pure penalties else addAtOrThrow penalties i item.timelyTargetPenalty)
  let rewards ← (if head && !isInInactivityLeakBn then addAtOrThrow rewards i item.timelyHeadReward else pure rewards)
  if target then pure (rewards, penalties)
  else do
    -- `BigInt(undefined)` throws
    let inactivityScore ← getAt typeError state.inactivityScores i
    let penaltyDenominator := cfg.INACTIVITY_SCORE_BIAS * P.INACTIVITY_PENALTY_QUOTIENT_ALTAIR
    let penalties ← addAtOrThrow penalties i (effectiveBalance * inactivityScore / penaltyDenominator)
    pure (rewards, penalties)

def getRewardsPenaltiesDeltas : Except String (List Int × List Int) := do
  let validatorCount := state.validators.length
  let isInInactivityLeakBn := isInInactivityLeak state.toBeaconState
  let loop ← process.statuses.zipIdx.foldlM (fun (loop : OrderedMap Nat RewardPenaltyItemAltair × List Int × List Int) entry =>
    if hasMarkers entry.1.flags FLAG_ELIGIBLE_ATTESTER then do
      let validator ← getAt typeError process.validators entry.2
      let effectiveBalance := validator.effectiveBalance
      let found := lookup (rewardPenaltyItemAltair P process) loop.1 effectiveBalance
      let deltas ← rewardsPenaltiesStep cfg state isInInactivityLeakBn loop.2 entry.2 entry.1 effectiveBalance found.1
      pure (found.2, deltas)
    else pure loop) (.empty, List.replicate validatorCount 0, List.replicate validatorCount 0)
  pure loop.2

def getFlagIndexDeltas (flagIndex : Nat) : Except String (List Int × List Int) := do
  let validatorCount := state.validators.length
  let (flag, stake) ← (
    if flagIndex = TIMELY_HEAD_FLAG_INDEX then
      pure (FLAG_PREV_HEAD_ATTESTER_OR_UNSLASHED, process.prevEpochUnslashedStake.headStake)
    else if flagIndex = TIMELY_SOURCE_FLAG_INDEX then
      pure (FLAG_PREV_SOURCE_ATTESTER_OR_UNSLASHED, process.prevEpochUnslashedStake.sourceStake)
    else if flagIndex = TIMELY_TARGET_FLAG_INDEX then
      pure (FLAG_PREV_TARGET_ATTESTER_OR_UNSLASHED, process.prevEpochUnslashedStake.targetStake)
    else throw s!"Unable to process flagIndex: {flagIndex}")
  let weight := PARTICIPATION_FLAG_WEIGHTS.getD flagIndex 0
  let unslashedParticipatingIncrements := stake / P.EFFECTIVE_BALANCE_INCREMENT
  let activeIncrements := process.totalActiveStake / P.EFFECTIVE_BALANCE_INCREMENT
  process.statuses.zipIdx.foldlM (fun deltas entry =>
    if hasMarkers entry.1.flags FLAG_ELIGIBLE_ATTESTER then do
      let validator ← getAt typeError process.validators entry.2
      let baseReward := getBaseReward P process validator.effectiveBalance
      if hasMarkers entry.1.flags flag then
        if isInInactivityLeak state.toBeaconState then pure deltas
        else do
          let rewardNumerator := baseReward * weight * unslashedParticipatingIncrements
          let rewards ← addAtOrThrow deltas.1 entry.2 (rewardNumerator / (activeIncrements * WEIGHT_DENOMINATOR))
          pure (rewards, deltas.2)
      else if flagIndex ≠ TIMELY_HEAD_FLAG_INDEX then do
        let penalties ← addAtOrThrow deltas.2 entry.2 (baseReward * weight / WEIGHT_DENOMINATOR)
        pure (deltas.1, penalties)
      else pure deltas
    else pure deltas) (List.replicate validatorCount 0, List.replicate validatorCount 0)

def getInactivityPenaltyDeltas : Except String (List Int × List Int) :=
  let validatorCount := state.validators.length
  process.statuses.zipIdx.foldlM (fun deltas entry =>
    if hasMarkers entry.1.flags FLAG_ELIGIBLE_ATTESTER && !hasMarkers entry.1.flags FLAG_PREV_TARGET_ATTESTER_OR_UNSLASHED then do
      let validator ← getAt typeError process.validators entry.2
      let inactivityScore ← getAt typeError state.inactivityScores entry.2
      let penaltyDenominator := cfg.INACTIVITY_SCORE_BIAS * P.INACTIVITY_PENALTY_QUOTIENT_ALTAIR
      let penalties ← addAtOrThrow deltas.2 entry.2 (validator.effectiveBalance * inactivityScore / penaltyDenominator)
      pure (deltas.1, penalties)
    else pure deltas) (List.replicate validatorCount 0, List.replicate validatorCount 0)

/-! ## Writing the balances -/

/-- The new balance, as a `BigUint64Array` holds it. -/
def applyDelta (balance : Nat) (reward penalty : Int) : Nat :=
  let newBalance : Int := balance + (reward - penalty)
  if 0 < newBalance then newBalance.toNat % 2 ^ 64 else 0

/-- A validator without a delta makes `BigInt(NaN)` throw. -/
def applyDeltas (balances : List Nat) (deltas : List Int × List Int) : Except String (List Nat) :=
  balances.zipIdx.mapM fun entry => do
    let reward ← getAt "RangeError" deltas.1 entry.2
    let penalty ← getAt "RangeError" deltas.2 entry.2
    pure (applyDelta entry.1 reward penalty)

section

variable (fork : ForkName) (state : CachedBeaconState P) (process : EpochProcess)

def epochDeltas : Except String (Option (List Int × List Int)) :=
  match fork with
  | .phase0 => if process.currentEpoch = GENESIS_EPOCH then pure none else some <$> getAttestationDeltas state process
  | .altair => if getCurrentEpoch state.toBeaconState = GENESIS_EPOCH then pure none
    else some <$> getRewardsPenaltiesDeltas cfg state process

def processRewardsAndPenalties : Except String (CachedBeaconState P × EpochProcess) := do
  match ← epochDeltas cfg fork state process with
  | none => pure (state, process)
  | some deltas =>
    let newBalances ← applyDeltas state.balances deltas
    -- cache the balances array, too
    pure ({ state with balances := newBalances }, { process with balances := some newBalances })

end

/-! ## Registry updates -/

def ejectStep (churnLimit : Nat) (acc : List Validator × ℕ∞ × Nat) (index : Nat) : List Validator × ℕ∞ × Nat :=
  let (validators, exitEnd, endChurn) := acc
  let validators := validators.modify index fun v => { v with
    exitEpoch := exitEnd, withdrawableEpoch := exitEnd + cfg.MIN_VALIDATOR_WITHDRAWABILITY_DELAY }
  let endChurn := endChurn + 1
  if churnLimit ≤ endChurn then (validators, exitEnd + 1, 0) else (validators, exitEnd, endChurn)

def processRegistryUpdates : CachedBeaconState P :=
  let ejected := process.indicesToEject.foldl (ejectStep cfg process.churnLimit)
    (state.validators, process.exitQueueEnd, process.exitQueueEndChurn)
  let validators := process.indicesToSetActivationEligibility.foldl (fun validators index =>
    validators.modify index fun v => { v with
      activationEligibilityEpoch := ((state.epochCtx.currentShuffling.epoch + 1 : Nat) : ℕ∞) }) ejected.1
  let finalityEpoch := state.finalizedCheckpoint.epoch
  -- dequeue validators for activation up to churn limit, as long as their placement in the queue is finalized
  let toActivate := (process.indicesToMaybeActivate.take process.churnLimit).takeWhile fun index =>
    !decide ((finalityEpoch : ℕ∞) < ((process.validators[index]?).map (·.activationEligibilityEpoch)).getD 0)
  let validators := toActivate.foldl (fun validators index =>
    validators.modify index fun v => { v with
      activationEpoch := ((computeActivationExitEpoch P process.currentEpoch : Nat) : ℕ∞) }) validators
  { state with validators := validators }

/-! ## Slashings -/

def slashingPenalty (P : Preset) (fork : ForkName) (slashings : Vector Nat P.EPOCHS_PER_SLASHINGS_VECTOR)
    (totalBalance effectiveBalance : Nat) : Nat :=
  let totalSlashings := slashings.toList.sum
  let proportionalSlashingMultiplier := match fork with
    | .phase0 => P.PROPORTIONAL_SLASHING_MULTIPLIER
    | .altair => P.PROPORTIONAL_SLASHING_MULTIPLIER_ALTAIR
  let adjustedTotalSlashingBalance := min (totalSlashings * proportionalSlashingMultiplier) totalBalance
  let increment := P.EFFECTIVE_BALANCE_INCREMENT
  let penaltyNumerator := effectiveBalance / increment * adjustedTotalSlashingBalance
  penaltyNumerator / totalBalance * increment

def processSlashingsAllForks (fork : ForkName) (state : CachedBeaconState P) (process : EpochProcess) :
    Except String (CachedBeaconState P) :=
  let slashings := state.slashings
  process.indicesToSlash.foldlM (fun state index => do
    let validator ← getAt typeError process.validators index
    decreaseBalance state index (slashingPenalty P fork slashings process.totalActiveStake validator.effectiveBalance)) state

/-! ## Final updates -/

def processEth1DataReset : CachedBeaconState P :=
  let nextEpoch := process.currentEpoch + 1
  if nextEpoch % P.EPOCHS_PER_ETH1_VOTING_PERIOD = 0 then { state with eth1DataVotes := [] } else state

def effectiveBalanceUpdate (P : Preset) (effectiveBalance balance : Nat) : Option Nat :=
  let HYSTERESIS_INCREMENT := P.EFFECTIVE_BALANCE_INCREMENT / P.HYSTERESIS_QUOTIENT
  let DOWNWARD_THRESHOLD := HYSTERESIS_INCREMENT * P.HYSTERESIS_DOWNWARD_MULTIPLIER
  let UPWARD_THRESHOLD := HYSTERESIS_INCREMENT * P.HYSTERESIS_UPWARD_MULTIPLIER
  if balance + DOWNWARD_THRESHOLD < effectiveBalance ∨ effectiveBalance + UPWARD_THRESHOLD < balance
  then some (min (balance - balance % P.EFFECTIVE_BALANCE_INCREMENT) P.MAX_EFFECTIVE_BALANCE) else none

def processEffectiveBalanceUpdates : Except String (CachedBeaconState P) :=
  (process.balances.getD state.balances).zipIdx.foldlM (fun state entry => do
    let validator ← getAt typeError process.validators entry.2
    match effectiveBalanceUpdate P validator.effectiveBalance entry.1 with
    | some effectiveBalance =>
      pure (updateValidator state entry.2 fun v => { v with effectiveBalance := effectiveBalance })
    | none => pure state) state

def processSlashingsReset : CachedBeaconState P :=
  let nextEpoch := process.currentEpoch + 1
  let slashings := state.slashings.set (nextEpoch % P.EPOCHS_PER_SLASHINGS_VECTOR) 0 (Nat.mod_lt _ P.slashingsVector_pos)
  { state with slashings }

def processRandaoMixesReset : CachedBeaconState P :=
  let currentEpoch := process.currentEpoch
  let nextEpoch := currentEpoch + 1
  let mix := getRandaoMix state.toBeaconState currentEpoch
  let randaoMixes := state.randaoMixes.set (nextEpoch % P.EPOCHS_PER_HISTORICAL_VECTOR) mix
    (Nat.mod_lt _ (historicalVector_pos P))
  { state with randaoMixes }

def processHistoricalRootsUpdate : CachedBeaconState P :=
  let nextEpoch := process.currentEpoch + 1
  if nextEpoch % (P.SLOTS_PER_HISTORICAL_ROOT / P.SLOTS_PER_EPOCH) = 0
  then { state with historicalRoots := state.historicalRoots ++ [env.historicalBatchRoot state.blockRoots state.stateRoots] }
  else state

def processParticipationRecordUpdates (state : CachedBeaconState P) : CachedBeaconState P :=
  { state with previousEpochAttestations := state.currentEpochAttestations, currentEpochAttestations := [] }

def processFinalUpdates : Except String (CachedBeaconState P) := do
  let state := processEth1DataReset state process
  let state ← processEffectiveBalanceUpdates state process
  let state := processSlashingsReset state process
  let state := processRandaoMixesReset state process
  let state := processHistoricalRootsUpdate env state process
  pure (processParticipationRecordUpdates state)

/-! ## The steps of altair only -/

def updatedInactivityScore (inActivityLeak : Bool) (status : AttesterStatus) (inactivityScore : Nat) : Nat :=
  let score := if hasMarkers status.flags FLAG_PREV_TARGET_ATTESTER_OR_UNSLASHED
    then inactivityScore - min 1 inactivityScore else inactivityScore + cfg.INACTIVITY_SCORE_BIAS
  if inActivityLeak then score else score - min cfg.INACTIVITY_SCORE_RECOVERY_RATE score

def processInactivityUpdates : Except String (CachedBeaconState P) := do
  if state.epochCtx.currentShuffling.epoch = GENESIS_EPOCH then pure state
  else
    let inActivityLeak := isInInactivityLeak state.toBeaconState
    let inactivityScores ← process.statuses.zipIdx.foldlM (fun scores entry =>
      if hasMarkers entry.1.flags FLAG_ELIGIBLE_ATTESTER
      then modifyAt typeError scores entry.2 (updatedInactivityScore cfg inActivityLeak entry.1)
      else pure scores) state.inactivityScores
    pure { state with inactivityScores := inactivityScores }

def processParticipationFlagUpdates (state : CachedBeaconState P) : CachedBeaconState P :=
  { state with
    previousEpochParticipation := state.currentEpochParticipation
    currentEpochParticipation := List.replicate state.validators.length emptyParticipationStatus }

def rotateSyncCommittee (state : CachedBeaconState P) : Except String (CachedBeaconState P) := do
  let state := { state with
    currentIndexedSyncCommittee := state.nextIndexedSyncCommittee
    currentSyncCommittee := state.nextSyncCommittee }
  let nextSyncCommittee ← getNextSyncCommittee env state.toBeaconState
  pure { state with
    nextIndexedSyncCommittee := convertToIndexedSyncCommittee nextSyncCommittee state.epochCtx.pubkey2index
    nextSyncCommittee := nextSyncCommittee }

def processSyncCommitteeUpdates : Except String (CachedBeaconState P) :=
  let nextEpoch := process.currentEpoch + 1
  if nextEpoch % P.EPOCHS_PER_SYNC_COMMITTEE_PERIOD = 0 then rotateSyncCommittee env state else pure state

end

/-! ## The two orders -/

def processEpochPhase0 (state : CachedBeaconState P) : Except String (CachedBeaconState P) := do
  let process ← prepareEpochProcessState cfg state
  let state ← processJustificationAndFinalization state process
  let (state, process) ← processRewardsAndPenalties cfg .phase0 state process
  let state := processRegistryUpdates cfg state process
  let state ← processSlashingsAllForks .phase0 state process
  processFinalUpdates env state process

def processEpochAltair (state : CachedBeaconState P) : Except String (CachedBeaconState P) := do
  let process ← prepareEpochProcessState cfg state
  let state ← processJustificationAndFinalization state process
  let state ← processInactivityUpdates cfg state process
  let (state, process) ← processRewardsAndPenalties cfg .altair state process
  let state := processRegistryUpdates cfg state process
  let state ← processSlashingsAllForks .altair state process
  let state := processEth1DataReset state process
  let state ← processEffectiveBalanceUpdates state process
  let state := processSlashingsReset state process
  let state := processRandaoMixesReset state process
  let state := processHistoricalRootsUpdate env state process
  let state := processParticipationFlagUpdates state
  processSyncCommitteeUpdates env state process

def processEpochByFork (fork : ForkName) (state : CachedBeaconState P) : Except String (CachedBeaconState P) :=
  match fork with
  | .phase0 => processEpochPhase0 env cfg state
  | .altair => processEpochAltair env cfg state

end Lodestar.StateTransition
