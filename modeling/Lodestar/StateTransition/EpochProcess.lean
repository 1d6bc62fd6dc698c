import Lodestar.StateTransition.EpochContext
/-!
# EpochProcess — what an epoch transition computes once, before its first step

`prepareEpochProcessState` walks the registry and the attestations of two epochs: who is to be slashed, ejected, made
eligible or activated, the end of the exit queue, the stakes, and a status of flags for every validator.
-/
namespace Lodestar.StateTransition

open Lib

/-! ## Attester statuses -/

def FLAG_PREV_SOURCE_ATTESTER : Nat := 1 <<< 0
def FLAG_PREV_TARGET_ATTESTER : Nat := 1 <<< 1
def FLAG_PREV_HEAD_ATTESTER : Nat := 1 <<< 2
def FLAG_CURR_SOURCE_ATTESTER : Nat := 1 <<< 3
def FLAG_CURR_TARGET_ATTESTER : Nat := 1 <<< 4
def FLAG_CURR_HEAD_ATTESTER : Nat := 1 <<< 5
def FLAG_UNSLASHED : Nat := 1 <<< 6
def FLAG_ELIGIBLE_ATTESTER : Nat := 1 <<< 7

def FLAG_PREV_SOURCE_ATTESTER_OR_UNSLASHED : Nat := FLAG_PREV_SOURCE_ATTESTER ||| FLAG_UNSLASHED
def FLAG_PREV_TARGET_ATTESTER_OR_UNSLASHED : Nat := FLAG_PREV_TARGET_ATTESTER ||| FLAG_UNSLASHED
def FLAG_PREV_HEAD_ATTESTER_OR_UNSLASHED : Nat := FLAG_PREV_HEAD_ATTESTER ||| FLAG_UNSLASHED

structure AttesterStatus where
  flags : Nat
  /-- `-1` when not included by any proposer. -/
  proposerIndex : Int
  inclusionDelay : Nat
  active : Bool
deriving DecidableEq

def createAttesterStatus : AttesterStatus := { flags := 0, proposerIndex := -1, inclusionDelay := 0, active := false }

def hasMarkers (flags markers : Nat) : Bool := flags &&& markers == markers

/-! ## The record -/

structure EpochStakeSummary where
  sourceStake : Nat
  targetStake : Nat
  headStake : Nat
deriving DecidableEq

structure EpochProcess where
  prevEpoch : Nat
  currentEpoch : Nat
  totalActiveStake : Nat
  baseRewardPerIncrement : Nat
  prevEpochUnslashedStake : EpochStakeSummary
  currEpochUnslashedTargetStake : Nat
  indicesToSlash : List Nat
  indicesToSetActivationEligibility : List Nat
  /-- Ignores churn and finality. -/
  indicesToMaybeActivate : List Nat
  indicesToEject : List Nat
  exitQueueEnd : ℕ∞
  exitQueueEndChurn : Nat
  churnLimit : Nat
  statuses : List AttesterStatus
  validators : List Validator
  balances : Option (List Nat)

variable {P : Preset}

/-! ## Pending attestations (phase0) -/

section

variable (statuses : List AttesterStatus)

def noteInclusion (participants : List Nat) (inclusionDelay : Nat) (proposerIndex : Int) : Except String (List AttesterStatus) :=
  participants.foldlM (fun statuses p => modifyAt typeError statuses p fun status =>
    if status.proposerIndex = -1 ∨ inclusionDelay < status.inclusionDelay
    then { status with proposerIndex := proposerIndex, inclusionDelay := inclusionDelay } else status) statuses

def noteFlags (participants : List Nat) (flags : Nat) : Except String (List AttesterStatus) :=
  participants.foldlM (fun statuses p => modifyAt typeError statuses p fun status =>
    { status with flags := status.flags ||| flags }) statuses

def statusProcessEpoch (state : CachedBeaconState P) (statuses : List AttesterStatus) (attestations : List PendingAttestation)
    (epoch sourceFlag targetFlag headFlag : Nat) : Except String (List AttesterStatus) := do
  let prevEpoch := state.epochCtx.previousShuffling.epoch
  let actualTargetBlockRoot ← getBlockRootAtSlot state.toBeaconState (computeStartSlotAtEpoch P epoch)
  attestations.foldlM (fun statuses att => do
    let attVotedTargetRoot := decide (att.data.target.root = actualTargetBlockRoot)
    let headBlockRoot ← getBlockRootAtSlot state.toBeaconState att.data.slot
    let attVotedHeadRoot := decide (att.data.beaconBlockRoot = headBlockRoot)
    let committee ← state.epochCtx.getBeaconCommittee P att.data.slot att.data.index
    let participants := zipIndexesCommitteeBits committee att.aggregationBits
    let statuses ← (if epoch = prevEpoch then noteInclusion statuses participants att.inclusionDelay att.proposerIndex
      else pure statuses)
    noteFlags statuses participants
      (sourceFlag ||| (if attVotedTargetRoot then targetFlag ||| (if attVotedHeadRoot then headFlag else 0) else 0)))
    statuses

/-! ## Participation flags (altair) -/

def participationProcessEpoch (participation : List ParticipationStatus) (sourceFlag targetFlag headFlag : Nat) :
    Except String (List AttesterStatus) :=
  participation.zipIdx.foldlM (fun statuses entry => modifyAt typeError statuses entry.2 fun status =>
    { status with flags := status.flags ||| ((if entry.1.timelySource then sourceFlag else 0) |||
      (if entry.1.timelyTarget then targetFlag else 0) ||| (if entry.1.timelyHead then headFlag else 0)) }) statuses

end

/-! ## The walk over the registry -/

variable (cfg : ChainConfig)

def initialStatus (prevEpoch currentEpoch : Nat) (v : Validator) : AttesterStatus :=
  { createAttesterStatus with
    flags := (if v.slashed then 0 else FLAG_UNSLASHED) |||
      (if isActiveValidator v prevEpoch || (v.slashed && decide (((prevEpoch + 1 : Nat) : ℕ∞) < v.withdrawableEpoch))
        then FLAG_ELIGIBLE_ATTESTER else 0)
    active := isActiveValidator v currentEpoch }

def isToSlash (P : Preset) (currentEpoch : Nat) (v : Validator) : Bool :=
  v.slashed && decide (((currentEpoch + P.EPOCHS_PER_SLASHINGS_VECTOR / 2 : Nat) : ℕ∞) = v.withdrawableEpoch)

def isToSetActivationEligibility (P : Preset) (v : Validator) : Bool :=
  decide (v.activationEligibilityEpoch = FAR_FUTURE_EPOCH) && v.effectiveBalance == P.MAX_EFFECTIVE_BALANCE

def isToMaybeActivate (currentEpoch : Nat) (v : Validator) : Bool :=
  decide (v.activationEpoch = FAR_FUTURE_EPOCH) && decide (v.activationEligibilityEpoch ≤ currentEpoch)

def isToEject (currentEpoch : Nat) (v : Validator) : Bool :=
  isActiveValidator v currentEpoch && decide (v.exitEpoch = FAR_FUTURE_EPOCH) && decide (v.effectiveBalance ≤ cfg.EJECTION_BALANCE)

def exitQueueEndFrom (start : ℕ∞) (validators : List Validator) : ℕ∞ :=
  validators.foldl (fun exitQueueEnd v =>
    if v.exitEpoch ≠ FAR_FUTURE_EPOCH ∧ exitQueueEnd < v.exitEpoch then v.exitEpoch else exitQueueEnd) start

def activationOrder (validators : List Validator) (a b : Nat) : Prop :=
  let epochOf := fun i => ((validators[i]?).map (·.activationEligibilityEpoch)).getD ⊤
  epochOf a < epochOf b ∨ (epochOf a = epochOf b ∧ a ≤ b)

instance (validators : List Validator) : DecidableRel (activationOrder validators) :=
  fun _ _ => inferInstanceAs (Decidable (_ ∨ _))

def stakeWith (P : Preset) (markers : Nat) (statuses : List AttesterStatus) (validators : List Validator) : Nat :=
  max P.EFFECTIVE_BALANCE_INCREMENT
    (((statuses.zip validators).filter fun entry => hasMarkers entry.1.flags markers).map (·.2.effectiveBalance)).sum

def attestedStatuses (forkName : ForkName) (state : CachedBeaconState P) (statuses : List AttesterStatus)
    (prevEpoch currentEpoch : Nat) : Except String (List AttesterStatus) :=
  match forkName with
  | .phase0 => do
    let statuses ← statusProcessEpoch state statuses state.previousEpochAttestations prevEpoch
      FLAG_PREV_SOURCE_ATTESTER FLAG_PREV_TARGET_ATTESTER FLAG_PREV_HEAD_ATTESTER
    statusProcessEpoch state statuses state.currentEpochAttestations currentEpoch
      FLAG_CURR_SOURCE_ATTESTER FLAG_CURR_TARGET_ATTESTER FLAG_CURR_HEAD_ATTESTER
  | .altair => do
    let statuses ← participationProcessEpoch statuses state.previousEpochParticipation
      FLAG_PREV_SOURCE_ATTESTER FLAG_PREV_TARGET_ATTESTER FLAG_PREV_HEAD_ATTESTER
    participationProcessEpoch statuses state.currentEpochParticipation
      FLAG_CURR_SOURCE_ATTESTER FLAG_CURR_TARGET_ATTESTER FLAG_CURR_HEAD_ATTESTER

def prepareEpochProcessState (state : CachedBeaconState P) : Except String EpochProcess := do
  let validators := state.validators
  let forkName := getForkName P cfg state.slot
  let currentEpoch := state.epochCtx.currentShuffling.epoch
  let prevEpoch := state.epochCtx.previousShuffling.epoch
  let active := validators.filter (isActiveValidator · currentEpoch)
  let totalActiveStake := max P.EFFECTIVE_BALANCE_INCREMENT (active.map (·.effectiveBalance)).sum
  let exitQueueEnd := exitQueueEndFrom (computeActivationExitEpoch P currentEpoch : Nat) validators
  let exitQueueEndChurn := (validators.filter fun v => decide (v.exitEpoch = exitQueueEnd)).length
  let churnLimit := getChurnLimit cfg active.length
  let queue := if churnLimit ≤ exitQueueEndChurn then (exitQueueEnd + 1, 0) else (exitQueueEnd, exitQueueEndChurn)
  let statuses := validators.map (initialStatus prevEpoch currentEpoch)
  let statuses ← attestedStatuses forkName state statuses prevEpoch currentEpoch
  pure {
    prevEpoch
    currentEpoch
    totalActiveStake
    baseRewardPerIncrement := computeBaseRewardPerIncrement P totalActiveStake
    prevEpochUnslashedStake := {
      sourceStake := stakeWith P (FLAG_PREV_SOURCE_ATTESTER ||| FLAG_UNSLASHED) statuses validators
      targetStake := stakeWith P (FLAG_PREV_TARGET_ATTESTER ||| FLAG_UNSLASHED) statuses validators
      headStake := stakeWith P (FLAG_PREV_HEAD_ATTESTER ||| FLAG_UNSLASHED) statuses validators }
    currEpochUnslashedTargetStake := stakeWith P (FLAG_CURR_TARGET_ATTESTER ||| FLAG_UNSLASHED) statuses validators
    indicesToSlash := indicesWhere (isToSlash P currentEpoch) validators
    indicesToSetActivationEligibility := indicesWhere (isToSetActivationEligibility P) validators
    indicesToMaybeActivate := (indicesWhere (isToMaybeActivate currentEpoch) validators).insertionSort (activationOrder validators)
    indicesToEject := indicesWhere (isToEject cfg currentEpoch) validators
    exitQueueEnd := queue.1
    exitQueueEndChurn := queue.2
    churnLimit
    statuses
    validators
    balances := none }

end Lodestar.StateTransition
