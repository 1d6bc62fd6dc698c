import Mathlib.Algebra.Group.Prod
import Lodestar.Lib.Tallies
import Lodestar.StateTransition.EpochCache
/-!
# FlagDeltas — one loop over the statuses against four

The rewards and penalties of altair can be computed flag by flag, and the inactivity penalties after them, with a loop over the
statuses each.  The transition uses one loop for all, which looks the rewards of an effective balance up in a table.  What it adds
for a validator is the sum of what the four loops add: `getRewardsPenaltiesDeltas_eq_sum`.
-/
namespace Lodestar.StateTransition

open Lib

variable {P : Preset} {cfg : ChainConfig} {state : CachedBeaconState P} {process : EpochProcess}

/-! ## What a validator gets -/

def flagOf (process : EpochProcess) (flagIndex : Nat) : Nat × Nat :=
  if flagIndex = TIMELY_HEAD_FLAG_INDEX then
    (FLAG_PREV_HEAD_ATTESTER_OR_UNSLASHED, process.prevEpochUnslashedStake.headStake)
  else if flagIndex = TIMELY_SOURCE_FLAG_INDEX then
    (FLAG_PREV_SOURCE_ATTESTER_OR_UNSLASHED, process.prevEpochUnslashedStake.sourceStake)
  else (FLAG_PREV_TARGET_ATTESTER_OR_UNSLASHED, process.prevEpochUnslashedStake.targetStake)

section

variable (P : Preset) (process : EpochProcess) (isInInactivityLeak : Bool) (flagIndex : Nat)

def flagDelta (status : AttesterStatus) (effectiveBalance : Nat) : Int × Int :=
  let weight := PARTICIPATION_FLAG_WEIGHTS.getD flagIndex 0
  let activeIncrements := process.totalActiveStake / P.EFFECTIVE_BALANCE_INCREMENT
  let baseReward := getBaseReward P process effectiveBalance
  let rewardNumerator := baseReward * weight * ((flagOf process flagIndex).2 / P.EFFECTIVE_BALANCE_INCREMENT)
  if hasMarkers status.flags (flagOf process flagIndex).1 then
    (if isInInactivityLeak then 0 else ((rewardNumerator / (activeIncrements * WEIGHT_DENOMINATOR) : Nat) : Int), 0)
  else (0, if flagIndex = TIMELY_HEAD_FLAG_INDEX then 0 else ((baseReward * weight / WEIGHT_DENOMINATOR : Nat) : Int))

def inactivityPenalty (cfg : ChainConfig) (P : Preset) (effectiveBalance inactivityScore : Nat) : Int :=
  ((effectiveBalance * inactivityScore / (cfg.INACTIVITY_SCORE_BIAS * P.INACTIVITY_PENALTY_QUOTIENT_ALTAIR) : Nat) : Int)

def flagDeltaAt (entry : AttesterStatus × Nat) : Except String (Int × Int) :=
  if hasMarkers entry.1.flags FLAG_ELIGIBLE_ATTESTER then do
    let validator ← getAt typeError process.validators entry.2
    pure (flagDelta P process isInInactivityLeak flagIndex entry.1 validator.effectiveBalance)
  else pure 0

end

section

variable (cfg : ChainConfig) (state : CachedBeaconState P) (process : EpochProcess)

def inactivityDeltaAt (entry : AttesterStatus × Nat) : Except String (Int × Int) :=
  if hasMarkers entry.1.flags FLAG_ELIGIBLE_ATTESTER && !hasMarkers entry.1.flags FLAG_PREV_TARGET_ATTESTER_OR_UNSLASHED then do
    let validator ← getAt typeError process.validators entry.2
    let inactivityScore ← getAt typeError state.inactivityScores entry.2
    pure (0, inactivityPenalty cfg P validator.effectiveBalance inactivityScore)
  else pure 0

def fusedDeltaAt (isInInactivityLeak : Bool) (entry : AttesterStatus × Nat) : Except String (Int × Int) := do
  let source ← flagDeltaAt P process isInInactivityLeak TIMELY_SOURCE_FLAG_INDEX entry
  let target ← flagDeltaAt P process isInInactivityLeak TIMELY_TARGET_FLAG_INDEX entry
  let head ← flagDeltaAt P process isInInactivityLeak TIMELY_HEAD_FLAG_INDEX entry
  let inactivity ← inactivityDeltaAt cfg state process entry
  pure (source + target + head + inactivity)

end

/-! ## One turn -/

theorem flagDelta_ite (flag leak : Bool) (reward penalty : Nat) :
    (if flag then (if leak then 0 else (reward : Int), 0) else ((0 : Int), (penalty : Int))) =
      (if flag && !leak then (reward : Int) else 0, if flag then 0 else (penalty : Int)) := by
  cases flag <;> cases leak <;> rfl

section Turn

variable {l : List Int} {i : Nat}

theorem addAtOrThrow_ok (h : i < l.length) (x : Nat) : addAtOrThrow l i x = .ok (l.modify i (· + (x : Int))) :=
  if_pos h

theorem addAtOrThrow_if (h : i < l.length) (c : Bool) (x : Nat) :
    (if c then addAtOrThrow l i x else pure l) = .ok (l.modify i (· + if c then (x : Int) else 0)) := by
  cases c with
  | false =>
    simp [pure, Except.pure]
    exact (List.modify_id i l).symm
  | true => simp [addAtOrThrow, modifyAt, h]

theorem addAtOrThrow_unless (h : i < l.length) (c : Bool) (x : Nat) :
    (if c then pure l else addAtOrThrow l i x) = .ok (l.modify i (· + if c then 0 else (x : Int))) := by
  have hif := addAtOrThrow_if h (!c) x
  cases c with
  | false => simpa using hif
  | true => simpa using hif

theorem modify_add_add (l : List Int) (i : Nat) (x y : Int) : (l.modify i (· + x)).modify i (· + y) = l.modify i (· + (x + y)) := by
  rw [List.modify_modify_eq]
  congr 1
  funext z
  simp [add_assoc]

theorem modify_add_zero (l : List Int) (i : Nat) : l.modify i (fun x => x) = l := List.modify_id i l

end Turn

section Turns

variable {lists : List Int × List Int} {n : Nat} (h₁ : lists.1.length = n) (h₂ : lists.2.length = n)

include h₁ h₂

theorem rewardsPenaltiesStep_eq {i : Nat} (hi : i < n) (leak : Bool) {status : AttesterStatus}
    (heligible : hasMarkers status.flags FLAG_ELIGIBLE_ATTESTER = true) {validator : Validator}
    (hv : process.validators[i]? = some validator) :
    rewardsPenaltiesStep cfg state leak lists i status validator.effectiveBalance
        (rewardPenaltyItemAltair P process validator.effectiveBalance) =
      (fusedDeltaAt cfg state process leak (status, i)).map (addPair lists i) := by
  have hi₁ : i < lists.1.length := h₁ ▸ hi
  have hi₂ : i < lists.2.length := h₂ ▸ hi
  have hread : getAt typeError process.validators i = .ok validator := getAt_eq_ok.2 hv
  have hmod₁ : ∀ f, i < (lists.1.modify i f).length := fun f => by rw [List.length_modify]; exact hi₁
  have hmod₂ : ∀ f, i < (lists.2.modify i f).length := fun f => by rw [List.length_modify]; exact hi₂
  have hok : ∀ {α β : Type} (a : α) (f : α → Except String β), (Except.ok a >>= f) = f a := fun _ _ => rfl
  unfold rewardsPenaltiesStep fusedDeltaAt flagDeltaAt inactivityDeltaAt
  simp only [heligible, if_true, hread, Bool.true_and]
  simp only [addAtOrThrow_if hi₁, addAtOrThrow_unless hi₂, hok, addAtOrThrow_if (hmod₁ _), addAtOrThrow_unless (hmod₂ _),
    modify_add_add]
  let item := rewardPenaltyItemAltair P process validator.effectiveBalance
  have hsource : flagDelta P process leak TIMELY_SOURCE_FLAG_INDEX status validator.effectiveBalance = _ :=
    flagDelta_ite (hasMarkers status.flags FLAG_PREV_SOURCE_ATTESTER_OR_UNSLASHED) leak item.timelySourceReward
      item.timelySourcePenalty
  have htarget : flagDelta P process leak TIMELY_TARGET_FLAG_INDEX status validator.effectiveBalance = _ :=
    flagDelta_ite (hasMarkers status.flags FLAG_PREV_TARGET_ATTESTER_OR_UNSLASHED) leak item.timelyTargetReward
      item.timelyTargetPenalty
  have hhead : flagDelta P process leak TIMELY_HEAD_FLAG_INDEX status validator.effectiveBalance = _ :=
    flagDelta_ite (hasMarkers status.flags FLAG_PREV_HEAD_ATTESTER_OR_UNSLASHED) leak item.timelyHeadReward 0
  rw [hsource, htarget, hhead]
  cases hflag : hasMarkers status.flags FLAG_PREV_TARGET_ATTESTER_OR_UNSLASHED with
  | true => simp [item, Except.map, pure, Except.pure, bind, Except.bind, addPair]
  | false =>
    cases hscore : getAt typeError state.inactivityScores i with
    | error e => rfl
    | ok score =>
      simp only [Bool.false_eq_true, if_false, hok, addAtOrThrow_ok (hmod₂ _), modify_add_add]
      simp [item, Except.map, pure, Except.pure, bind, Except.bind, addPair, inactivityPenalty]

variable {entry : AttesterStatus × Nat}

theorem flagTurn_eq (process : EpochProcess) (hi : entry.2 < n) (leak : Bool) (flagIndex : Nat) :
    (if hasMarkers entry.1.flags FLAG_ELIGIBLE_ATTESTER then do
      let validator ← getAt typeError process.validators entry.2
      let baseReward := getBaseReward P process validator.effectiveBalance
      if hasMarkers entry.1.flags (flagOf process flagIndex).1 then
        if leak then pure lists
        else do
          let rewardNumerator := baseReward * PARTICIPATION_FLAG_WEIGHTS.getD flagIndex 0 *
            ((flagOf process flagIndex).2 / P.EFFECTIVE_BALANCE_INCREMENT)
          let rewards ← addAtOrThrow lists.1 entry.2 (rewardNumerator /
            (process.totalActiveStake / P.EFFECTIVE_BALANCE_INCREMENT * WEIGHT_DENOMINATOR))
          pure (rewards, lists.2)
      else if flagIndex ≠ TIMELY_HEAD_FLAG_INDEX then do
        let penalties ← addAtOrThrow lists.2 entry.2 (baseReward * PARTICIPATION_FLAG_WEIGHTS.getD flagIndex 0 / WEIGHT_DENOMINATOR)
        pure (lists.1, penalties)
      else pure lists
    else pure lists) = (flagDeltaAt P process leak flagIndex entry).map (addPair lists entry.2) := by
  have hi₁ : entry.2 < lists.1.length := h₁ ▸ hi
  have hi₂ : entry.2 < lists.2.length := h₂ ▸ hi
  unfold flagDeltaAt
  by_cases heligible : hasMarkers entry.1.flags FLAG_ELIGIBLE_ATTESTER = true
  · simp only [if_pos heligible]
    cases hread : getAt typeError process.validators entry.2 with
    | error e => rfl
    | ok validator =>
      simp only [bind, Except.bind, pure, Except.pure, Except.map, flagDelta]
      by_cases hflag : hasMarkers entry.1.flags (flagOf process flagIndex).1 = true
      · simp only [if_pos hflag, addAtOrThrow_ok hi₁]
        cases leak <;> simp [addPair, modify_add_zero]
      · simp only [if_neg hflag, addAtOrThrow_ok hi₂]
        by_cases hhead : flagIndex = TIMELY_HEAD_FLAG_INDEX <;> simp [hhead, addPair, modify_add_zero]
  · simp [heligible, Except.map, pure, Except.pure, addPair, modify_add_zero]

theorem fusedTurn_eq (cfg : ChainConfig) (state : CachedBeaconState P) (process : EpochProcess) (hi : entry.2 < n) :
    (if hasMarkers entry.1.flags FLAG_ELIGIBLE_ATTESTER then do
      let validator ← getAt typeError process.validators entry.2
      rewardsPenaltiesStep cfg state (isInInactivityLeak state.toBeaconState) lists entry.2 entry.1 validator.effectiveBalance
        (rewardPenaltyItemAltair P process validator.effectiveBalance)
    else pure lists) =
      (fusedDeltaAt cfg state process (isInInactivityLeak state.toBeaconState) entry).map (addPair lists entry.2) := by
  by_cases heligible : hasMarkers entry.1.flags FLAG_ELIGIBLE_ATTESTER = true
  · rw [if_pos heligible]
    cases hread : getAt typeError process.validators entry.2 with
    | error e => simp [fusedDeltaAt, flagDeltaAt, heligible, hread, bind, Except.bind, Except.map]
    | ok validator => exact rewardsPenaltiesStep_eq h₁ h₂ hi _ heligible (getAt_eq_ok.1 hread)
  · simp [heligible, fusedDeltaAt, flagDeltaAt, inactivityDeltaAt, bind, Except.bind, pure, Except.pure, Except.map, addPair,
      modify_add_zero]

omit h₁ in
theorem inactivityTurn_eq (cfg : ChainConfig) (state : CachedBeaconState P) (process : EpochProcess) (hi : entry.2 < n) :
    (if hasMarkers entry.1.flags FLAG_ELIGIBLE_ATTESTER && !hasMarkers entry.1.flags FLAG_PREV_TARGET_ATTESTER_OR_UNSLASHED then do
      let validator ← getAt typeError process.validators entry.2
      let inactivityScore ← getAt typeError state.inactivityScores entry.2
      let penaltyDenominator := cfg.INACTIVITY_SCORE_BIAS * P.INACTIVITY_PENALTY_QUOTIENT_ALTAIR
      let penalties ← addAtOrThrow lists.2 entry.2 (validator.effectiveBalance * inactivityScore / penaltyDenominator)
      pure (lists.1, penalties)
    else pure lists) = (inactivityDeltaAt cfg state process entry).map (addPair lists entry.2) := by
  have hi₂ : entry.2 < lists.2.length := h₂ ▸ hi
  unfold inactivityDeltaAt
  split
  · cases getAt typeError process.validators entry.2 with
    | error e => rfl
    | ok validator =>
      cases getAt typeError state.inactivityScores entry.2 with
      | error e => rfl
      | ok score => simp [bind, Except.bind, pure, Except.pure, Except.map, addAtOrThrow_ok hi₂, addPair, modify_add_zero,
          inactivityPenalty]
  · simp [Except.map, pure, Except.pure, addPair, modify_add_zero]

end Turns

/-! ## The loops -/

section Loops

variable (hstatuses : process.statuses.length = state.validators.length)

include hstatuses

theorem getFlagIndexDeltas_eq {flagIndex : Nat} (hflag : flagIndex < 3) : getFlagIndexDeltas state process flagIndex =
    (process.statuses.zipIdx.mapM (flagDeltaAt P process (isInInactivityLeak state.toBeaconState) flagIndex)).map
      fun deltas => (deltas.map (·.1), deltas.map (·.2)) := by
  have hloop := foldlM_addPair (n := process.statuses.length)
    (fun lists entry h₁ h₂ hi => flagTurn_eq (P := P) h₁ h₂ process hi (isInInactivityLeak state.toBeaconState)
      flagIndex) process.statuses [] [] rfl (by simp)
  unfold getFlagIndexDeltas
  rw [← hstatuses]
  rcases flagIndex with _ | _ | _ | n
  · exact hloop
  · exact hloop
  · exact hloop
  · omega

theorem getInactivityPenaltyDeltas_eq : getInactivityPenaltyDeltas cfg state process =
    (process.statuses.zipIdx.mapM (inactivityDeltaAt cfg state process)).map
      fun deltas => (deltas.map (·.1), deltas.map (·.2)) := by
  have hloop := foldlM_addPair (n := process.statuses.length)
    (fun lists entry h₁ h₂ hi => inactivityTurn_eq h₂ cfg state process hi)
    process.statuses [] [] rfl (by simp)
  unfold getInactivityPenaltyDeltas
  rw [← hstatuses]
  exact hloop

theorem getRewardsPenaltiesDeltas_eq : getRewardsPenaltiesDeltas cfg state process =
    (process.statuses.zipIdx.mapM (fusedDeltaAt cfg state process (isInInactivityLeak state.toBeaconState))).map
      fun deltas => (deltas.map (·.1), deltas.map (·.2)) := by
  have hloop := foldlM_addPair (n := process.statuses.length) (fun lists entry h₁ h₂ hi =>
    fusedTurn_eq h₁ h₂ cfg state process hi) process.statuses [] [] rfl (by simp)
  refine Eq.trans ?_ hloop
  unfold getRewardsPenaltiesDeltas
  rw [← hstatuses]
  refine foldlM_lookup (f := rewardPenaltyItemAltair P process) (fun table lists entry htable => ?_) _ _ _ (memoizes_empty _)
  by_cases heligible : hasMarkers entry.1.flags FLAG_ELIGIBLE_ATTESTER = true
  · simp only [if_pos heligible]
    cases hread : getAt typeError process.validators entry.2 with
    | error e => exact ⟨rfl, fun _ h => by cases h⟩
    | ok validator =>
      simp only [bind, Except.bind, lookup_value htable]
      cases hstep : rewardsPenaltiesStep cfg state (isInInactivityLeak state.toBeaconState) lists entry.2 entry.1
          validator.effectiveBalance (rewardPenaltyItemAltair P process validator.effectiveBalance) with
      | error e => exact ⟨rfl, fun _ h => by cases h⟩
      | ok lists' =>
        refine ⟨rfl, fun next h => ?_⟩
        cases h
        exact htable.lookup _
  · simp only [if_neg heligible]
    refine ⟨rfl, fun next h => ?_⟩
    cases h
    exact htable

end Loops

/-! ## The sum -/

def unzipDeltas (deltas : List (Int × Int)) : List Int × List Int := (deltas.map (·.1), deltas.map (·.2))

theorem sumTallies_unzip (ds es : List (Int × Int)) :
    sumTallies (unzipDeltas ds) (unzipDeltas es) = unzipDeltas (List.zipWith (· + ·) ds es) := by
  unfold sumTallies unzipDeltas
  rw [List.zipWith_map, List.zipWith_map, List.map_zipWith, List.map_zipWith]
  rfl

theorem fusedDeltaAt_eq (leak : Bool) : fusedDeltaAt cfg state process leak = fun entry =>
    (((flagDeltaAt P process leak TIMELY_SOURCE_FLAG_INDEX entry >>= fun source =>
      flagDeltaAt P process leak TIMELY_TARGET_FLAG_INDEX entry >>= fun target => pure (source + target)) >>= fun sum =>
        flagDeltaAt P process leak TIMELY_HEAD_FLAG_INDEX entry >>= fun head => pure (sum + head)) >>= fun sum =>
          inactivityDeltaAt cfg state process entry >>= fun inactivity => pure (sum + inactivity)) := by
  funext entry
  simp [fusedDeltaAt]

/-- **The loop for all adds what the loops of the three flags and the loop of the inactivity penalties add**, validator by
validator, and it throws when one of them does. -/
theorem getRewardsPenaltiesDeltas_eq_sum (hstatuses : process.statuses.length = state.validators.length)
    (deltas : List Int × List Int) : getRewardsPenaltiesDeltas cfg state process = .ok deltas ↔
      ∃ source target head inactivity, getFlagIndexDeltas state process TIMELY_SOURCE_FLAG_INDEX = .ok source ∧
        getFlagIndexDeltas state process TIMELY_TARGET_FLAG_INDEX = .ok target ∧
        getFlagIndexDeltas state process TIMELY_HEAD_FLAG_INDEX = .ok head ∧
        getInactivityPenaltyDeltas cfg state process = .ok inactivity ∧
        deltas = sumTallies (sumTallies (sumTallies source target) head) inactivity := by
  rw [getRewardsPenaltiesDeltas_eq hstatuses, getFlagIndexDeltas_eq hstatuses (by decide),
    getFlagIndexDeltas_eq hstatuses (by decide), getFlagIndexDeltas_eq hstatuses (by decide),
    getInactivityPenaltyDeltas_eq hstatuses, fusedDeltaAt_eq]
  simp only [map_eq_ok]
  constructor
  · rintro ⟨ds, hds, rfl⟩
    obtain ⟨_, inactivity, hthree, hinactivity, rfl⟩ := mapM_zipWith_eq_ok.1 hds
    obtain ⟨_, head, htwo, hhead, rfl⟩ := mapM_zipWith_eq_ok.1 hthree
    obtain ⟨source, target, hsource, htarget, rfl⟩ := mapM_zipWith_eq_ok.1 htwo
    refine ⟨_, _, _, _, ⟨source, hsource, rfl⟩, ⟨target, htarget, rfl⟩, ⟨head, hhead, rfl⟩, ⟨inactivity, hinactivity, rfl⟩, ?_⟩
    change unzipDeltas _ = sumTallies (sumTallies (sumTallies (unzipDeltas _) (unzipDeltas _)) (unzipDeltas _)) (unzipDeltas _)
    rw [sumTallies_unzip, sumTallies_unzip, sumTallies_unzip]
  · rintro ⟨_, _, _, _, ⟨source, hsource, rfl⟩, ⟨target, htarget, rfl⟩, ⟨head, hhead, rfl⟩, ⟨inactivity, hinactivity, rfl⟩, rfl⟩
    refine ⟨_, mapM_zipWith_eq_ok.2 ⟨_, _, mapM_zipWith_eq_ok.2 ⟨_, _, mapM_zipWith_eq_ok.2 ⟨_, _, hsource, htarget, rfl⟩, hhead,
      rfl⟩, hinactivity, rfl⟩, ?_⟩
    change unzipDeltas _ = sumTallies (sumTallies (sumTallies (unzipDeltas _) (unzipDeltas _)) (unzipDeltas _)) (unzipDeltas _)
    rw [sumTallies_unzip, sumTallies_unzip, sumTallies_unzip]

/-- An altair state in the last slot of epoch 2.  The first validator has every timely flag, the second no timely target, the third
is slashed, the fourth left, and the last has no flag and a score. -/
def unevenParticipation : BeaconState minimal :=
  let validator := fun (byte : UInt8) (balance : Nat) (slashed : Bool) (exit : ℕ∞) => ({
    pubkey := pubkeyOf byte, withdrawalCredentials := zeroRoot, effectiveBalance := balance, slashed := slashed
    activationEligibilityEpoch := 0, activationEpoch := 0, exitEpoch := exit, withdrawableEpoch := exit + 256 } : Validator)
  let status := fun (head target source : Bool) => ({
    timelyHead := head, timelyTarget := target, timelySource := source } : ParticipationStatus)
  { awaitingDeposit with
    slot := 23
    validators := [validator 1 32000000000 false ⊤, validator 2 31000000000 false ⊤, validator 3 32000000000 true 5,
      validator 4 32000000000 false 1, validator 5 32000000000 false ⊤]
    balances := [32000000000, 31500000000, 32000000000, 32000000000, 10]
    previousEpochParticipation := [status true true true, status false false true, status true true true,
      status false false false, status false false false]
    currentEpochParticipation := List.replicate 5 emptyParticipationStatus
    inactivityScores := [0, 4, 0, 0, 100] }

theorem getRewardsPenaltiesDeltas_eq_sum_uneven : ∃ s process source target head inactivity,
    createCachedBeaconState (plainEnv minimal) (minimalConfig 0) unevenParticipation noOpts = .ok s ∧
    prepareEpochProcessState (minimalConfig 0) s = .ok process ∧
    getFlagIndexDeltas s process TIMELY_SOURCE_FLAG_INDEX = .ok source ∧
    getFlagIndexDeltas s process TIMELY_TARGET_FLAG_INDEX = .ok target ∧
    getFlagIndexDeltas s process TIMELY_HEAD_FLAG_INDEX = .ok head ∧
    getInactivityPenaltyDeltas (minimalConfig 0) s process = .ok inactivity ∧
    sumTallies (sumTallies (sumTallies source target) head) inactivity =
      ([1528617, 604120, 0, 0, 0], [0, 2262301, 3591760, 0, 3607654]) := by
  have heval : (createCachedBeaconState (plainEnv minimal) (minimalConfig 0) unevenParticipation noOpts >>= fun s =>
      (prepareEpochProcessState (minimalConfig 0) s).map fun process =>
        (decide (process.statuses.length = s.validators.length),
          decide (getRewardsPenaltiesDeltas (minimalConfig 0) s process =
            .ok ([1528617, 604120, 0, 0, 0], [0, 2262301, 3591760, 0, 3607654])))) = .ok (true, true) := by
    decide +kernel
  obtain ⟨s, hs, heval⟩ := bind_eq_ok.1 heval
  obtain ⟨process, hprep, heval⟩ := map_eq_ok.1 heval
  obtain ⟨hlength, hdeltas⟩ := Prod.mk.inj heval
  obtain ⟨source, target, head, inactivity, hsource, htarget, hhead, hinactivity, hsum⟩ :=
    (getRewardsPenaltiesDeltas_eq_sum (of_decide_eq_true hlength) _).1 (of_decide_eq_true hdeltas)
  exact ⟨s, process, source, target, head, inactivity, hs, hprep, hsource, htarget, hhead, hinactivity, hsum.symm⟩

end Lodestar.StateTransition
