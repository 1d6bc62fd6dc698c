import Lodestar.Lib.ClampedSums
import Lodestar.StateTransition.EpochTotals
import Lodestar.StateTransition.FlagDeltas
import Lodestar.StateTransition.Justification
/-!
# RewardsPenalties — the balances of altair against the specification

The specification writes the rewards and the penalties of the three flags and of inactivity one after the other, and a balance that a
penalty would take below zero is zero from there on.  The code adds everything first and clamps once.  A balance so small that it
runs out before a later reward ends higher in the specification, and that is the only difference:
`processRewardsAndPenalties_spec_iff`.
-/
namespace Lodestar.StateTransition

open Lib

variable {P : Preset} {cfg : ChainConfig} {s s' : CachedBeaconState P} {process : EpochProcess}

/-! ## The specification -/

def hasFlag (flags : ParticipationStatus) (flagIndex : Nat) : Bool :=
  if flagIndex = TIMELY_SOURCE_FLAG_INDEX then flags.timelySource
  else if flagIndex = TIMELY_TARGET_FLAG_INDEX then flags.timelyTarget
  else decide (flagIndex = TIMELY_HEAD_FLAG_INDEX) && flags.timelyHead

section Specification

variable (s : CachedBeaconState P)

def specGetUnslashedParticipatingIndices (flagIndex epoch : Nat) : Except String (List Nat) := do
  check (epoch == getPreviousEpoch s.toBeaconState || epoch == getCurrentEpoch s.toBeaconState) "AssertionError"
  let epochParticipation := if epoch = getCurrentEpoch s.toBeaconState then s.currentEpochParticipation
    else s.previousEpochParticipation
  let participatingIndices ← (getActiveValidatorIndices s.toBeaconState epoch).filterM fun i => do
    let flags ← getAt "IndexError" epochParticipation i
    pure (hasFlag flags flagIndex)
  participatingIndices.filterM fun index => do
    let validator ← getAt "IndexError" s.validators index
    pure (!validator.slashed)

def specGetBaseRewardAltair (index : Nat) : Except String Nat := do
  let totalBalance ← getTotalActiveBalance s.toBeaconState
  let validator ← getAt "IndexError" s.validators index
  let increments := validator.effectiveBalance / P.EFFECTIVE_BALANCE_INCREMENT
  pure (increments * (P.EFFECTIVE_BALANCE_INCREMENT * P.BASE_REWARD_FACTOR / Nat.sqrt totalBalance))

def specGetFlagIndexDeltas (flagIndex : Nat) : Except String (List Int × List Int) := do
  let previousEpoch := getPreviousEpoch s.toBeaconState
  let unslashedParticipatingIndices ← specGetUnslashedParticipatingIndices s flagIndex previousEpoch
  let weight := PARTICIPATION_FLAG_WEIGHTS.getD flagIndex 0
  let unslashedParticipatingBalance ← getTotalBalance s.toBeaconState unslashedParticipatingIndices
  let unslashedParticipatingIncrements := unslashedParticipatingBalance / P.EFFECTIVE_BALANCE_INCREMENT
  let totalBalance ← getTotalActiveBalance s.toBeaconState
  let activeIncrements := totalBalance / P.EFFECTIVE_BALANCE_INCREMENT
  (specGetEligibleValidatorIndices s).foldlM (fun deltas index => do
    let baseReward ← specGetBaseRewardAltair s index
    if index ∈ unslashedParticipatingIndices then
      if isInInactivityLeak s.toBeaconState then pure deltas
      else do
        let rewardNumerator := baseReward * weight * unslashedParticipatingIncrements
        let rewards ← addAtOrThrow deltas.1 index (rewardNumerator / (activeIncrements * WEIGHT_DENOMINATOR))
        pure (rewards, deltas.2)
    else if flagIndex ≠ TIMELY_HEAD_FLAG_INDEX then do
      let penalties ← addAtOrThrow deltas.2 index (baseReward * weight / WEIGHT_DENOMINATOR)
      pure (deltas.1, penalties)
    else pure deltas) (zeroTallies s.validators.length)

def specGetInactivityPenaltyDeltasAltair (cfg : ChainConfig) : Except String (List Int × List Int) := do
  let previousEpoch := getPreviousEpoch s.toBeaconState
  let matchingTargetIndices ← specGetUnslashedParticipatingIndices s TIMELY_TARGET_FLAG_INDEX previousEpoch
  (specGetEligibleValidatorIndices s).foldlM (fun deltas index =>
    if index ∈ matchingTargetIndices then pure deltas
    else do
      let validator ← getAt "IndexError" s.validators index
      let inactivityScore ← getAt "IndexError" s.inactivityScores index
      let penaltyNumerator := validator.effectiveBalance * inactivityScore
      let penaltyDenominator := cfg.INACTIVITY_SCORE_BIAS * P.INACTIVITY_PENALTY_QUOTIENT_ALTAIR
      let penalties ← addAtOrThrow deltas.2 index (penaltyNumerator / penaltyDenominator)
      pure (deltas.1, penalties)) (zeroTallies s.validators.length)

def specApplyDeltas (deltas : List Int × List Int) : Except String (CachedBeaconState P) :=
  (List.range s.validators.length).foldlM (fun s index => do
    let reward ← getAt "IndexError" deltas.1 index
    let penalty ← getAt "IndexError" deltas.2 index
    let s ← increaseBalance s index reward.toNat
    decreaseBalance s index penalty.toNat) s

def specProcessRewardsAndPenalties (cfg : ChainConfig) : Except String (CachedBeaconState P) := do
  if getCurrentEpoch s.toBeaconState = GENESIS_EPOCH then pure s
  else do
    let flagDeltas ← (List.range PARTICIPATION_FLAG_WEIGHTS.length).mapM (specGetFlagIndexDeltas s)
    let inactivityPenaltyDeltas ← specGetInactivityPenaltyDeltasAltair s cfg
    (flagDeltas ++ [inactivityPenaltyDeltas]).foldlM specApplyDeltas s

end Specification

/-! ## What a validator gets -/

def isUnslashedParticipant (s : CachedBeaconState P) (flagIndex i : Nat) : Bool :=
  (s.validators[i]?).any fun v => isActiveValidator v (getPreviousEpoch s.toBeaconState) && !v.slashed &&
    (s.previousEpochParticipation[i]?).any (hasFlag · flagIndex)

def baseRewardAltair (P : Preset) (totalBalance effectiveBalance : Nat) : Nat :=
  effectiveBalance / P.EFFECTIVE_BALANCE_INCREMENT *
    (P.EFFECTIVE_BALANCE_INCREMENT * P.BASE_REWARD_FACTOR / Nat.sqrt totalBalance)

section

variable (s : CachedBeaconState P) (totalBalance flagIndex i : Nat)

def flagReward : Nat :=
  let participating := totalOf P s.validators ((List.range s.validators.length).filter (isUnslashedParticipant s flagIndex))
  baseRewardAltair P totalBalance (effectiveBalanceOf s.validators i) * PARTICIPATION_FLAG_WEIGHTS.getD flagIndex 0 *
    (participating / P.EFFECTIVE_BALANCE_INCREMENT) / (totalBalance / P.EFFECTIVE_BALANCE_INCREMENT * WEIGHT_DENOMINATOR)

def flagPenalty : Nat :=
  baseRewardAltair P totalBalance (effectiveBalanceOf s.validators i) * PARTICIPATION_FLAG_WEIGHTS.getD flagIndex 0 /
    WEIGHT_DENOMINATOR

def inactivityPenaltyOf (cfg : ChainConfig) (s : CachedBeaconState P) (i : Nat) : Nat :=
  effectiveBalanceOf s.validators i * s.inactivityScores.getD i 0 /
    (cfg.INACTIVITY_SCORE_BIAS * P.INACTIVITY_PENALTY_QUOTIENT_ALTAIR)

def flagAmounts : Int × Int :=
  if isEligible s i then
    if isUnslashedParticipant s flagIndex i then
      (if isInInactivityLeak s.toBeaconState then 0 else (flagReward s totalBalance flagIndex i : Int), 0)
    else (0, if flagIndex = TIMELY_HEAD_FLAG_INDEX then 0 else (flagPenalty s totalBalance flagIndex i : Int))
  else 0

end

def inactivityAmounts (cfg : ChainConfig) (s : CachedBeaconState P) (i : Nat) : Int × Int :=
  if isEligible s i && !isUnslashedParticipant s TIMELY_TARGET_FLAG_INDEX i then (0, (inactivityPenaltyOf cfg s i : Int)) else 0

/-! ## The deltas of the specification -/

/-- The state the rewards are computed on is past the genesis epoch and its lists are in line with the registry. -/
structure Rewardable (s : CachedBeaconState P) : Prop where
  past : getCurrentEpoch s.toBeaconState ≠ GENESIS_EPOCH
  balances : s.balances.length = s.validators.length
  participation : s.previousEpochParticipation.length = s.validators.length
  scores : s.inactivityScores.length = s.validators.length

variable {totalBalance i effectiveBalance balance : Nat}

theorem specGetBaseRewardAltair_eq (htotal : getTotalActiveBalance s.toBeaconState = .ok totalBalance)
    (hi : i < s.validators.length) :
    specGetBaseRewardAltair s i = .ok (baseRewardAltair P totalBalance (effectiveBalanceOf s.validators i)) := by
  have hread : getAt "IndexError" s.validators i = .ok s.validators[i] := getAt_eq_ok.2 (List.getElem?_eq_getElem hi)
  unfold specGetBaseRewardAltair
  rw [htotal, hread, effectiveBalanceOf_eq (List.getElem?_eq_getElem hi)]
  rfl

theorem addTo_eligible {amount : Nat → Int} (hnone : ∀ i, isEligible s i = false → amount i = 0) (n : Nat) :
    addTo (List.replicate n 0) ((List.range n).flatMap fun i => if isEligible s i then [(i, amount i)] else []) =
      (List.range n).map amount := by
  rw [addTo_own]
  · congr 1
    funext i
    by_cases hi : isEligible s i = true
    · simp [hi]
    · simp [hi, hnone i (Bool.eq_false_iff.2 hi)]
  · intro i entry hentry
    by_cases hi : isEligible s i = true
    · simp [List.mem_singleton.1 (by simpa [hi] using hentry : entry ∈ [(i, amount i)])]
    · simp [hi] at hentry

theorem eligibleLoop_eq {step : List Int × List Int → Nat → Except String (List Int × List Int)} {amounts : Nat → Int × Int}
    (hnone : ∀ i, isEligible s i = false → amounts i = 0)
    (hstep : ∀ i < s.validators.length, isEligible s i = true → ∀ deltas : List Int × List Int,
      deltas.1.length = s.validators.length → deltas.2.length = s.validators.length →
      step deltas i = .ok (addToBoth deltas [(i, (amounts i).1)] [(i, (amounts i).2)])) :
    (specGetEligibleValidatorIndices s).foldlM step (zeroTallies s.validators.length) =
      .ok (unzipDeltas ((List.range s.validators.length).map amounts)) := by
  rw [isEligible_eq]
  refine (foldlM_addToBoth (n := s.validators.length) (fun _ => True) (fun i => if isEligible s i then [(i, (amounts i).1)] else [])
    (fun i => if isEligible s i then [(i, (amounts i).2)] else []) _ _ _ (fun i hi tallies tallies' h₁ h₂ => ?_)
    (by simp [zeroTallies]) (by simp [zeroTallies])).2 ⟨fun _ _ => trivial, ?_⟩
  · obtain ⟨hi, heligible⟩ := List.mem_filter.1 hi
    rw [hstep i (List.mem_range.1 hi) heligible tallies h₁ h₂, ok_eq_ok_comm]
    simp [heligible]
  · rw [flatMap_filter fun i hi => by simp [hi], flatMap_filter fun i hi => by simp [hi]]
    unfold addToBoth zeroTallies unzipDeltas
    rw [addTo_eligible fun i hi => by rw [hnone i hi]; rfl, addTo_eligible fun i hi => by rw [hnone i hi]; rfl, List.map_map,
      List.map_map]
    rfl

section SpecDeltas

variable (hs : Rewardable s)

include hs

theorem specGetUnslashedParticipatingIndices_eq (flagIndex : Nat) :
    specGetUnslashedParticipatingIndices s flagIndex (getPreviousEpoch s.toBeaconState) =
      .ok ((List.range s.validators.length).filter (isUnslashedParticipant s flagIndex)) := by
  have hne : getPreviousEpoch s.toBeaconState ≠ getCurrentEpoch s.toBeaconState := by
    have hpast := hs.past
    have hgenesis : GENESIS_EPOCH = 0 := rfl
    unfold getPreviousEpoch
    simp only [if_neg hpast]
    omega
  have hactive : getActiveValidatorIndices s.toBeaconState (getPreviousEpoch s.toBeaconState) = (List.range s.validators.length).filter
      fun i => (s.validators[i]?).any (isActiveValidator · (getPreviousEpoch s.toBeaconState)) := indicesWhere_eq _ _
  have hflags : ∀ l : List Nat, (∀ i ∈ l, i < s.validators.length) → (l.filterM fun i => do
      let flags ← getAt "IndexError" s.previousEpochParticipation i
      pure (hasFlag flags flagIndex)) = .ok (l.filter fun i => (s.previousEpochParticipation[i]?).any (hasFlag · flagIndex)) := by
    refine fun l hl => filterM_eq_filter fun i hi => ?_
    have hi := List.getElem?_eq_getElem (hs.participation ▸ hl i hi)
    rw [getAt_eq_ok.2 hi, hi]
    rfl
  have hunslashed : ∀ l : List Nat, (∀ i ∈ l, i < s.validators.length) → (l.filterM fun i => do
      let validator ← getAt "IndexError" s.validators i
      pure (!validator.slashed)) = .ok (l.filter fun i => (s.validators[i]?).any (!·.slashed)) := by
    refine fun l hl => filterM_eq_filter fun i hi => ?_
    have hi := List.getElem?_eq_getElem (hl i hi)
    rw [getAt_eq_ok.2 hi, hi]
    rfl
  have hread : ∀ i ∈ List.range s.validators.length, i < s.validators.length := fun i hi => List.mem_range.1 hi
  unfold specGetUnslashedParticipatingIndices
  simp only [check, BEq.rfl, Bool.true_or, if_true, if_neg hne, bind, Except.bind]
  simp only [bind, Except.bind] at hflags hunslashed
  rw [hactive, hflags _ fun i hi => hread i (List.mem_filter.1 hi).1]
  dsimp only
  rw [hunslashed _ fun i hi => hread i (List.mem_filter.1 (List.mem_filter.1 hi).1).1, List.filter_filter, List.filter_filter]
  congr 1
  apply List.filter_congr
  intro i hi
  obtain ⟨v, hv⟩ : ∃ v, s.validators[i]? = some v := ⟨_, List.getElem?_eq_getElem (hread i hi)⟩
  unfold isUnslashedParticipant
  rw [hv]
  simp only [Option.any_some]
  cases isActiveValidator v (getPreviousEpoch s.toBeaconState) <;> cases v.slashed <;> simp

omit hs in
theorem mem_participants {flagIndex i : Nat} (hi : i < s.validators.length) :
    i ∈ (List.range s.validators.length).filter (isUnslashedParticipant s flagIndex) ↔ isUnslashedParticipant s flagIndex i = true := by
  rw [List.mem_filter, List.mem_range]
  exact and_iff_right hi

theorem specGetFlagIndexDeltas_eq {totalBalance : Nat} (htotal : getTotalActiveBalance s.toBeaconState = .ok totalBalance)
    (flagIndex : Nat) : specGetFlagIndexDeltas s flagIndex =
      .ok (unzipDeltas ((List.range s.validators.length).map (flagAmounts s totalBalance flagIndex))) := by
  unfold specGetFlagIndexDeltas
  dsimp only
  rw [specGetUnslashedParticipatingIndices_eq hs, htotal]
  dsimp only [bind, Except.bind]
  rw [getTotalBalance_eq fun _ hi => List.mem_range.1 (List.mem_filter.1 hi).1]
  refine eligibleLoop_eq (fun i hi => by simp [flagAmounts, hi]) fun i hi heligible deltas h₁ h₂ => ?_
  rw [specGetBaseRewardAltair_eq htotal hi]
  simp only [mem_participants hi, addAtOrThrow_inside h₁ hi, addAtOrThrow_inside h₂ hi]
  unfold flagAmounts addToBoth
  rw [if_pos heligible]
  by_cases hflag : isUnslashedParticipant s flagIndex i = true
  · simp only [if_pos hflag]
    by_cases hleak : isInInactivityLeak s.toBeaconState = true
    · simp [hleak, addTo, modify_add_zero, pure, Except.pure]
    · simp [hleak, addTo, modify_add_zero, pure, Except.pure, flagReward]
  · simp only [if_neg hflag]
    by_cases hhead : flagIndex = TIMELY_HEAD_FLAG_INDEX
    · simp [hhead, addTo, modify_add_zero, pure, Except.pure]
    · simp [hhead, addTo, modify_add_zero, pure, Except.pure, flagPenalty]

theorem specGetInactivityPenaltyDeltasAltair_eq : specGetInactivityPenaltyDeltasAltair s cfg =
    .ok (unzipDeltas ((List.range s.validators.length).map (inactivityAmounts cfg s))) := by
  unfold specGetInactivityPenaltyDeltasAltair
  dsimp only
  rw [specGetUnslashedParticipatingIndices_eq hs]
  dsimp only [bind, Except.bind]
  refine eligibleLoop_eq (fun i hi => by simp [inactivityAmounts, hi]) fun i hi heligible deltas h₁ h₂ => ?_
  have hread : getAt "IndexError" s.validators i = .ok s.validators[i] := getAt_eq_ok.2 (List.getElem?_eq_getElem hi)
  have hi' : i < s.inactivityScores.length := hs.scores ▸ hi
  have hscore : getAt "IndexError" s.inactivityScores i = .ok s.inactivityScores[i] := getAt_eq_ok.2 (List.getElem?_eq_getElem hi')
  have hgetD : s.inactivityScores.getD i 0 = s.inactivityScores[i] := by simp [List.getD, hi']
  rw [hread, hscore]
  simp only [mem_participants hi, addAtOrThrow_inside h₂ hi]
  unfold inactivityAmounts addToBoth inactivityPenaltyOf
  rw [heligible, effectiveBalanceOf_eq (List.getElem?_eq_getElem hi), hgetD]
  by_cases hflag : isUnslashedParticipant s TIMELY_TARGET_FLAG_INDEX i = true <;>
    simp [hflag, addTo, modify_add_zero, pure, Except.pure]

end SpecDeltas

/-! ## The balances of the specification -/

def withDelta (balance : Nat) (delta : Int × Int) : Nat := balance + delta.1.toNat - delta.2.toNat

theorem specApplyDeltas_eq {t : CachedBeaconState P} (hlength : t.balances.length = t.validators.length) (amounts : Nat → Int × Int) :
    specApplyDeltas t (unzipDeltas ((List.range t.validators.length).map amounts)) =
      .ok { t with balances := t.balances.mapIdx fun i balance => withDelta balance (amounts i) } := by
  unfold specApplyDeltas unzipDeltas
  rw [foldlM_eq_foldl (I := fun u => u.balances.length = t.validators.length)
    fun u i => { u with balances := u.balances.modify i (withDelta · (amounts i)) }]
  · have hfold : (List.range t.validators.length).foldl
        (fun u i => { u with balances := u.balances.modify i (withDelta · (amounts i)) }) { t with balances := t.balances } =
        { t with balances :=
          (List.range t.validators.length).foldl (fun l i => l.modify i (withDelta · (amounts i))) t.balances } :=
      List.foldl_hom (fun balances => { t with balances := balances }) fun _ _ => rfl
    have hrange := foldl_range_modify (fun i balance => withDelta balance (amounts i)) t.balances
    rw [hlength] at hrange
    rw [hrange] at hfold
    exact congrArg Except.ok hfold
  · intro i hi u hu
    have hi := List.mem_range.1 hi
    have hin : i < u.balances.length := hu ▸ hi
    have hreward : getAt "IndexError" (((List.range t.validators.length).map amounts).map (·.1)) i = .ok (amounts i).1 := by
      simp [getAt_eq_ok, hi]
    have hpenalty : getAt "IndexError" (((List.range t.validators.length).map amounts).map (·.2)) i = .ok (amounts i).2 := by
      simp [getAt_eq_ok, hi]
    refine ⟨?_, by simpa using hu⟩
    simp only [hreward, hpenalty, bind, Except.bind, increaseBalance, decreaseBalance, modifyAt, if_pos hin, pure, Except.pure,
      List.length_modify, List.modify_modify_eq]
    congr 4
    funext balance
    unfold withDelta
    dsimp only [Function.comp]
    split <;> omega
  · exact hlength

theorem foldlM_specApplyDeltas : ∀ (sets : List (Nat → Int × Int)) {t : CachedBeaconState P},
    t.balances.length = t.validators.length →
    (sets.map fun amounts => unzipDeltas ((List.range t.validators.length).map amounts)).foldlM specApplyDeltas t =
      .ok { t with balances := t.balances.mapIdx fun i balance => (sets.map (· i)).foldl withDelta balance }
  | [], t, _ => by
    have hsame : t.balances.mapIdx (fun _ balance => balance) = t.balances := by
      apply List.ext_getElem?
      simp
    simp [pure, Except.pure, hsame]
  | amounts :: sets, t, hlength => by
    have hrest := foldlM_specApplyDeltas sets
      (t := { t with balances := t.balances.mapIdx fun i balance => withDelta balance (amounts i) }) (by simpa using hlength)
    rw [List.map_cons, List.foldlM_cons, specApplyDeltas_eq hlength]
    refine hrest.trans ?_
    rw [List.mapIdx_mapIdx]
    rfl

def deltaSets (cfg : ChainConfig) (s : CachedBeaconState P) (totalBalance : Nat) : List (Nat → Int × Int) :=
  [flagAmounts s totalBalance TIMELY_SOURCE_FLAG_INDEX, flagAmounts s totalBalance TIMELY_TARGET_FLAG_INDEX,
    flagAmounts s totalBalance TIMELY_HEAD_FLAG_INDEX, inactivityAmounts cfg s]

def totalDelta (cfg : ChainConfig) (s : CachedBeaconState P) (totalBalance i : Nat) : Int × Int :=
  ((deltaSets cfg s totalBalance).map (· i)).sum

theorem specProcessRewardsAndPenalties_eq (cfg : ChainConfig) (hs : Rewardable s)
    (htotal : getTotalActiveBalance s.toBeaconState = .ok totalBalance) : specProcessRewardsAndPenalties s cfg =
      .ok { s with balances := s.balances.mapIdx fun i balance =>
        ((deltaSets cfg s totalBalance).map (· i)).foldl withDelta balance } := by
  have hweights : List.range PARTICIPATION_FLAG_WEIGHTS.length =
      [TIMELY_SOURCE_FLAG_INDEX, TIMELY_TARGET_FLAG_INDEX, TIMELY_HEAD_FLAG_INDEX] := rfl
  unfold specProcessRewardsAndPenalties
  rw [if_neg hs.past, hweights, mapM_eq_map _ fun flagIndex _ => specGetFlagIndexDeltas_eq hs htotal flagIndex,
    specGetInactivityPenaltyDeltasAltair_eq hs, ← foldlM_specApplyDeltas _ hs.balances]
  rfl

/-! ## The balances of the code -/

/-- An altair state past the genesis epoch with its context, and the record prepared before justification moved and the inactivity
scores were updated.  Only validators active in the previous epoch have flags of it. -/
structure PreparedAltair (cfg : ChainConfig) (s : CachedBeaconState P) (process : EpochProcess) : Prop extends Rewardable s where
  fork : getForkName P cfg s.slot = .altair
  currentEpoch : s.epochCtx.currentShuffling.epoch = getCurrentEpoch s.toBeaconState
  previousEpoch : s.epochCtx.previousShuffling.epoch = getPreviousEpoch s.toBeaconState
  flags : ∀ (i : Nat) (v : Validator) (participation : ParticipationStatus), s.validators[i]? = some v → s.previousEpochParticipation[i]? = some participation →
    participation = emptyParticipationStatus ∨ isActiveValidator v (getPreviousEpoch s.toBeaconState) = true
  prepared : ∃ f scores, prepareEpochProcessState cfg { s.withFinality f with inactivityScores := scores } = .ok process

namespace PreparedAltair

variable (hp : PreparedAltair cfg s process)

include hp

theorem prepared_self : prepareEpochProcessState cfg s = .ok process := by
  obtain ⟨f, scores, hprepared⟩ := hp.prepared
  exact hprepared

theorem participant_eq {flag : ParticipationStatus → Bool} {flagIndex i : Nat} {v : Validator} (hv : s.validators[i]? = some v)
    (hflag : (hasFlag · flagIndex) = flag) (hnone : flag emptyParticipationStatus = false) :
    (participatedPrevious s i flag && !v.slashed) = isUnslashedParticipant s flagIndex i := by
  unfold isUnslashedParticipant participatedPrevious
  rw [hv, hflag, Option.any_some]
  cases hparticipation : s.previousEpochParticipation[i]? with
  | none => simp
  | some participation =>
    rcases hp.flags i v participation hv hparticipation with rfl | hactive
    · simp [hnone]
    · simp [hactive, Bool.and_comm]

variable {i : Nat} {status : AttesterStatus}

theorem markers (hstatus : process.statuses[i]? = some status) :
    hasMarkers status.flags FLAG_ELIGIBLE_ATTESTER = isEligible s i ∧ ∀ flagIndex < 3,
      hasMarkers status.flags (flagOf process flagIndex).1 = isUnslashedParticipant s flagIndex i := by
  have hi : i < s.validators.length :=
    prepareEpochProcessState_length hp.prepared_self ▸ (List.getElem?_eq_some_iff.1 hstatus).1
  have hv := List.getElem?_eq_getElem hi
  obtain ⟨status', hstatus', hspeaks⟩ := altair_status hp.prepared_self hp.fork hv
  obtain rfl : status' = status := Option.some.inj (hstatus'.symm.trans hstatus)
  refine ⟨?_, fun flagIndex hflag => ?_⟩
  · rw [hspeaks.eligible, hp.previousEpoch]
    simp [isEligible, hv]
  · rcases flagIndex with _ | _ | _ | n
    · exact hspeaks.source.trans (hp.participant_eq hv rfl rfl)
    · exact hspeaks.target.trans (hp.participant_eq hv rfl rfl)
    · exact hspeaks.head.trans (hp.participant_eq hv rfl rfl)
    · omega

variable {flagIndex : Nat}

theorem flagStake (hflag : flagIndex < 3) : (flagOf process flagIndex).2 =
    totalOf P s.validators ((List.range s.validators.length).filter (isUnslashedParticipant s flagIndex)) := by
  obtain ⟨-, -, -, hstake⟩ := prepareEpochProcessState_statuses hp.prepared_self
  have hlength := prepareEpochProcessState_length hp.prepared_self
  have hstakes := stakeWith_eq (P := P) hlength fun i status h => (hp.markers h).2 flagIndex hflag
  rw [← hstakes]
  unfold flagOf
  rw [hstake]
  rcases flagIndex with _ | _ | _ | n
  · rfl
  · rfl
  · rfl
  · omega

theorem flagDeltaAt_eq (hflag : flagIndex < 3) (hstatus : process.statuses[i]? = some status) :
    flagDeltaAt P process (isInInactivityLeak s.toBeaconState) flagIndex (status, i) =
      .ok (flagAmounts s process.totalActiveStake flagIndex i) := by
  have hi : i < s.validators.length :=
    prepareEpochProcessState_length hp.prepared_self ▸ (List.getElem?_eq_some_iff.1 hstatus).1
  obtain ⟨heligible, hmarkers⟩ := hp.markers hstatus
  have hread : getAt typeError process.validators i = .ok s.validators[i] := by
    rw [(prepareEpochProcessState_ok hp.prepared_self).1.validators, getAt_eq_ok, List.getElem?_eq_getElem hi]
  have hbase : getBaseReward P process s.validators[i].effectiveBalance =
      baseRewardAltair P process.totalActiveStake (effectiveBalanceOf s.validators i) := by
    unfold getBaseReward baseRewardAltair
    rw [(prepareEpochProcessState_statuses hp.prepared_self).2.2.1, effectiveBalanceOf_eq (List.getElem?_eq_getElem hi)]
    unfold computeBaseRewardPerIncrement
    rw [Util.bigIntSqrt_eq]
  unfold flagDeltaAt flagAmounts
  rw [heligible, hread]
  by_cases he : isEligible s i = true
  · rw [if_pos he, if_pos he]
    dsimp only [bind, Except.bind, flagDelta]
    rw [hmarkers flagIndex hflag, hbase, hp.flagStake hflag]
    rfl
  · rw [if_neg he, if_neg he]
    rfl

theorem inactivityDeltaAt_eq (hstatus : process.statuses[i]? = some status) :
    inactivityDeltaAt cfg s process (status, i) = .ok (inactivityAmounts cfg s i) := by
  have hi : i < s.validators.length :=
    prepareEpochProcessState_length hp.prepared_self ▸ (List.getElem?_eq_some_iff.1 hstatus).1
  have hi' : i < s.inactivityScores.length := hp.scores ▸ hi
  have hread : getAt typeError process.validators i = .ok s.validators[i] := by
    rw [(prepareEpochProcessState_ok hp.prepared_self).1.validators, getAt_eq_ok, List.getElem?_eq_getElem hi]
  have hscore : getAt typeError s.inactivityScores i = .ok s.inactivityScores[i] := getAt_eq_ok.2 (List.getElem?_eq_getElem hi')
  have hgetD : s.inactivityScores.getD i 0 = s.inactivityScores[i] := by simp [List.getD, hi']
  obtain ⟨heligible, hmarkers⟩ := hp.markers hstatus
  have htarget : hasMarkers status.flags FLAG_PREV_TARGET_ATTESTER_OR_UNSLASHED =
      isUnslashedParticipant s TIMELY_TARGET_FLAG_INDEX i := hmarkers TIMELY_TARGET_FLAG_INDEX (by decide)
  unfold inactivityDeltaAt inactivityAmounts inactivityPenaltyOf
  rw [heligible, htarget, hread, hscore, effectiveBalanceOf_eq (List.getElem?_eq_getElem hi), hgetD]
  by_cases h : (isEligible s i && !isUnslashedParticipant s TIMELY_TARGET_FLAG_INDEX i) = true
  · rw [if_pos h, if_pos h]
    rfl
  · rw [if_neg h, if_neg h]
    rfl

theorem getRewardsPenaltiesDeltas_eq_amounts : getRewardsPenaltiesDeltas cfg s process = .ok (unzipDeltas
    ((List.range s.validators.length).map (totalDelta cfg s process.totalActiveStake))) := by
  have hlength := prepareEpochProcessState_length hp.prepared_self
  have hturns : ∀ entry ∈ process.statuses.zipIdx, fusedDeltaAt cfg s process (isInInactivityLeak s.toBeaconState) entry =
      .ok (totalDelta cfg s process.totalActiveStake entry.2) := by
    intro entry hentry
    have hstatus := List.mem_zipIdx_iff_getElem?.1 hentry
    unfold fusedDeltaAt
    rw [hp.flagDeltaAt_eq (by decide) hstatus, hp.flagDeltaAt_eq (by decide) hstatus, hp.flagDeltaAt_eq (by decide) hstatus,
      hp.inactivityDeltaAt_eq hstatus]
    simp [totalDelta, deltaSets, bind, Except.bind, pure, Except.pure, add_assoc]
  have hrange : process.statuses.zipIdx.map (fun entry => totalDelta cfg s process.totalActiveStake entry.2) =
      (List.range process.statuses.length).map (totalDelta cfg s process.totalActiveStake) := by
    rw [List.range_eq_range', ← List.zipIdx_map_snd 0 process.statuses, List.map_map]
    rfl
  rw [getRewardsPenaltiesDeltas_eq hlength, mapM_eq_map _ hturns, hrange, ← hlength]
  rfl

end PreparedAltair

theorem applyDeltas_eq (balances : List Nat) (amounts : Nat → Int × Int) :
    applyDeltas balances (unzipDeltas ((List.range balances.length).map amounts)) =
      .ok (balances.mapIdx fun i balance => applyDelta balance (amounts i).1 (amounts i).2) := by
  unfold applyDeltas unzipDeltas
  rw [mapM_eq_map (g := fun entry => applyDelta entry.1 (amounts entry.2).1 (amounts entry.2).2), List.mapIdx_eq_zipIdx_map]
  intro entry hentry
  have hi := (List.getElem?_eq_some_iff.1 (List.mem_zipIdx_iff_getElem?.1 hentry)).1
  have hreward : getAt "RangeError" (((List.range balances.length).map amounts).map (·.1)) entry.2 = .ok (amounts entry.2).1 := by
    simp [getAt_eq_ok, hi]
  have hpenalty : getAt "RangeError" (((List.range balances.length).map amounts).map (·.2)) entry.2 = .ok (amounts entry.2).2 := by
    simp [getAt_eq_ok, hi]
  rw [hreward, hpenalty]
  rfl

theorem processRewardsAndPenalties_eq (hp : PreparedAltair cfg s process) :
    ∃ process', processRewardsAndPenalties cfg .altair s process = .ok ({ s with
      balances := s.balances.mapIdx fun i balance => applyDelta balance (totalDelta cfg s process.totalActiveStake i).1
        (totalDelta cfg s process.totalActiveStake i).2 }, process') := by
  have happly := applyDeltas_eq s.balances (totalDelta cfg s process.totalActiveStake)
  rw [hp.balances] at happly
  unfold processRewardsAndPenalties epochDeltas
  rw [hp.getRewardsPenaltiesDeltas_eq_amounts]
  simp only [if_neg hp.past, Functor.map, Except.map, bind, Except.bind, happly]
  exact ⟨_, rfl⟩

/-! ## Where they agree -/

def net (delta : Int × Int) : Int := delta.1 - delta.2

/-- A balance that does not run out before a later gain: where the penalties of the source, or of the source and the target, are more
than there is, the sets after them take no less than they give.  And it stays within 64 bits. -/
structure NeverShort (cfg : ChainConfig) (s : CachedBeaconState P) (totalBalance i balance : Nat) : Prop where
  source : 0 ≤ balance + net (flagAmounts s totalBalance TIMELY_SOURCE_FLAG_INDEX i) ∨
    net (flagAmounts s totalBalance TIMELY_TARGET_FLAG_INDEX i) + net (flagAmounts s totalBalance TIMELY_HEAD_FLAG_INDEX i) +
      net (inactivityAmounts cfg s i) ≤ 0
  target : 0 ≤ balance + net (flagAmounts s totalBalance TIMELY_SOURCE_FLAG_INDEX i) +
      net (flagAmounts s totalBalance TIMELY_TARGET_FLAG_INDEX i) ∨
    net (flagAmounts s totalBalance TIMELY_HEAD_FLAG_INDEX i) + net (inactivityAmounts cfg s i) ≤ 0
  fits : balance + net (flagAmounts s totalBalance TIMELY_SOURCE_FLAG_INDEX i) +
    net (flagAmounts s totalBalance TIMELY_TARGET_FLAG_INDEX i) + net (flagAmounts s totalBalance TIMELY_HEAD_FLAG_INDEX i) +
      net (inactivityAmounts cfg s i) < 2 ^ 64

instance (cfg : ChainConfig) (s : CachedBeaconState P) (totalBalance i balance : Nat) :
    Decidable (NeverShort cfg s totalBalance i balance) :=
  decidable_of_iff ((0 ≤ balance + net (flagAmounts s totalBalance TIMELY_SOURCE_FLAG_INDEX i) ∨
      net (flagAmounts s totalBalance TIMELY_TARGET_FLAG_INDEX i) + net (flagAmounts s totalBalance TIMELY_HEAD_FLAG_INDEX i) +
        net (inactivityAmounts cfg s i) ≤ 0) ∧
    (0 ≤ balance + net (flagAmounts s totalBalance TIMELY_SOURCE_FLAG_INDEX i) +
        net (flagAmounts s totalBalance TIMELY_TARGET_FLAG_INDEX i) ∨
      net (flagAmounts s totalBalance TIMELY_HEAD_FLAG_INDEX i) + net (inactivityAmounts cfg s i) ≤ 0) ∧
    balance + net (flagAmounts s totalBalance TIMELY_SOURCE_FLAG_INDEX i) +
      net (flagAmounts s totalBalance TIMELY_TARGET_FLAG_INDEX i) + net (flagAmounts s totalBalance TIMELY_HEAD_FLAG_INDEX i) +
        net (inactivityAmounts cfg s i) < 2 ^ 64)
    ⟨fun h => ⟨h.1, h.2.1, h.2.2⟩, fun h => ⟨h.source, h.target, h.fits⟩⟩

theorem cast_foldl_withDelta : ∀ (deltas : List (Int × Int)) (balance : Nat), (∀ delta ∈ deltas, 0 ≤ delta.1 ∧ 0 ≤ delta.2) →
    ((deltas.foldl withDelta balance : Nat) : Int) = (deltas.map net).foldl addClamped (balance : Int)
  | [], _, _ => rfl
  | delta :: deltas, balance, h => by
    obtain ⟨hreward, hpenalty⟩ := h delta List.mem_cons_self
    have hfirst : ((withDelta balance delta : Nat) : Int) = addClamped (balance : Int) (net delta) := by
      unfold withDelta addClamped net
      omega
    rw [List.foldl_cons, cast_foldl_withDelta deltas _ fun d hd => h d (List.mem_cons_of_mem delta hd), List.map_cons,
      List.foldl_cons, hfirst]

theorem flagAmounts_nonneg (s : CachedBeaconState P) (totalBalance flagIndex i : Nat) :
    0 ≤ (flagAmounts s totalBalance flagIndex i).1 ∧ 0 ≤ (flagAmounts s totalBalance flagIndex i).2 := by
  unfold flagAmounts
  split
  · split
    · split <;> simp
    · split <;> simp
  · simp

theorem inactivityAmounts_sign (cfg : ChainConfig) (s : CachedBeaconState P) (i : Nat) :
    (inactivityAmounts cfg s i).1 = 0 ∧ 0 ≤ (inactivityAmounts cfg s i).2 := by
  unfold inactivityAmounts
  split <;> simp

theorem sum_net (deltas : List (Int × Int)) : (deltas.map net).sum = deltas.sum.1 - deltas.sum.2 := by
  induction deltas with
  | nil => rfl
  | cons delta deltas ih =>
    rw [List.map_cons, List.sum_cons, List.sum_cons, ih]
    unfold net
    dsimp only [Prod.fst_add, Prod.snd_add]
    omega

theorem forall_split_four {a b c d total : Int} (hd : d ≤ 0) (htotal : 0 ≤ total) :
    (∀ before after, [a, b, c, d] = before ++ after → after.sum ≤ 0 ∨ 0 ≤ total + before.sum) ↔
      (0 ≤ total + a ∨ b + c + d ≤ 0) ∧ (0 ≤ total + a + b ∨ c + d ≤ 0) := by
  constructor
  · intro h
    have hfirst := h [a] [b, c, d] rfl
    have hsecond := h [a, b] [c, d] rfl
    simp only [List.sum_cons, List.sum_nil] at hfirst hsecond
    omega
  · rintro ⟨hfirst, hsecond⟩ before after hsplit
    have htake : before = [a, b, c, d].take before.length := by rw [hsplit, List.take_left]
    have hdrop : after = [a, b, c, d].drop before.length := by rw [hsplit, List.drop_left]
    have hlength : before.length ≤ 4 := by
      have htotal := congrArg List.length hsplit
      rw [List.length_append] at htotal
      exact (Nat.le_add_right _ _).trans htotal.ge
    rw [htake, hdrop]
    generalize before.length = n at hlength
    obtain rfl | rfl | rfl | rfl | rfl : n = 0 ∨ n = 1 ∨ n = 2 ∨ n = 3 ∨ n = 4 := by omega
    all_goals simp <;> omega

theorem applyDelta_eq_foldl_iff {deltas : List (Int × Int)} (hnonneg : ∀ delta ∈ deltas, 0 ≤ delta.1 ∧ 0 ≤ delta.2) (balance : Nat) :
    applyDelta balance deltas.sum.1 deltas.sum.2 = deltas.foldl withDelta balance ↔
      (∀ before after, deltas.map net = before ++ after → after.sum ≤ 0 ∨ 0 ≤ (balance : Int) + before.sum) ∧
        (balance : Int) + (deltas.map net).sum < 2 ^ 64 := by
  have hfold := cast_foldl_withDelta deltas balance hnonneg
  have hge := ((foldl_addClamped_le_iff (deltas.map net) (balance : Int) _).1 le_rfl).1
  rw [← foldl_addClamped_eq_iff _ (Int.natCast_nonneg balance), ← hfold]
  rw [← hfold] at hge
  have hsum := sum_net deltas
  generalize deltas.foldl withDelta balance = balance' at hge
  unfold applyDelta
  dsimp only
  split
  · rename_i hpos
    omega
  · rename_i hneg
    omega

theorem applyDelta_eq_iff (cfg : ChainConfig) (s : CachedBeaconState P) (totalBalance i balance : Nat) :
    applyDelta balance (totalDelta cfg s totalBalance i).1 (totalDelta cfg s totalBalance i).2 =
      ((deltaSets cfg s totalBalance).map (· i)).foldl withDelta balance ↔ NeverShort cfg s totalBalance i balance := by
  have hinactivity := inactivityAmounts_sign cfg s i
  have hloss : net (inactivityAmounts cfg s i) ≤ 0 := by
    unfold net
    omega
  have hnets : ((deltaSets cfg s totalBalance).map (· i)).map net = [net (flagAmounts s totalBalance TIMELY_SOURCE_FLAG_INDEX i),
    net (flagAmounts s totalBalance TIMELY_TARGET_FLAG_INDEX i), net (flagAmounts s totalBalance TIMELY_HEAD_FLAG_INDEX i),
    net (inactivityAmounts cfg s i)] := rfl
  unfold totalDelta
  rw [applyDelta_eq_foldl_iff (by simp [deltaSets, flagAmounts_nonneg, hinactivity]), hnets,
    forall_split_four hloss (Int.natCast_nonneg balance)]
  constructor
  · rintro ⟨⟨hsource, htarget⟩, hfits⟩
    refine ⟨hsource, htarget, ?_⟩
    simpa [add_assoc] using hfits
  · rintro ⟨hsource, htarget, hfits⟩
    refine ⟨⟨hsource, htarget⟩, ?_⟩
    simpa [add_assoc] using hfits

theorem baseRewardAltair_le (hpreset : 5 * P.BASE_REWARD_FACTOR ≤ 2 * Nat.sqrt totalBalance) :
    5 * baseRewardAltair P totalBalance effectiveBalance ≤ 2 * effectiveBalance := by
  unfold baseRewardAltair
  have hincrements := Nat.div_mul_le_self effectiveBalance P.EFFECTIVE_BALANCE_INCREMENT
  have hfactor : 5 * (P.EFFECTIVE_BALANCE_INCREMENT * P.BASE_REWARD_FACTOR / Nat.sqrt totalBalance) ≤
      2 * P.EFFECTIVE_BALANCE_INCREMENT := by
    rcases Nat.eq_zero_or_pos (Nat.sqrt totalBalance) with hzero | hpos
    · simp [hzero]
    · have hdiv : 5 * (P.EFFECTIVE_BALANCE_INCREMENT * P.BASE_REWARD_FACTOR / Nat.sqrt totalBalance) ≤
          5 * (P.EFFECTIVE_BALANCE_INCREMENT * P.BASE_REWARD_FACTOR) / Nat.sqrt totalBalance := Nat.mul_div_le_mul_div_assoc _ _ _
      refine hdiv.trans (Nat.div_le_of_le_mul ?_)
      calc 5 * (P.EFFECTIVE_BALANCE_INCREMENT * P.BASE_REWARD_FACTOR)
          = P.EFFECTIVE_BALANCE_INCREMENT * (5 * P.BASE_REWARD_FACTOR) := by ring
        _ ≤ P.EFFECTIVE_BALANCE_INCREMENT * (2 * Nat.sqrt totalBalance) := Nat.mul_le_mul_left _ hpreset
        _ = Nat.sqrt totalBalance * (2 * P.EFFECTIVE_BALANCE_INCREMENT) := by ring
  calc 5 * (effectiveBalance / P.EFFECTIVE_BALANCE_INCREMENT *
        (P.EFFECTIVE_BALANCE_INCREMENT * P.BASE_REWARD_FACTOR / Nat.sqrt totalBalance))
      = effectiveBalance / P.EFFECTIVE_BALANCE_INCREMENT *
        (5 * (P.EFFECTIVE_BALANCE_INCREMENT * P.BASE_REWARD_FACTOR / Nat.sqrt totalBalance)) := by ring
    _ ≤ effectiveBalance / P.EFFECTIVE_BALANCE_INCREMENT * (2 * P.EFFECTIVE_BALANCE_INCREMENT) := Nat.mul_le_mul_left _ hfactor
    _ = 2 * (effectiveBalance / P.EFFECTIVE_BALANCE_INCREMENT * P.EFFECTIVE_BALANCE_INCREMENT) := by ring
    _ ≤ 2 * effectiveBalance := Nat.mul_le_mul_left 2 hincrements

theorem net_flagAmounts_ge (s : CachedBeaconState P) (totalBalance flagIndex i : Nat) :
    -(flagPenalty s totalBalance flagIndex i : Int) ≤ net (flagAmounts s totalBalance flagIndex i) := by
  unfold net flagAmounts
  split
  · split
    · split <;> simp
    · split <;> simp
  · simp

/-- **A balance of a quarter of the effective balance does not run short**: the update of the effective balances keeps every
balance above three quarters of its. -/
theorem NeverShort.of_quarter (hpreset : 5 * P.BASE_REWARD_FACTOR ≤ 2 * Nat.sqrt totalBalance)
    (hquarter : effectiveBalanceOf s.validators i ≤ 4 * balance)
    (hfits : balance + net (flagAmounts s totalBalance TIMELY_SOURCE_FLAG_INDEX i) + net (flagAmounts s totalBalance TIMELY_TARGET_FLAG_INDEX i) + net (flagAmounts s totalBalance TIMELY_HEAD_FLAG_INDEX i) + net (inactivityAmounts cfg s i) < 2 ^ 64) : NeverShort cfg s totalBalance i balance := by
  have hbase : 5 * baseRewardAltair P totalBalance (effectiveBalanceOf s.validators i) ≤ _ := baseRewardAltair_le hpreset
  have hsource := net_flagAmounts_ge s totalBalance TIMELY_SOURCE_FLAG_INDEX i
  have htarget := net_flagAmounts_ge s totalBalance TIMELY_TARGET_FLAG_INDEX i
  have hpenalties : flagPenalty s totalBalance TIMELY_SOURCE_FLAG_INDEX i + flagPenalty s totalBalance TIMELY_TARGET_FLAG_INDEX i ≤
      balance := by
    simp only [flagPenalty, show PARTICIPATION_FLAG_WEIGHTS.getD TIMELY_SOURCE_FLAG_INDEX 0 = 14 from rfl,
      show PARTICIPATION_FLAG_WEIGHTS.getD TIMELY_TARGET_FLAG_INDEX 0 = 26 from rfl, show WEIGHT_DENOMINATOR = 64 from rfl]
    omega
  exact ⟨.inl (by omega), .inl (by omega), hfits⟩

/-- The first validator has next to nothing left, and of the flags the timely target alone. -/
def nearlyEmptyBalance : BeaconState minimal :=
  { unevenParticipation with
    balances := [10, 31500000000, 32000000000, 32000000000, 10]
    previousEpochParticipation := [{ timelyHead := false, timelyTarget := true, timelySource := false },
      { timelyHead := false, timelyTarget := false, timelySource := true },
      { timelyHead := true, timelyTarget := true, timelySource := true }, emptyParticipationStatus, emptyParticipationStatus] }

end Lodestar.StateTransition
