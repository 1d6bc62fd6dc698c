import Lodestar.StateTransition.EpochSteps
/-!
# EffectiveBalances — the hysteresis rule against the balances an epoch transition leaves

`processEffectiveBalanceUpdates` reads the balances that the rewards left in the process record, and falls back on those of
the state where the rewards wrote none.  The slashings write the state's balances in between.  So the effective balances
follow the rule on the state's balances exactly when the slashing penalties of the epoch change nothing for the rule:
`processEpoch_hysteresis_iff`.
-/
namespace Lodestar.StateTransition

open Lib

variable {P : Preset} {env : Env P} {cfg : ChainConfig} {fork : ForkName} {s s' : CachedBeaconState P}

/-! ## The rule of the specification -/

/-- `process_effective_balance_updates` of the specification, for one validator. -/
def hysteresis (P : Preset) (effectiveBalance balance : Nat) : Nat :=
  let hysteresisIncrement := P.EFFECTIVE_BALANCE_INCREMENT / P.HYSTERESIS_QUOTIENT
  let downwardThreshold := hysteresisIncrement * P.HYSTERESIS_DOWNWARD_MULTIPLIER
  let upwardThreshold := hysteresisIncrement * P.HYSTERESIS_UPWARD_MULTIPLIER
  if balance + downwardThreshold < effectiveBalance ∨ effectiveBalance + upwardThreshold < balance
  then min (balance - balance % P.EFFECTIVE_BALANCE_INCREMENT) P.MAX_EFFECTIVE_BALANCE
  else effectiveBalance

theorem effectiveBalanceUpdate_getD (P : Preset) (effectiveBalance balance : Nat) :
    (effectiveBalanceUpdate P effectiveBalance balance).getD effectiveBalance = hysteresis P effectiveBalance balance := by
  unfold effectiveBalanceUpdate hysteresis
  dsimp only
  split <;> rfl

/-- Every validator has the effective balance that the rule gives for its old one and its balance in the state after the
transition, which no step changes once the slashings are done. -/
def FollowsHysteresis (s s' : CachedBeaconState P) : Prop :=
  ∀ (i : Nat) (v : Validator) (balance : Nat), s.validators[i]? = some v → s'.balances[i]? = some balance →
    (s'.validators[i]?).map (·.effectiveBalance) = some (hysteresis P v.effectiveBalance balance)

/-! ## When the slashings do not matter -/

section

variable (cfg : ChainConfig) (fork : ForkName) (s : CachedBeaconState P)

def rewardedBalances : Except String (Option (List Nat)) := do
  let process ← prepareEpochProcessState cfg s
  let s ← beforeRewards cfg fork s process
  match ← epochDeltas cfg fork s process with
  | none => pure none
  | some deltas => some <$> applyDeltas s.balances deltas

def totalActiveStake (s : CachedBeaconState P) : Nat :=
  max P.EFFECTIVE_BALANCE_INCREMENT
    ((s.validators.filter (isActiveValidator · s.epochCtx.currentShuffling.epoch)).map (·.effectiveBalance)).sum

/-- For every validator whose slashing penalty falls in this epoch, the rule gives the same for its balance after the rewards
with and without that penalty. -/
def SlashingsKeepHysteresis : Prop :=
  ∀ balances, rewardedBalances cfg fork s = .ok (some balances) →
    ∀ (i : Nat) (v : Validator) (balance : Nat), s.validators[i]? = some v → balances[i]? = some balance →
      isToSlash P s.epochCtx.currentShuffling.epoch v = true →
      hysteresis P v.effectiveBalance (balance - slashingPenalty P fork s.slashings (totalActiveStake s) v.effectiveBalance) =
        hysteresis P v.effectiveBalance balance

end

theorem processEpoch_effectiveBalances (h : processEpochByFork env cfg fork s = .ok s') :
    ∃ cached rewarded, rewardedBalances cfg fork s = .ok cached ∧ rewarded = cached.getD s.balances ∧
      (∀ (i : Nat) (v : Validator), s.validators[i]? = some v → s'.balances[i]? = (rewarded[i]?).map fun balance =>
        if isToSlash P s.epochCtx.currentShuffling.epoch v
        then balance - slashingPenalty P fork s.slashings (totalActiveStake s) v.effectiveBalance else balance) ∧
      ∀ (i : Nat) (v : Validator) (balance : Nat), s.validators[i]? = some v → (cached.getD s'.balances)[i]? = some balance →
        (s'.validators[i]?).map (·.effectiveBalance) = some (hysteresis P v.effectiveBalance balance) := by
  obtain ⟨process, s₁, s₂, process', s₃, s₄, hprep, h₁, h₂, h₃, h₄, hcore⟩ := processEpoch_steps h
  obtain ⟨hp, hnone⟩ := prepareEpochProcessState_ok hprep
  have hs₁ := beforeRewards_core h₁
  -- the rewards, with what they leave in the record
  obtain ⟨cached, hcached, hbal₂, hval₂, hsl₂, hrec, hp'⟩ : ∃ cached, rewardedBalances cfg fork s = .ok cached ∧
      s₂.balances = cached.getD s.balances ∧ s₂.validators = s.validators ∧ s₂.slashings = s.slashings ∧
      process'.balances = cached ∧ Prepared cfg s process' := by
    rcases processRewardsAndPenalties_run h₂ with ⟨hd, rfl, rfl⟩ | ⟨deltas, balances, hd, hb, rfl, rfl⟩
    · refine ⟨none, ?_, hs₁.balances, hs₁.validators, hs₁.slashings, hnone, hp⟩
      exact bind_eq_ok.2 ⟨process', hprep, bind_eq_ok.2 ⟨s₂, h₁, bind_eq_ok.2 ⟨none, hd, rfl⟩⟩⟩
    · refine ⟨some balances, ?_, rfl, hs₁.validators, hs₁.slashings, rfl, hp.withBalances _⟩
      refine bind_eq_ok.2 ⟨process, hprep, bind_eq_ok.2 ⟨s₁, h₁, bind_eq_ok.2 ⟨some deltas, hd, ?_⟩⟩⟩
      dsimp only
      rw [hb]
      rfl
  -- the registry updates leave the effective balances
  obtain ⟨validators, hreg, hevolves⟩ := processRegistryUpdates_run hp' hval₂
  rw [hreg] at h₃
  -- the slashings write the balances of the state
  have hnd : process'.indicesToSlash.Nodup := hp'.indicesToSlash ▸ indicesWhere_nodup _ _
  obtain ⟨balances, rfl, hslashed⟩ := processSlashings_run h₃ hnd
  have heth := processEth1DataReset_core { s₂ with validators := validators, balances := balances } process'
  -- the effective balances are written from the balances the record has, if it has any
  obtain ⟨validators', rfl, hupdated⟩ := processEffectiveBalanceUpdates_run h₄
  have hbalances : s'.balances = balances := hcore.balances.trans heth.balances
  have hvalidators : s'.validators = validators' := hcore.validators
  have hsnapshot : ∀ (i : Nat) (v : Validator), s.validators[i]? = some v → process'.effectiveBalanceAt i = v.effectiveBalance :=
    fun i v hv => by simp [EpochProcess.effectiveBalanceAt, hp'.validators, hv]
  refine ⟨cached, cached.getD s.balances, hcached, rfl, fun i v hv => ?_, fun i v balance hv hbal => ?_⟩
  · have hmem : i ∈ process'.indicesToSlash ↔ isToSlash P s.epochCtx.currentShuffling.epoch v = true := by
      rw [hp'.indicesToSlash, mem_indicesWhere]
      constructor
      · rintro ⟨v', hv', ht⟩
        rw [hv, Option.some.injEq] at hv'
        exact hv' ▸ ht
      · intro ht
        exact ⟨v, hv, ht⟩
    have hstake : process'.totalActiveStake = totalActiveStake s := hp'.totalActiveStake
    rw [hbalances, hslashed i, hsnapshot i v hv, hsl₂, hbal₂, hstake]
    by_cases ht : isToSlash P s.epochCtx.currentShuffling.epoch v = true
    · simp [hmem, ht]
    · simp [hmem, ht]
  · obtain ⟨v', hv', haged⟩ := hevolves.old i v (hval₂ ▸ hv)
    have hread : (process'.balances.getD balances)[i]? = some balance := by
      rw [hrec, ← hbalances]
      exact hbal
    have hentry := hupdated i
    rw [heth.balances, hread, heth.validators, hsnapshot i v hv] at hentry
    rw [hvalidators, hentry, hv']
    simp only [Option.map_some, haged.effectiveBalance, effectiveBalanceUpdate_getD]

/-- **The effective balances follow the rule on the balances of the state exactly when no slashing penalty of the epoch moves
a balance, as the rewards left it, to where the rule would give something else.** -/
theorem processEpoch_hysteresis_iff (h : processEpochByFork env cfg fork s = .ok s') :
    FollowsHysteresis s s' ↔ SlashingsKeepHysteresis cfg fork s := by
  obtain ⟨cached, rewarded, hcached, rfl, hbalances, heffective⟩ := processEpoch_effectiveBalances h
  constructor
  · intro hfollows balances hrewarded i v balance hv hbal ht
    rw [hcached, Except.ok.injEq] at hrewarded
    subst hrewarded
    have hstate := hbalances i v hv
    simp only [Option.getD_some, hbal, Option.map_some, ht, if_true] at hstate
    have hrule := hfollows i v _ hv hstate
    rw [heffective i v balance hv hbal] at hrule
    exact (Option.some.inj hrule).symm
  · intro hkeep i v balance hv hbal
    cases cached with
    | none => exact heffective i v balance hv hbal
    | some balances =>
      have hstate := hbalances i v hv
      rw [hbal] at hstate
      obtain ⟨b, hb, hmoved⟩ := Option.map_eq_some_iff.1 hstate.symm
      rw [heffective i v b hv hb]
      by_cases ht : isToSlash P s.epochCtx.currentShuffling.epoch v = true
      · rw [if_pos ht] at hmoved
        rw [← hmoved, hkeep balances hcached i v b hv hb ht]
      · rw [if_neg ht] at hmoved
        rw [hmoved]

/-! ## A validator slashed half a vector ago -/

/-- Two active validators and one that was slashed in epoch 8, in the last slot of epoch 40; `slashed` is what the slashings
vector holds. -/
def slashedInEpoch8 (slashed : Nat) : CachedBeaconState minimal :=
  let key := fun (b : UInt8) => Vector.replicate 48 b
  let active := fun (b : UInt8) => {
    pubkey := key b, withdrawalCredentials := zeroRoot, effectiveBalance := 32000000000, slashed := false
    activationEligibilityEpoch := 0, activationEpoch := 0, exitEpoch := ⊤, withdrawableEpoch := ⊤ }
  let shufflingOf := fun epoch => {
    epoch := epoch, activeIndices := [0, 1], shuffling := [0, 1], committeesPerSlot := 1
    committees := [[[]], [[]], [[]], [[0]], [[]], [[]], [[]], [[1]]] }
  let committee := { pubkeys := List.replicate 32 (key 0), aggregatePubkey := key 0 }
  { slot := 327
    fork := { previousVersion := minimalForkVersion, currentVersion := minimalForkVersion, epoch := 0 }
    latestBlockHeader := { slot := 326, proposerIndex := 0, parentRoot := zeroRoot, stateRoot := zeroRoot, bodyRoot := zeroRoot }
    blockRoots := Vector.replicate _ zeroRoot
    stateRoots := Vector.replicate _ zeroRoot
    historicalRoots := []
    eth1Data := { depositRoot := zeroRoot, depositCount := 3, blockHash := zeroRoot }
    eth1DataVotes := []
    eth1DepositIndex := 3
    validators := [active 1, active 2, { active 3 with
      effectiveBalance := 31000000000, slashed := true, exitEpoch := 13, withdrawableEpoch := 72 }]
    balances := [32000000000, 32000000000, 31500000000]
    randaoMixes := Vector.replicate _ zeroRoot
    slashings := (Vector.replicate _ 0).set 8 slashed (by decide)
    previousEpochAttestations := []
    currentEpochAttestations := []
    previousEpochParticipation := List.replicate 3 emptyParticipationStatus
    currentEpochParticipation := List.replicate 3 emptyParticipationStatus
    justificationBits := #v[true, true, true, true]
    previousJustifiedCheckpoint := { epoch := 38, root := zeroRoot }
    currentJustifiedCheckpoint := { epoch := 39, root := zeroRoot }
    finalizedCheckpoint := { epoch := 38, root := zeroRoot }
    inactivityScores := []
    currentSyncCommittee := committee
    nextSyncCommittee := committee
    epochCtx := {
      pubkey2index := ((OrderedMap.empty.set (key 1) 0).set (key 2) 1).set (key 3) 2
      index2pubkey := [some (key 1), some (key 2), some (key 3)]
      proposers := List.replicate 8 0
      previousShuffling := shufflingOf 39
      currentShuffling := shufflingOf 40
      nextShuffling := shufflingOf 41
      syncParticipantReward := 0
      syncProposerReward := 0
      baseRewardPerIncrement := 0 }
    currentIndexedSyncCommittee := emptyIndexedSyncCommittee minimal
    nextIndexedSyncCommittee := emptyIndexedSyncCommittee minimal }

def balancesAfter (s : CachedBeaconState P) : List Nat × List Nat := (s.validators.map (·.effectiveBalance), s.balances)

/-- The penalty takes 31 of 31.49 from the balance in the state; the effective balance stays at 31. -/
theorem processEpoch_ignores_slashing : ∃ s', processEpochByFork (plainEnv minimal) (minimalConfig ⊤) .phase0
    (slashedInEpoch8 32000000000) = .ok s' ∧ ¬ FollowsHysteresis (slashedInEpoch8 32000000000) s' := by
  have hrun : (processEpochByFork (plainEnv minimal) (minimalConfig ⊤) .phase0 (slashedInEpoch8 32000000000)).map balancesAfter =
      .ok ([32000000000, 32000000000, 31000000000], [31993928423, 31993928423, 494118161]) := by decide +kernel
  cases hs' : processEpochByFork (plainEnv minimal) (minimalConfig ⊤) .phase0 (slashedInEpoch8 32000000000) with
  | error e =>
    rw [hs'] at hrun
    cases hrun
  | ok s' =>
    rw [hs'] at hrun
    obtain ⟨heff, hbal⟩ := Prod.mk.inj (Except.ok.inj hrun)
    refine ⟨s', rfl, fun hfollows => ?_⟩
    have hrule := hfollows 2 _ 494118161 rfl (by rw [hbal]; rfl)
    rw [← List.getElem?_map, heff] at hrule
    exact absurd hrule (by decide +kernel)

theorem processEpoch_hysteresis_noSlashings : ∃ s', processEpochByFork (plainEnv minimal) (minimalConfig ⊤) .phase0
    (slashedInEpoch8 0) = .ok s' ∧ FollowsHysteresis (slashedInEpoch8 0) s' := by
  have hrun : (processEpochByFork (plainEnv minimal) (minimalConfig ⊤) .phase0 (slashedInEpoch8 0)).toBool = true := by
    decide +kernel
  cases hs' : processEpochByFork (plainEnv minimal) (minimalConfig ⊤) .phase0 (slashedInEpoch8 0) with
  | error e =>
    rw [hs'] at hrun
    cases hrun
  | ok s' =>
    refine ⟨s', rfl, (processEpoch_hysteresis_iff hs').2 fun balances _ i v balance _ _ _ => ?_⟩
    have hnone : (slashedInEpoch8 0).slashings.toList.sum = 0 := by decide +kernel
    simp [slashingPenalty, hnone]

end Lodestar.StateTransition
