import Mathlib.Algebra.BigOperators.Ring.List
import Lodestar.StateTransition.AttestationInclusion
import Lodestar.StateTransition.RewardsPenalties
/-!
# AttestationRewards — what attestations of altair set, and what the proposer gets

An attestation sets its timely flags for its attesters, and pays the proposer for those that were not set.  The specification walks
over the flags of each attester and sums base rewards by weight; the code sums effective balances by weight and divides once.
Every flag of a validator and an epoch is paid for at most once, however many blocks include it: `walkCredits_nodup`.
-/
namespace Lodestar.StateTransition

open Lib

variable {P : Preset} {env : Env P} {cfg : ChainConfig} {s s' t t' : CachedBeaconState P} {verify : Bool}

/-! ## Flags -/

theorem hasFlag_or (a b : ParticipationStatus) (flagIndex : Nat) :
    hasFlag (a.or b) flagIndex = (hasFlag a flagIndex || hasFlag b flagIndex) := by
  unfold hasFlag ParticipationStatus.or
  split
  · rfl
  · split
    · rfl
    · cases decide (flagIndex = TIMELY_HEAD_FLAG_INDEX) <;> simp

/-! ## The specification -/

def addFlag (status : ParticipationStatus) (flagIndex : Nat) : ParticipationStatus :=
  { timelyHead := status.timelyHead || decide (flagIndex = TIMELY_HEAD_FLAG_INDEX)
    timelyTarget := status.timelyTarget || decide (flagIndex = TIMELY_TARGET_FLAG_INDEX)
    timelySource := status.timelySource || decide (flagIndex = TIMELY_SOURCE_FLAG_INDEX) }

section

variable (s : CachedBeaconState P)

/-- A flag that is not set yet is set, and counts with the base reward by weight. -/
def specUpdateFlag (flags : ParticipationStatus) (index : Nat) (acc : List ParticipationStatus × Nat) (entry : Nat × Nat) :
    Except String (List ParticipationStatus × Nat) := do
  let status ← getAt "IndexError" acc.1 index
  if hasFlag flags entry.2 && !hasFlag status entry.2 then do
    let baseReward ← specGetBaseRewardAltair s index
    pure (acc.1.set index (addFlag status entry.2), acc.2 + baseReward * entry.1)
  else pure acc

def specUpdateFlags (flags : ParticipationStatus) (acc : List ParticipationStatus × Nat) (index : Nat) :
    Except String (List ParticipationStatus × Nat) :=
  PARTICIPATION_FLAG_WEIGHTS.zipIdx.foldlM (specUpdateFlag s flags index) acc

def CachedBeaconState.participationOf (isCurrent : Bool) : List ParticipationStatus :=
  if isCurrent then s.currentEpochParticipation else s.previousEpochParticipation

def CachedBeaconState.withParticipation (isCurrent : Bool) (participation : List ParticipationStatus) : CachedBeaconState P :=
  if isCurrent then { s with currentEpochParticipation := participation }
  else { s with previousEpochParticipation := participation }

def isOfCurrentEpoch (data : AttestationData) : Bool :=
  decide (data.target.epoch = s.epochCtx.currentShuffling.epoch)

def specUpdateParticipation (attestation : Attestation) : Except String (List ParticipationStatus × Nat) := do
  let flags ← getAttestationParticipationStatus s attestation.data (s.slot - attestation.data.slot)
  let attestingIndices ← s.epochCtx.getAttestingIndices P attestation.data attestation.aggregationBits
  attestingIndices.foldlM (specUpdateFlags s flags) (s.participationOf (isOfCurrentEpoch s attestation.data), 0)

def specRewardAttestation (attestation : Attestation) : Except String (CachedBeaconState P) := do
  let (participation, proposerRewardNumerator) ← specUpdateParticipation s attestation
  let proposerRewardDenominator := (WEIGHT_DENOMINATOR - PROPOSER_WEIGHT) * WEIGHT_DENOMINATOR / PROPOSER_WEIGHT
  let proposerIndex ← asIndex (← s.epochCtx.getBeaconProposer P s.slot)
  increaseBalance (s.withParticipation (isOfCurrentEpoch s attestation.data) participation) proposerIndex
    (proposerRewardNumerator / proposerRewardDenominator)

end

/-! ## One attestation -/

variable {attestation : Attestation}

theorem processAttestationAltair_run (h : processAttestationAltair env s attestation verify = .ok s') :
    ∃ flags attestingIndices participation total proposerIndex, validateAttestation s attestation = .ok () ∧
      getAttestationParticipationStatus s attestation.data (s.slot - attestation.data.slot) = .ok flags ∧
      s.epochCtx.getAttestingIndices P attestation.data attestation.aggregationBits = .ok attestingIndices ∧
      addParticipation s.validators flags (s.participationOf (isOfCurrentEpoch s attestation.data)) attestingIndices =
        .ok (participation, total) ∧
      (s.epochCtx.getBeaconProposer P s.slot >>= asIndex) = .ok proposerIndex ∧
      increaseBalance (s.withParticipation (isOfCurrentEpoch s attestation.data) participation) proposerIndex
        (total / P.EFFECTIVE_BALANCE_INCREMENT * s.epochCtx.baseRewardPerIncrement / PROPOSER_REWARD_DOMINATOR) = .ok s' := by
  unfold processAttestationAltair at h
  simp only [bind_eq_ok, Prod.exists] at h
  obtain ⟨_, hvalid, _, -, _, -, _, -, flags, hflags, indices, hindices, participation, total, hadd, proposer, hproposer, proposerIndex,
    hindex, hincrease⟩ := h
  have hslot : ∀ (isCurrent : Bool), (if isCurrent then { s with currentEpochParticipation := participation }
      else { s with previousEpochParticipation := participation } : CachedBeaconState P).slot = s.slot := by
    intro isCurrent
    cases isCurrent <;> rfl
  rw [hslot] at hproposer
  exact ⟨flags, indices, participation, total, proposerIndex, hvalid, hflags, hindices, hadd,
    bind_eq_ok.2 ⟨proposer, hproposer, hindex⟩, hincrease⟩

/-! ## One attester -/

def mergeFlag (flags status : ParticipationStatus) (flagIndex : Nat) : ParticipationStatus :=
  if hasFlag flags flagIndex then addFlag status flagIndex else status

theorem mergeFlag_all (flags status : ParticipationStatus) :
    mergeFlag flags (mergeFlag flags (mergeFlag flags status TIMELY_SOURCE_FLAG_INDEX) TIMELY_TARGET_FLAG_INDEX) TIMELY_HEAD_FLAG_INDEX =
      status.or flags := by
  obtain ⟨head, target, source⟩ := flags
  cases head <;> cases target <;> cases source <;> simp [mergeFlag, hasFlag, addFlag, ParticipationStatus.or, TIMELY_SOURCE_FLAG_INDEX,
    TIMELY_TARGET_FLAG_INDEX, TIMELY_HEAD_FLAG_INDEX]

variable {flags status : ParticipationStatus} {flagIndex other index : Nat}

theorem hasFlag_mergeFlag_ne (hne : other ≠ flagIndex) :
    hasFlag (mergeFlag flags status flagIndex) other = hasFlag status other := by
  unfold mergeFlag
  split
  · unfold hasFlag addFlag
    split
    · rename_i hother
      subst hother
      simp [hne.symm]
    · split
      · rename_i hother
        subst hother
        simp [hne.symm]
      · by_cases hhead : other = TIMELY_HEAD_FLAG_INDEX
        · subst hhead
          simp [hne.symm]
        · simp [hhead]
  · rfl

theorem mergeFlag_self (h : hasFlag status flagIndex = true) (hflag : flagIndex < 3) :
    mergeFlag flags status flagIndex = status := by
  unfold mergeFlag
  split
  · unfold hasFlag at h
    obtain rfl | rfl | rfl : flagIndex = TIMELY_SOURCE_FLAG_INDEX ∨ flagIndex = TIMELY_TARGET_FLAG_INDEX ∨
        flagIndex = TIMELY_HEAD_FLAG_INDEX := by
      unfold TIMELY_SOURCE_FLAG_INDEX TIMELY_TARGET_FLAG_INDEX TIMELY_HEAD_FLAG_INDEX
      omega
    all_goals
      obtain ⟨head, target, source⟩ := status
      simp_all [addFlag, TIMELY_SOURCE_FLAG_INDEX, TIMELY_TARGET_FLAG_INDEX, TIMELY_HEAD_FLAG_INDEX]
  · rfl

def flagWeight (flags status : ParticipationStatus) (flagIndex weight : Nat) : Nat :=
  if hasFlag flags flagIndex && !hasFlag status flagIndex then weight else 0

theorem newWeight_eq (status flags : ParticipationStatus) : newWeight status flags =
    flagWeight flags status TIMELY_SOURCE_FLAG_INDEX TIMELY_SOURCE_WEIGHT +
      flagWeight flags status TIMELY_TARGET_FLAG_INDEX TIMELY_TARGET_WEIGHT +
      flagWeight flags status TIMELY_HEAD_FLAG_INDEX TIMELY_HEAD_WEIGHT := by
  have hsource : ∀ status, hasFlag status TIMELY_SOURCE_FLAG_INDEX = status.timelySource := fun _ => rfl
  have htarget : ∀ status, hasFlag status TIMELY_TARGET_FLAG_INDEX = status.timelyTarget := fun _ => rfl
  have hhead : ∀ status, hasFlag status TIMELY_HEAD_FLAG_INDEX = status.timelyHead := fun _ => rfl
  unfold newWeight flagWeight
  simp only [hsource, htarget, hhead, Bool.and_comm]

variable {acc : List ParticipationStatus × Nat} {index baseReward : Nat}

theorem specUpdateFlag_eq {entry : Nat × Nat} (hflag : entry.2 < 3) (hweight : 0 < entry.1) (hstatus : acc.1[index]? = some status)
    (hbase : 0 < flagWeight flags status entry.2 entry.1 → specGetBaseRewardAltair s index = .ok baseReward) :
    specUpdateFlag s flags index acc entry = .ok (acc.1.set index (mergeFlag flags status entry.2),
      acc.2 + baseReward * flagWeight flags status entry.2 entry.1) := by
  have hread : getAt "IndexError" acc.1 index = .ok status := getAt_eq_ok.2 hstatus
  have hsame : acc.1.set index status = acc.1 := by
    obtain ⟨hi, rfl⟩ := List.getElem?_eq_some_iff.1 hstatus
    exact List.set_getElem_self hi
  unfold specUpdateFlag
  rw [hread]
  dsimp only [bind, Except.bind]
  by_cases hnew : (hasFlag flags entry.2 && !hasFlag status entry.2) = true
  · have hcounts : flagWeight flags status entry.2 entry.1 = entry.1 := if_pos hnew
    have hmerge : mergeFlag flags status entry.2 = addFlag status entry.2 := if_pos (Bool.and_eq_true_iff.1 hnew).1
    rw [hcounts] at hbase
    rw [if_pos hnew, hbase hweight, hcounts, hmerge]
    rfl
  · have hcounts : flagWeight flags status entry.2 entry.1 = 0 := if_neg hnew
    have hmerge : mergeFlag flags status entry.2 = status := by
      by_cases hset : hasFlag status entry.2 = true
      · exact mergeFlag_self hset hflag
      · have hoff : ¬ hasFlag flags entry.2 = true := by
          intro hon
          simp [hon, hset] at hnew
        exact if_neg hoff
    rw [if_neg hnew, hcounts, hmerge, hsame, Nat.mul_zero, Nat.add_zero]
    rfl

theorem specUpdateFlags_eq (hstatus : acc.1[index]? = some status)
    (hbase : 0 < newWeight status flags → specGetBaseRewardAltair s index = .ok baseReward) :
    specUpdateFlags s flags acc index = .ok (acc.1.set index (status.or flags), acc.2 + baseReward * newWeight status flags) := by
  have hi := (List.getElem?_eq_some_iff.1 hstatus).1
  have hweights : PARTICIPATION_FLAG_WEIGHTS.zipIdx = [(TIMELY_SOURCE_WEIGHT, TIMELY_SOURCE_FLAG_INDEX),
    (TIMELY_TARGET_WEIGHT, TIMELY_TARGET_FLAG_INDEX), (TIMELY_HEAD_WEIGHT, TIMELY_HEAD_FLAG_INDEX)] := rfl
  have htarget : ∀ weight, flagWeight flags (mergeFlag flags status TIMELY_SOURCE_FLAG_INDEX) TIMELY_TARGET_FLAG_INDEX weight =
      flagWeight flags status TIMELY_TARGET_FLAG_INDEX weight := by
    intro weight
    unfold flagWeight
    rw [hasFlag_mergeFlag_ne (by decide)]
  have hhead : ∀ weight, flagWeight flags (mergeFlag flags (mergeFlag flags status TIMELY_SOURCE_FLAG_INDEX) TIMELY_TARGET_FLAG_INDEX)
      TIMELY_HEAD_FLAG_INDEX weight = flagWeight flags status TIMELY_HEAD_FLAG_INDEX weight := by
    intro weight
    unfold flagWeight
    rw [hasFlag_mergeFlag_ne (by decide), hasFlag_mergeFlag_ne (by decide)]
  rw [newWeight_eq] at hbase ⊢
  unfold specUpdateFlags
  rw [hweights, List.foldlM_cons, specUpdateFlag_eq (by decide) (by decide) hstatus fun h => hbase (Nat.add_pos_left (Nat.add_pos_left h _) _)]
  dsimp only [bind, Except.bind]
  rw [List.foldlM_cons, specUpdateFlag_eq (by decide) (by decide) (List.getElem?_set_self hi) fun h =>
    hbase (Nat.add_pos_left (Nat.add_pos_right _ (htarget _ ▸ h)) _)]
  dsimp only [bind, Except.bind]
  rw [List.foldlM_cons, specUpdateFlag_eq (by decide) (by decide) (List.getElem?_set_self (by rw [List.length_set]; exact hi)) fun h =>
    hbase (Nat.add_pos_right _ (hhead _ ▸ h))]
  rw [mergeFlag_all, htarget, hhead, List.set_set, List.set_set]
  simp [Nat.mul_add, Nat.add_assoc]

/-! ## All attesters -/

def participationTurn (validators : List Validator) (flags : ParticipationStatus) (acc : List ParticipationStatus × Nat) (index : Nat) :
    Except String (List ParticipationStatus × Nat) := do
  let status ← getAt typeError acc.1 index
  let participation := acc.1.set index (status.or flags)
  let totalWeight := newWeight status flags
  if 0 < totalWeight then do
    let validator ← getAt typeError validators index
    pure (participation, acc.2 + validator.effectiveBalance * totalWeight)
  else pure (participation, acc.2)

variable {validators : List Validator} {status flags : ParticipationStatus}

theorem participationTurn_eq (flags : ParticipationStatus) (hi : index < validators.length)
    (hstatus : acc.1[index]? = some status) :
    participationTurn validators flags acc index = .ok (acc.1.set index (status.or flags),
      acc.2 + effectiveBalanceOf validators index * newWeight status flags) := by
  have hread : getAt typeError acc.1 index = .ok status := getAt_eq_ok.2 hstatus
  have hvalidator : getAt typeError validators index = .ok validators[index] := getAt_eq_ok.2 (List.getElem?_eq_getElem hi)
  unfold participationTurn
  rw [hread, effectiveBalanceOf_eq (List.getElem?_eq_getElem hi)]
  dsimp only [bind, Except.bind]
  by_cases hnew : 0 < newWeight status flags
  · rw [if_pos hnew, hvalidator]
    rfl
  · rw [if_neg hnew, Nat.eq_zero_of_not_pos hnew]
    rfl

theorem addParticipation_bounds : ∀ (indices : List Nat)
    {acc acc' : List ParticipationStatus × Nat}, indices.foldlM (participationTurn validators flags) acc = .ok acc' →
      ∀ i ∈ indices, i < acc.1.length
  | [], _, _, _, _, hi => absurd hi List.not_mem_nil
  | index :: indices, acc, acc', h, i, hi => by
    obtain ⟨next, hfirst, hrest⟩ := bind_eq_ok.1 h
    have hbounds := addParticipation_bounds indices hrest
    obtain ⟨status, hstatus, hfirst⟩ := bind_eq_ok.1 hfirst
    have hindex := (List.getElem?_eq_some_iff.1 (getAt_eq_ok.1 hstatus)).1
    have hlength : next.1.length = acc.1.length := by
      dsimp only at hfirst
      split at hfirst
      · simp only [bind_eq_ok, pure_eq_ok] at hfirst
        obtain ⟨validator, -, rfl⟩ := hfirst
        exact List.length_set
      · rw [pure_eq_ok] at hfirst
        subst hfirst
        exact List.length_set
    rcases List.mem_cons.1 hi with rfl | hi
    · exact hindex
    · exact hlength ▸ hbounds i hi

theorem foldlM_participation (step : List ParticipationStatus × Nat → Nat → Except String (List ParticipationStatus × Nat))
    {value : Nat → Nat} : ∀ (indices : List Nat) (acc : List ParticipationStatus × Nat), indices.Nodup →
    (∀ i ∈ indices, i < acc.1.length) →
    (∀ i ∈ indices, ∀ (acc : List ParticipationStatus × Nat) (status : ParticipationStatus), acc.1[i]? = some status →
      step acc i = .ok (acc.1.set i (status.or flags), acc.2 + value i * newWeight status flags)) →
    indices.foldlM step acc = .ok (acc.1.mapIdx fun i status => if i ∈ indices then status.or flags else status,
      acc.2 + (indices.map fun i => value i * newWeight (acc.1.getD i emptyParticipationStatus) flags).sum)
  | [], acc, _, _, _ => by
    have hsame : acc.1.mapIdx (fun _ status => status) = acc.1 := by
      apply List.ext_getElem?
      simp
    simp [pure, Except.pure, hsame]
  | index :: indices, acc, hnodup, hbounds, hstep => by
    obtain ⟨hindex, hnodup⟩ := List.nodup_cons.1 hnodup
    have hi := hbounds index List.mem_cons_self
    have hstatus : acc.1[index]? = some acc.1[index] := List.getElem?_eq_getElem hi
    have hfirst := hstep index List.mem_cons_self acc acc.1[index] hstatus
    have hrest := foldlM_participation step indices (acc.1.set index (acc.1[index].or flags),
        acc.2 + value index * newWeight acc.1[index] flags) hnodup
      (fun i hi => by rw [List.length_set]; exact hbounds i (List.mem_cons_of_mem index hi))
      (fun i hi => hstep i (List.mem_cons_of_mem index hi))
    rw [List.foldlM_cons, hfirst]
    refine hrest.trans ?_
    congr 2
    · apply List.ext_getElem?
      intro i
      by_cases heq : index = i
      · subst heq
        simp [hi, hindex]
      · have hne : ¬ i = index := fun h => heq h.symm
        simp [heq, hne]
    · have hothers : (indices.map fun i => value i *
          newWeight ((acc.1.set index (acc.1[index].or flags)).getD i emptyParticipationStatus) flags) =
          indices.map fun i => value i * newWeight (acc.1.getD i emptyParticipationStatus) flags := by
        apply List.map_congr_left
        intro i hmem
        have hne : ¬ index = i := fun h => hindex (h ▸ hmem)
        simp [List.getD, hne]
      have hself : acc.1.getD index emptyParticipationStatus = acc.1[index] := by simp [List.getD, hi]
      rw [hothers, List.map_cons, List.sum_cons, hself, Nat.add_assoc]

/-! ## What is paid for -/

structure Credit where
  validator : Nat
  epoch : Nat
  flagIndex : Nat
deriving DecidableEq

def newCredits (flags : ParticipationStatus) (participation : List ParticipationStatus) (epoch index : Nat) : List Credit :=
  ((List.range PARTICIPATION_FLAG_WEIGHTS.length).filter fun flagIndex =>
    hasFlag flags flagIndex && !(participation[index]?).any (hasFlag · flagIndex)).map fun flagIndex =>
      { validator := index, epoch := epoch, flagIndex := flagIndex }

def attestationCredits (s : CachedBeaconState P) (attestation : Attestation) : Except String (List Credit) := do
  let flags ← getAttestationParticipationStatus s attestation.data (s.slot - attestation.data.slot)
  let attestingIndices ← s.epochCtx.getAttestingIndices P attestation.data attestation.aggregationBits
  pure (attestingIndices.flatMap
    (newCredits flags (s.participationOf (isOfCurrentEpoch s attestation.data)) attestation.data.target.epoch))

def creditValue (s : CachedBeaconState P) (totalBalance : Nat) (credit : Credit) : Nat :=
  baseRewardAltair P totalBalance (effectiveBalanceOf s.validators credit.validator) *
    PARTICIPATION_FLAG_WEIGHTS.getD credit.flagIndex 0

theorem newCredits_value (s : CachedBeaconState P) (totalBalance : Nat) {participation : List ParticipationStatus}
    (hstatus : participation[index]? = some status) (epoch : Nat) :
    ((newCredits flags participation epoch index).map (creditValue s totalBalance)).sum =
      baseRewardAltair P totalBalance (effectiveBalanceOf s.validators index) * newWeight status flags := by
  have hfilter : ∀ flagIndices : List Nat, (((flagIndices.filter fun flagIndex => hasFlag flags flagIndex &&
      !(participation[index]?).any (hasFlag · flagIndex)).map fun flagIndex => ({
        validator := index, epoch := epoch, flagIndex := flagIndex } : Credit)).map (creditValue s totalBalance)).sum =
      baseRewardAltair P totalBalance (effectiveBalanceOf s.validators index) *
        (flagIndices.map fun flagIndex => flagWeight flags status flagIndex (PARTICIPATION_FLAG_WEIGHTS.getD flagIndex 0)).sum := by
    intro flagIndices
    induction flagIndices with
    | nil => rfl
    | cons flagIndex flagIndices ih =>
      rw [List.filter_cons, List.map_cons, List.sum_cons, Nat.mul_add, ← ih, hstatus, Option.any_some]
      unfold flagWeight
      split
      · rw [List.map_cons, List.map_cons, List.sum_cons]
        rfl
      · rw [Nat.mul_zero, Nat.zero_add]
  unfold newCredits
  rw [hfilter, newWeight_eq, ← Nat.add_zero (flagWeight flags status TIMELY_HEAD_FLAG_INDEX TIMELY_HEAD_WEIGHT), Nat.add_assoc]
  rfl

theorem sum_increments (hmultiples : ∀ v ∈ validators, P.EFFECTIVE_BALANCE_INCREMENT ∣ v.effectiveBalance) (weight : Nat → Nat)
    (indices : List Nat) :
    (indices.map fun i => effectiveBalanceOf validators i * weight i).sum / P.EFFECTIVE_BALANCE_INCREMENT =
      (indices.map fun i => effectiveBalanceOf validators i / P.EFFECTIVE_BALANCE_INCREMENT * weight i).sum := by
  have hsum : (indices.map fun i => effectiveBalanceOf validators i * weight i).sum = P.EFFECTIVE_BALANCE_INCREMENT *
      (indices.map fun i => effectiveBalanceOf validators i / P.EFFECTIVE_BALANCE_INCREMENT * weight i).sum := by
    induction indices with
    | nil => rfl
    | cons i indices ih =>
      have hdvd : P.EFFECTIVE_BALANCE_INCREMENT ∣ effectiveBalanceOf validators i := by
        unfold effectiveBalanceOf
        cases hv : validators[i]? with
        | none => exact Nat.dvd_zero _
        | some v => exact hmultiples v (List.mem_of_getElem? hv)
      rw [List.map_cons, List.sum_cons, ih, List.map_cons, List.sum_cons, Nat.mul_add, ← Nat.mul_assoc, Nat.mul_div_cancel' hdvd]
  rw [hsum, Nat.mul_div_cancel_left _ P.effectiveBalanceIncrement_pos]

theorem HasDuties.attestingIndices {data : AttestationData} {bits : List Bool} {indices : List Nat}
    (hduties : HasDuties env cfg s.toBeaconState s.epochCtx) (hindices : s.epochCtx.getAttestingIndices P data bits = .ok indices) :
    indices.Nodup ∧ ∀ i ∈ indices, i < s.validators.length := by
  obtain ⟨committee, hcommittee, hindices⟩ := bind_eq_ok.1 hindices
  rw [pure_eq_ok] at hindices
  subst hindices
  obtain ⟨hnodup, hvalid, -⟩ := hduties.committee hcommittee
  have hsub := zipIndexesCommitteeBits_sublist committee bits
  exact ⟨hnodup.sublist hsub, fun i hi => hvalid i (hsub.subset hi)⟩

/-- **An accepted attestation does what the specification does**, and pays for the flags it is the first to set. -/
theorem processAttestationAltair_spec (hduties : HasDuties env cfg s.toBeaconState s.epochCtx)
    (haltair : cfg.ALTAIR_FORK_EPOCH ≤ (getCurrentEpoch s.toBeaconState : ℕ∞))
    (hmultiples : ∀ v ∈ s.validators, P.EFFECTIVE_BALANCE_INCREMENT ∣ v.effectiveBalance)
    (h : processAttestationAltair env s attestation verify = .ok s') : specRewardAttestation s attestation = .ok s' ∧
      ∃ totalBalance credits participation, getTotalActiveBalance s.toBeaconState = .ok totalBalance ∧
        attestationCredits s attestation = .ok credits ∧
        specUpdateParticipation s attestation = .ok (participation, (credits.map (creditValue s totalBalance)).sum) := by
  obtain ⟨flags, indices, participation, total, proposerIndex, -, hflags, hindices, hadd, hproposer, hincrease⟩ :=
    processAttestationAltair_run h
  obtain ⟨totalBalance, htotal, -, -, hbase⟩ := hduties.rewards
  rw [if_pos haltair, computeBaseRewardPerIncrement, Util.bigIntSqrt_eq] at hbase
  obtain ⟨hnodup, hvalid⟩ := hduties.attestingIndices hindices
  generalize hisCurrent : isOfCurrentEpoch s attestation.data = isCurrent at hadd hincrease
  have hbounds := addParticipation_bounds indices hadd
  have hcode := foldlM_participation (participationTurn s.validators flags) indices (s.participationOf isCurrent, 0) hnodup hbounds
    fun i hi acc status hstatus => participationTurn_eq flags (hvalid i hi) hstatus
  have hspec := foldlM_participation (specUpdateFlags s flags) indices (s.participationOf isCurrent, 0) hnodup hbounds
    fun i hi acc status hstatus => specUpdateFlags_eq hstatus fun _ => specGetBaseRewardAltair_eq htotal (hvalid i hi)
  obtain ⟨rfl, rfl⟩ := Prod.mk.inj (Except.ok.inj (hadd.symm.trans hcode))
  rw [Nat.zero_add, sum_increments hmultiples, hbase] at hincrease
  have hcredits : attestationCredits s attestation =
      .ok (indices.flatMap (newCredits flags (s.participationOf isCurrent) attestation.data.target.epoch)) := by
    unfold attestationCredits
    rw [hflags, hindices, hisCurrent]
    rfl
  have hupdate : specUpdateParticipation s attestation = .ok ((s.participationOf isCurrent).mapIdx
      (fun i status => if i ∈ indices then status.or flags else status), (indices.map fun i =>
        effectiveBalanceOf s.validators i / P.EFFECTIVE_BALANCE_INCREMENT *
          newWeight ((s.participationOf isCurrent).getD i emptyParticipationStatus) flags).sum *
        (P.EFFECTIVE_BALANCE_INCREMENT * P.BASE_REWARD_FACTOR / Nat.sqrt totalBalance)) := by
    unfold specUpdateParticipation
    rw [hflags, hindices, hisCurrent]
    refine hspec.trans ?_
    rw [Nat.zero_add, ← List.sum_map_mul_right]
    congr 4
    funext i
    unfold baseRewardAltair
    rw [Nat.mul_right_comm]
  have hvalue : (indices.map fun i => effectiveBalanceOf s.validators i / P.EFFECTIVE_BALANCE_INCREMENT *
      newWeight ((s.participationOf isCurrent).getD i emptyParticipationStatus) flags).sum *
        (P.EFFECTIVE_BALANCE_INCREMENT * P.BASE_REWARD_FACTOR / Nat.sqrt totalBalance) =
      ((indices.flatMap (newCredits flags (s.participationOf isCurrent) attestation.data.target.epoch)).map
        (creditValue s totalBalance)).sum := by
    rw [← List.sum_map_mul_right, List.map_flatMap, List.flatMap_def, List.sum_flatten, List.map_map]
    congr 1
    apply List.map_congr_left
    intro i hi
    obtain ⟨status, hstatus⟩ : ∃ status, (s.participationOf isCurrent)[i]? = some status :=
      ⟨_, List.getElem?_eq_getElem (hbounds i hi)⟩
    have hread : (s.participationOf isCurrent).getD i emptyParticipationStatus = status := by
      simp [List.getD, hstatus]
    dsimp only [Function.comp]
    rw [newCredits_value s totalBalance hstatus, hread]
    exact Nat.mul_right_comm _ _ _
  refine ⟨?_, totalBalance, _, _, htotal, hcredits, hvalue ▸ hupdate⟩
  obtain ⟨proposer, hproposer, hindex⟩ := bind_eq_ok.1 hproposer
  unfold specRewardAttestation
  rw [hupdate, hproposer, hisCurrent]
  dsimp only [bind, Except.bind]
  rw [hindex]
  exact hincrease

/-! ## The attestations of a block -/

/-- What an attestation is judged by. -/
structure SameGround (s t : CachedBeaconState P) : Prop where
  slot : t.slot = s.slot
  epochCtx : t.epochCtx = s.epochCtx
  finality : t.finality = s.finality
  blockRoots : t.blockRoots = s.blockRoots
  randaoMixes : t.randaoMixes = s.randaoMixes
  validators : t.validators = s.validators

theorem SameGround.refl (s : CachedBeaconState P) : SameGround s s := ⟨rfl, rfl, rfl, rfl, rfl, rfl⟩

theorem SameGround.trans {r : CachedBeaconState P} (h : SameGround r s) (h' : SameGround s t) : SameGround r t :=
  ⟨h'.slot.trans h.slot, h'.epochCtx.trans h.epochCtx, h'.finality.trans h.finality, h'.blockRoots.trans h.blockRoots,
    h'.randaoMixes.trans h.randaoMixes, h'.validators.trans h.validators⟩

theorem SameGround.hasDuties (h : SameGround s t) (hduties : HasDuties env cfg s.toBeaconState s.epochCtx) :
    HasDuties env cfg t.toBeaconState t.epochCtx := by
  have hepoch : getCurrentEpoch t.toBeaconState = getCurrentEpoch s.toBeaconState := congrArg (computeEpochAtSlot P) h.slot
  rw [h.epochCtx]
  exact hduties.of_eq hepoch h.randaoMixes h.validators

theorem getAttestationParticipationStatus_congr (h : SameGround s t) (data : AttestationData) (inclusionDelay : Nat) :
    getAttestationParticipationStatus t data inclusionDelay = getAttestationParticipationStatus s data inclusionDelay := by
  have hcurrent : t.currentJustifiedCheckpoint = s.currentJustifiedCheckpoint := congrArg (·.currentJustifiedCheckpoint) h.finality
  have hprevious : t.previousJustifiedCheckpoint = s.previousJustifiedCheckpoint := congrArg (·.previousJustifiedCheckpoint) h.finality
  unfold getAttestationParticipationStatus getBlockRoot getBlockRootAtSlot
  rw [h.slot, h.epochCtx, h.blockRoots, hcurrent, hprevious]

section

variable (s : CachedBeaconState P) (attestation : Attestation)

def timelyFlags : ParticipationStatus :=
  ((getAttestationParticipationStatus s attestation.data (s.slot - attestation.data.slot)).toOption).getD emptyParticipationStatus

def voters : List Nat :=
  ((s.epochCtx.getAttestingIndices P attestation.data attestation.aggregationBits).toOption).getD []

end

def setsFlag (s : CachedBeaconState P) (isCurrent : Bool) (i flagIndex : Nat) (attestation : Attestation) : Bool :=
  decide (isOfCurrentEpoch s attestation.data = isCurrent) && decide (i ∈ voters s attestation) &&
    hasFlag (timelyFlags s attestation) flagIndex

theorem setsFlag_congr (h : SameGround s t) (isCurrent : Bool) (i flagIndex : Nat) (attestation : Attestation) :
    setsFlag t isCurrent i flagIndex attestation = setsFlag s isCurrent i flagIndex attestation := by
  unfold setsFlag isOfCurrentEpoch voters timelyFlags
  rw [getAttestationParticipationStatus_congr h, h.slot, h.epochCtx]

theorem participationOf_withParticipation (s : CachedBeaconState P) (isCurrent isCurrent' : Bool)
    (participation : List ParticipationStatus) : (s.withParticipation isCurrent participation).participationOf isCurrent' =
      if isCurrent = isCurrent' then participation else s.participationOf isCurrent' := by
  cases isCurrent <;> cases isCurrent' <;> rfl

theorem processAttestationAltair_flags (hduties : HasDuties env cfg s.toBeaconState s.epochCtx)
    (h : processAttestationAltair env s attestation verify = .ok s') : SameGround s s' ∧
      (∀ i ∈ voters s attestation, i < (s.participationOf (isOfCurrentEpoch s attestation.data)).length) ∧
      ∀ isCurrent i flagIndex, ((s'.participationOf isCurrent)[i]?).map (hasFlag · flagIndex) =
        ((s.participationOf isCurrent)[i]?).map fun old =>
          hasFlag old flagIndex || setsFlag s isCurrent i flagIndex attestation := by
  obtain ⟨flags, indices, participation, total, proposerIndex, -, hflags, hindices, hadd, -, hincrease⟩ :=
    processAttestationAltair_run h
  obtain ⟨hnodup, hvalid⟩ := hduties.attestingIndices hindices
  have htimely : timelyFlags s attestation = flags := by
    unfold timelyFlags
    rw [hflags]
    rfl
  have hvoters : voters s attestation = indices := by
    unfold voters
    rw [hindices]
    rfl
  generalize hisCurrent : isOfCurrentEpoch s attestation.data = isCurrent at hadd hincrease
  have hbounds := addParticipation_bounds indices hadd
  have hcode := foldlM_participation (participationTurn s.validators flags) indices (s.participationOf isCurrent, 0) hnodup
    hbounds fun i hi acc status hstatus => participationTurn_eq flags (hvalid i hi) hstatus
  obtain ⟨rfl, -⟩ := Prod.mk.inj (Except.ok.inj (hadd.symm.trans hcode))
  obtain ⟨balances, -, rfl⟩ := increaseBalance_ok hincrease
  refine ⟨?_, hvoters ▸ hbounds, fun isCurrent' i flagIndex => ?_⟩
  · cases isCurrent <;> exact ⟨rfl, rfl, rfl, rfl, rfl, rfl⟩
  · have hbalances : ∀ t : CachedBeaconState P, CachedBeaconState.participationOf { t with balances := balances } isCurrent' =
        t.participationOf isCurrent' := fun _ => rfl
    rw [hbalances, participationOf_withParticipation]
    unfold setsFlag
    rw [hisCurrent, htimely, hvoters]
    by_cases hsame : isCurrent = isCurrent'
    · subst hsame
      rw [if_pos rfl, List.getElem?_mapIdx, Option.map_map]
      congr 1
      funext old
      by_cases hi : i ∈ indices <;> simp [hi, hasFlag_or]
    · simp [hsame]

theorem foldlM_processAttestationAltair_flags : ∀ (attestations : List Attestation) {s s' : CachedBeaconState P},
    HasDuties env cfg s.toBeaconState s.epochCtx →
    attestations.foldlM (fun state op => processAttestationAltair env state op verify) s = .ok s' →
    SameGround s s' ∧ ∀ isCurrent i flagIndex, ((s'.participationOf isCurrent)[i]?).map (hasFlag · flagIndex) =
      ((s.participationOf isCurrent)[i]?).map fun old =>
        hasFlag old flagIndex || attestations.any (setsFlag s isCurrent i flagIndex)
  | [], s, s', _, h => by
    rw [List.foldlM_nil, pure_eq_ok] at h
    subst h
    refine ⟨.refl s, fun isCurrent i flagIndex => ?_⟩
    simp
  | attestation :: attestations, s, s', hduties, h => by
    obtain ⟨t, hfirst, hrest⟩ := bind_eq_ok.1 h
    obtain ⟨hground, -, hflags⟩ := processAttestationAltair_flags hduties hfirst
    obtain ⟨hground', hflags'⟩ := foldlM_processAttestationAltair_flags attestations (hground.hasDuties hduties) hrest
    refine ⟨hground.trans hground', fun isCurrent i flagIndex => ?_⟩
    have hcongr : attestations.any (setsFlag t isCurrent i flagIndex) = attestations.any (setsFlag s isCurrent i flagIndex) := by
      congr 1
      funext op
      exact setsFlag_congr hground isCurrent i flagIndex op
    have hrewritten : ((t.participationOf isCurrent)[i]?).map (fun old => hasFlag old flagIndex ||
        attestations.any (setsFlag s isCurrent i flagIndex)) =
        (((t.participationOf isCurrent)[i]?).map (hasFlag · flagIndex)).map
          (· || attestations.any (setsFlag s isCurrent i flagIndex)) := by
      rw [Option.map_map]
      rfl
    rw [hflags', hcongr, hrewritten, hflags, Option.map_map]
    congr 1
    funext old
    simp [Bool.or_assoc]

end Lodestar.StateTransition
