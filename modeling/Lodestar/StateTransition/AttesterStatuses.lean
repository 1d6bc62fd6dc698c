import Mathlib.Data.List.MinMax
import Lodestar.Lib.Updates
import Lodestar.StateTransition.EpochProcess
/-!
# AttesterStatuses — what the flags of a status say

The loops over the pending attestations and over the participation lists set bits of a status, in whatever order they come to it.
In the end a bit of a validator says whether some attestation of its own voted as the bit stands for (`statusProcessEpoch_ok`), or
whether the participation list does (`participationProcessEpoch_ok`), and the noted inclusion is the earliest.
-/
namespace Lodestar.StateTransition

open Lib

variable {P : Preset} {cfg : ChainConfig} {s : CachedBeaconState P} {process : EpochProcess}

/-! ## Markers -/

variable {flags markers sourceFlag targetFlag headFlag i : Nat}

theorem hasMarkers_iff :
    hasMarkers flags markers = true ↔ ∀ k, markers.testBit k = true → flags.testBit k = true := by
  unfold hasMarkers
  rw [beq_iff_eq]
  constructor
  · intro h k hk
    have hand : (flags &&& markers).testBit k = markers.testBit k := congrArg (Nat.testBit · k) h
    rw [Nat.testBit_and, hk, Bool.and_true] at hand
    exact hand
  · intro h
    apply Nat.eq_of_testBit_eq
    intro k
    rw [Nat.testBit_and]
    cases hk : markers.testBit k with
    | false => simp
    | true => simp [h k hk]

theorem hasMarkers_or (flags markers markers' : Nat) :
    hasMarkers flags (markers ||| markers') = (hasMarkers flags markers && hasMarkers flags markers') := by
  rw [Bool.eq_iff_iff, Bool.and_eq_true, hasMarkers_iff, hasMarkers_iff, hasMarkers_iff]
  simp only [Nat.testBit_or, Bool.or_eq_true]
  constructor
  · intro h
    exact ⟨fun k hk => h k (.inl hk), fun k hk => h k (.inr hk)⟩
  · rintro ⟨h, h'⟩ k (hk | hk)
    · exact h k hk
    · exact h' k hk

theorem hasMarkers_bit (flags k : Nat) : hasMarkers flags (1 <<< k) = flags.testBit k := by
  rw [Bool.eq_iff_iff, hasMarkers_iff, Nat.one_shiftLeft]
  simp only [Nat.testBit_two_pow, decide_eq_true_eq]
  constructor
  · intro h
    exact h k rfl
  · rintro h j rfl
    exact h

theorem testBit_bit (j k : Nat) : (1 <<< j).testBit k = decide (j = k) := by
  rw [Nat.one_shiftLeft, Nat.testBit_two_pow]

theorem testBit_ite (c : Prop) [Decidable c] (flags flags' k : Nat) :
    (if c then flags else flags').testBit k = if c then flags.testBit k else flags'.testBit k := by
  by_cases h : c <;> simp [h]

/-! ## Statuses before any vote -/

def isEligibleValidator (prevEpoch : Nat) (v : Validator) : Bool :=
  isActiveValidator v prevEpoch || (v.slashed && decide (((prevEpoch + 1 : Nat) : ℕ∞) < v.withdrawableEpoch))

theorem initialStatus_testBit (prevEpoch currentEpoch : Nat) (v : Validator) (k : Nat) :
    (initialStatus prevEpoch currentEpoch v).flags.testBit k =
      (!v.slashed && decide (6 = k) || isEligibleValidator prevEpoch v && decide (7 = k)) := by
  unfold initialStatus isEligibleValidator FLAG_UNSLASHED FLAG_ELIGIBLE_ATTESTER
  simp only [Nat.testBit_or, testBit_ite, testBit_bit, Nat.zero_testBit]
  generalize (isActiveValidator v prevEpoch || (v.slashed && decide (((prevEpoch + 1 : Nat) : ℕ∞) < v.withdrawableEpoch))) = eligible
  cases v.slashed <;> cases eligible <;> simp

/-! ## Pending attestations -/

section

variable (state : CachedBeaconState P)

section

variable (att : PendingAttestation)

def attesters : List Nat :=
  (state.epochCtx.getAttestingIndices P att.data att.aggregationBits).toOption.getD []

def votedTarget (epoch : Nat) (att : PendingAttestation) : Bool :=
  decide (getBlockRoot state.toBeaconState epoch = .ok att.data.target.root)

def votedHead : Bool :=
  decide (getBlockRootAtSlot state.toBeaconState att.data.slot = .ok att.data.beaconBlockRoot)

def voteFlags (epoch sourceFlag targetFlag headFlag : Nat) (att : PendingAttestation) : Nat :=
  sourceFlag ||| if votedTarget state epoch att then targetFlag ||| (if votedHead state att then headFlag else 0) else 0

def noteEarlier (status : AttesterStatus) : AttesterStatus :=
  if status.proposerIndex = -1 ∨ att.inclusionDelay < status.inclusionDelay
  then { status with proposerIndex := att.proposerIndex, inclusionDelay := att.inclusionDelay } else status

end

def takeVote (epoch sourceFlag targetFlag headFlag : Nat) (status : AttesterStatus) (att : PendingAttestation) : AttesterStatus :=
  let status := if epoch = state.epochCtx.previousShuffling.epoch then noteEarlier att status else status
  { status with flags := status.flags ||| voteFlags state epoch sourceFlag targetFlag headFlag att }

end

theorem noteEarlier_twice (att : PendingAttestation) (status : AttesterStatus) :
    noteEarlier att (noteEarlier att status) = noteEarlier att status := by
  unfold noteEarlier
  by_cases h : status.proposerIndex = -1 ∨ att.inclusionDelay < status.inclusionDelay <;> simp [h]

variable {statuses statuses' : List AttesterStatus} {participants : List Nat} {att : PendingAttestation}

theorem noteFlags_ok (h : noteFlags statuses participants flags = .ok statuses') :
    (∀ i ∈ participants, i < statuses.length) ∧
      statuses' = statuses.mapIdx fun i status =>
        if i ∈ participants then { status with flags := status.flags ||| flags } else status := by
  refine (foldlM_modifyAt_eq_ok (fun status => ?_) participants statuses statuses').1 h
  simp [Nat.or_assoc]

variable {epoch sourceFlag targetFlag headFlag : Nat}

theorem statusTurn_ok {root headRoot : Root} {committee : List Nat} (hroot : getBlockRoot s.toBeaconState epoch = .ok root)
    (hhead : getBlockRootAtSlot s.toBeaconState att.data.slot = .ok headRoot)
    (hcommittee : s.epochCtx.getBeaconCommittee P att.data.slot att.data.index = .ok committee)
    (h : ((if epoch = s.epochCtx.previousShuffling.epoch then noteInclusion statuses
        (zipIndexesCommitteeBits committee att.aggregationBits) att.inclusionDelay att.proposerIndex else pure statuses) >>=
      fun statuses => noteFlags statuses (zipIndexesCommitteeBits committee att.aggregationBits)
        (sourceFlag ||| (if decide (att.data.target.root = root) then
          targetFlag ||| (if decide (att.data.beaconBlockRoot = headRoot) then headFlag else 0) else 0))) = .ok statuses') :
    (∀ i ∈ attesters s att, i < statuses.length) ∧ statuses' = statuses.mapIdx fun i status =>
      if i ∈ attesters s att then takeVote s epoch sourceFlag targetFlag headFlag status att else status := by
  have hattesters : attesters s att = zipIndexesCommitteeBits committee att.aggregationBits := by
    unfold attesters EpochContext.getAttestingIndices
    rw [hcommittee]
    rfl
  have hflags : (sourceFlag ||| (if decide (att.data.target.root = root) then
      targetFlag ||| (if decide (att.data.beaconBlockRoot = headRoot) then headFlag else 0) else 0)) =
      voteFlags s epoch sourceFlag targetFlag headFlag att := by
    unfold voteFlags votedTarget votedHead
    simp only [hroot, hhead, ok_eq_ok_comm]
  rw [← hattesters, hflags] at h
  obtain ⟨statuses₁, h₁, h⟩ := bind_eq_ok.1 h
  obtain ⟨hbound, rfl⟩ := noteFlags_ok h
  by_cases hepoch : epoch = s.epochCtx.previousShuffling.epoch
  · rw [if_pos hepoch] at h₁
    obtain rfl := ((foldlM_modifyAt_eq_ok (noteEarlier_twice att) _ _ _).1 h₁).2
    rw [List.length_mapIdx] at hbound
    refine ⟨hbound, ?_⟩
    rw [List.mapIdx_mapIdx]
    congr 1
    funext i status
    by_cases hi : i ∈ attesters s att <;> simp [hi, takeVote, hepoch]
  · rw [if_neg hepoch, pure_eq_ok] at h₁
    subst h₁
    refine ⟨hbound, ?_⟩
    congr 1
    funext i status
    by_cases hi : i ∈ attesters s att <;> simp [hi, takeVote, hepoch]

/-- **What the loop of an epoch leaves of a status**: the votes of the validator's own attestations, one after the other. -/
theorem statusProcessEpoch_ok {atts : List PendingAttestation}
    (h : statusProcessEpoch s statuses atts epoch sourceFlag targetFlag headFlag = .ok statuses') :
    (∃ root, getBlockRoot s.toBeaconState epoch = .ok root) ∧
    (∀ att ∈ atts, (∃ indices, s.epochCtx.getAttestingIndices P att.data att.aggregationBits = .ok indices) ∧
      (∃ root, getBlockRootAtSlot s.toBeaconState att.data.slot = .ok root) ∧ ∀ i ∈ attesters s att, i < statuses.length) ∧
    statuses' = statuses.mapIdx fun i status =>
      (atts.filter fun att => decide (i ∈ attesters s att)).foldl (takeVote s epoch sourceFlag targetFlag headFlag) status := by
  obtain ⟨root, hroot, hloop⟩ := bind_eq_ok.1 h
  clear h
  refine ⟨⟨root, hroot⟩, ?_⟩
  induction atts generalizing statuses with
  | nil =>
    rw [List.foldlM_nil, pure_eq_ok] at hloop
    refine ⟨fun att hatt => absurd hatt List.not_mem_nil, ?_⟩
    apply List.ext_getElem?
    simp [hloop]
  | cons att atts ih =>
    obtain ⟨statuses₁, h₁, hloop⟩ := bind_eq_ok.1 hloop
    obtain ⟨headRoot, hhead, h₁⟩ := bind_eq_ok.1 h₁
    obtain ⟨committee, hcommittee, h₁⟩ := bind_eq_ok.1 h₁
    obtain ⟨hbound, rfl⟩ := statusTurn_ok hroot hhead hcommittee h₁
    obtain ⟨hrest, rfl⟩ := ih hloop
    refine ⟨fun att' hatt' => ?_, ?_⟩
    · rcases List.mem_cons.1 hatt' with rfl | hatt'
      · have hindices : s.epochCtx.getAttestingIndices P att'.data att'.aggregationBits =
            .ok (zipIndexesCommitteeBits committee att'.aggregationBits) := by
          unfold EpochContext.getAttestingIndices
          rw [hcommittee]
          rfl
        exact ⟨⟨_, hindices⟩, ⟨headRoot, hhead⟩, hbound⟩
      · obtain ⟨hindices, hroots, hmembers⟩ := hrest att' hatt'
        rw [List.length_mapIdx] at hmembers
        exact ⟨hindices, hroots, hmembers⟩
    · rw [List.mapIdx_mapIdx]
      congr 1
      funext i status
      by_cases hi : i ∈ attesters s att <;> simp [hi]

variable {status : AttesterStatus}

/-! ## Participation flags -/

def participationFlags (sourceFlag targetFlag headFlag : Nat) (participation : ParticipationStatus) : Nat :=
  (if participation.timelySource then sourceFlag else 0) ||| (if participation.timelyTarget then targetFlag else 0) |||
    (if participation.timelyHead then headFlag else 0)

theorem participationProcessEpoch_ok {participation : List ParticipationStatus}
    (h : participationProcessEpoch statuses participation sourceFlag targetFlag headFlag = .ok statuses') :
    participation.length ≤ statuses.length ∧ statuses' = statuses.mapIdx fun i status => (participation[i]?).elim status fun entry =>
      { status with flags := status.flags ||| participationFlags sourceFlag targetFlag headFlag entry } :=
  (foldlM_zipIdx_modifyAt_eq_ok participation statuses statuses').1 h

/-! ## The statuses of the record -/

theorem prepareEpochProcessState_statuses (h : prepareEpochProcessState cfg s = .ok process) :
    attestedStatuses (getForkName P cfg s.slot) s (s.validators.map (initialStatus s.epochCtx.previousShuffling.epoch
      s.epochCtx.currentShuffling.epoch)) s.epochCtx.previousShuffling.epoch s.epochCtx.currentShuffling.epoch =
        .ok process.statuses ∧
    process.prevEpoch = s.epochCtx.previousShuffling.epoch ∧
    process.baseRewardPerIncrement = computeBaseRewardPerIncrement P process.totalActiveStake ∧
    process.prevEpochUnslashedStake = {
      sourceStake := stakeWith P FLAG_PREV_SOURCE_ATTESTER_OR_UNSLASHED process.statuses s.validators
      targetStake := stakeWith P FLAG_PREV_TARGET_ATTESTER_OR_UNSLASHED process.statuses s.validators
      headStake := stakeWith P FLAG_PREV_HEAD_ATTESTER_OR_UNSLASHED process.statuses s.validators } := by
  unfold prepareEpochProcessState at h
  simp only [bind_eq_ok, pure_eq_ok] at h
  obtain ⟨statuses, hstatuses, rfl⟩ := h
  exact ⟨hstatuses, rfl, rfl, rfl⟩

structure SaysOfPrevious (s : CachedBeaconState P) (v : Validator) (source target head : Bool) (status : AttesterStatus) : Prop where
  eligible : hasMarkers status.flags FLAG_ELIGIBLE_ATTESTER = isEligibleValidator s.epochCtx.previousShuffling.epoch v
  source : hasMarkers status.flags FLAG_PREV_SOURCE_ATTESTER_OR_UNSLASHED = (source && !v.slashed)
  target : hasMarkers status.flags FLAG_PREV_TARGET_ATTESTER_OR_UNSLASHED = (target && !v.slashed)
  head : hasMarkers status.flags FLAG_PREV_HEAD_ATTESTER_OR_UNSLASHED = (head && !v.slashed)

variable {v : Validator}

theorem saysOfPrevious_of_bits {source target head : Bool}
    (hbit : ∀ k, k < 3 ∨ k = 6 ∨ k = 7 → status.flags.testBit k = (!v.slashed && decide (6 = k) ||
      isEligibleValidator s.epochCtx.previousShuffling.epoch v && decide (7 = k) ||
      (source && decide (0 = k) || target && decide (1 = k) || head && decide (2 = k)))) :
    SaysOfPrevious s v source target head status where
  eligible := by
    unfold FLAG_ELIGIBLE_ATTESTER
    rw [hasMarkers_bit, hbit 7 (by omega)]
    simp
  source := by
    unfold FLAG_PREV_SOURCE_ATTESTER_OR_UNSLASHED FLAG_PREV_SOURCE_ATTESTER FLAG_UNSLASHED
    rw [hasMarkers_or, hasMarkers_bit, hasMarkers_bit, hbit 0 (by omega), hbit 6 (by omega)]
    simp
  target := by
    unfold FLAG_PREV_TARGET_ATTESTER_OR_UNSLASHED FLAG_PREV_TARGET_ATTESTER FLAG_UNSLASHED
    rw [hasMarkers_or, hasMarkers_bit, hasMarkers_bit, hbit 1 (by omega), hbit 6 (by omega)]
    simp
  head := by
    unfold FLAG_PREV_HEAD_ATTESTER_OR_UNSLASHED FLAG_PREV_HEAD_ATTESTER FLAG_UNSLASHED
    rw [hasMarkers_or, hasMarkers_bit, hasMarkers_bit, hbit 2 (by omega), hbit 6 (by omega)]
    simp

def participatedPrevious (s : CachedBeaconState P) (i : Nat) (flag : ParticipationStatus → Bool) : Bool :=
  (s.previousEpochParticipation[i]?).any flag

theorem participationFlags_testBit (a b c k : Nat) (participation : ParticipationStatus) :
    (participationFlags (1 <<< a) (1 <<< b) (1 <<< c) participation).testBit k = (participation.timelySource && decide (a = k) ||
      participation.timelyTarget && decide (b = k) || participation.timelyHead && decide (c = k)) := by
  unfold participationFlags
  simp only [Nat.testBit_or, testBit_ite, testBit_bit, Nat.zero_testBit]
  cases participation.timelySource <;> cases participation.timelyTarget <;> cases participation.timelyHead <;> simp

theorem participated_testBit (a b c k : Nat) (participation : Option ParticipationStatus) (status : AttesterStatus) :
    (participation.elim status fun entry => { status with
      flags := status.flags ||| participationFlags (1 <<< a) (1 <<< b) (1 <<< c) entry }).flags.testBit k =
    (status.flags.testBit k || (participation.any (·.timelySource) && decide (a = k) ||
      participation.any (·.timelyTarget) && decide (b = k) || participation.any (·.timelyHead) && decide (c = k))) := by
  cases participation with
  | none => simp
  | some entry =>
    dsimp only [Option.elim_some, Option.any_some]
    rw [Nat.testBit_or, participationFlags_testBit]

theorem altair_status (h : prepareEpochProcessState cfg s = .ok process) (hfork : getForkName P cfg s.slot = .altair)
    (hv : s.validators[i]? = some v) : ∃ status, process.statuses[i]? = some status ∧
      SaysOfPrevious s v (participatedPrevious s i (·.timelySource)) (participatedPrevious s i (·.timelyTarget))
        (participatedPrevious s i (·.timelyHead)) status := by
  obtain ⟨hstatuses, -⟩ := prepareEpochProcessState_statuses h
  rw [hfork] at hstatuses
  obtain ⟨statuses, hprevious, hcurrent⟩ := bind_eq_ok.1 hstatuses
  obtain ⟨-, rfl⟩ := participationProcessEpoch_ok hprevious
  obtain ⟨-, hfinal⟩ := participationProcessEpoch_ok hcurrent
  refine ⟨_, by rw [hfinal, List.getElem?_mapIdx, List.getElem?_mapIdx, List.getElem?_map, hv]; rfl, ?_⟩
  refine saysOfPrevious_of_bits fun k hk => ?_
  unfold FLAG_PREV_SOURCE_ATTESTER FLAG_PREV_TARGET_ATTESTER FLAG_PREV_HEAD_ATTESTER FLAG_CURR_SOURCE_ATTESTER
    FLAG_CURR_TARGET_ATTESTER FLAG_CURR_HEAD_ATTESTER
  rw [participated_testBit, participated_testBit, initialStatus_testBit]
  have h3 : ¬ 3 = k := by omega
  have h4 : ¬ 4 = k := by omega
  have h5 : ¬ 5 = k := by omega
  simp [h3, h4, h5, participatedPrevious]

theorem prepareEpochProcessState_length (h : prepareEpochProcessState cfg s = .ok process) :
    process.statuses.length = s.validators.length := by
  obtain ⟨hstatuses, -⟩ := prepareEpochProcessState_statuses h
  cases hfork : getForkName P cfg s.slot with
  | phase0 =>
    rw [hfork] at hstatuses
    obtain ⟨statuses, hprevious, hcurrent⟩ := bind_eq_ok.1 hstatuses
    obtain ⟨-, -, rfl⟩ := statusProcessEpoch_ok hprevious
    obtain ⟨-, -, hfinal⟩ := statusProcessEpoch_ok hcurrent
    simp [hfinal]
  | altair =>
    rw [hfork] at hstatuses
    obtain ⟨statuses, hprevious, hcurrent⟩ := bind_eq_ok.1 hstatuses
    obtain ⟨-, rfl⟩ := participationProcessEpoch_ok hprevious
    obtain ⟨-, hfinal⟩ := participationProcessEpoch_ok hcurrent
    simp [hfinal]

end Lodestar.StateTransition
