import Lodestar.StateTransition.Justification
import Lodestar.StateTransition.BlockSteps
import Lodestar.StateTransition.Transition
/-!
# Frames — the steps that leave the latest header and the votes alone

Of a block these are all but its header and its attestations; of an epoch, all but the justification and the rotation of the votes.
They write neither the latest header, nor the votes, nor what votes are compared with, and a deposit appends a validator with a
balance and without a flag: `KeepsFrame`.
So a block is its attestations between two steps that keep the votes: `processBlockByFork_votes`.
-/
namespace Lodestar.StateTransition

open Lib

variable {P : Preset} {env : Env P} {cfg : ChainConfig} {fork : ForkName} {s s' s'' : CachedBeaconState P}
  {process process' : EpochProcess}

/-! ## The relations -/

structure KeepsVotes (s s' : CachedBeaconState P) : Prop where
  slot : s'.slot = s.slot
  epochCtx : SameButKeys s.epochCtx s'.epochCtx
  finality : s'.finality = s.finality
  blockRoots : s'.blockRoots = s.blockRoots
  previousEpochAttestations : s'.previousEpochAttestations = s.previousEpochAttestations
  currentEpochAttestations : s'.currentEpochAttestations = s.currentEpochAttestations
  participation : ∃ added, s'.validators.length = s.validators.length + added ∧
    s'.previousEpochParticipation = s.previousEpochParticipation ++ List.replicate added emptyParticipationStatus ∧
    s'.currentEpochParticipation = s.currentEpochParticipation ++ List.replicate added emptyParticipationStatus

theorem KeepsVotes.trans (h : KeepsVotes s s') (h' : KeepsVotes s' s'') : KeepsVotes s s'' where
  slot := h'.slot.trans h.slot
  epochCtx := h.epochCtx.trans h'.epochCtx
  finality := h'.finality.trans h.finality
  blockRoots := h'.blockRoots.trans h.blockRoots
  previousEpochAttestations := h'.previousEpochAttestations.trans h.previousEpochAttestations
  currentEpochAttestations := h'.currentEpochAttestations.trans h.currentEpochAttestations
  participation := by
    obtain ⟨added, hlength, hprevious, hcurrent⟩ := h.participation
    obtain ⟨added', hlength', hprevious', hcurrent'⟩ := h'.participation
    refine ⟨added + added', by omega, ?_, ?_⟩
    · rw [hprevious', hprevious, List.append_assoc, List.replicate_append_replicate]
    · rw [hcurrent', hcurrent, List.append_assoc, List.replicate_append_replicate]

structure KeepsFrame (s s' : CachedBeaconState P) : Prop extends KeepsVotes s s' where
  latestBlockHeader : s'.latestBlockHeader = s.latestBlockHeader
  balances : s.balances.length = s.validators.length → s'.balances.length = s'.validators.length

namespace KeepsFrame

theorem writes (s : CachedBeaconState P) {validators : List Validator} {balances : List Nat}
    (hvalidators : validators.length = s.validators.length) (hbalances : balances.length = s.balances.length)
    {historicalRoots : List Root} {eth1Data : Eth1Data} {eth1DataVotes : List Eth1Data} {eth1DepositIndex : Nat}
    {randaoMixes : Vector Root P.EPOCHS_PER_HISTORICAL_VECTOR} {slashings : Vector Nat P.EPOCHS_PER_SLASHINGS_VECTOR}
    {inactivityScores : List Nat} {currentSyncCommittee nextSyncCommittee : SyncCommittee}
    {currentIndexedSyncCommittee nextIndexedSyncCommittee : IndexedSyncCommittee} :
    KeepsFrame s { s with
      validators := validators
      balances := balances
      historicalRoots := historicalRoots
      eth1Data := eth1Data
      eth1DataVotes := eth1DataVotes
      eth1DepositIndex := eth1DepositIndex
      randaoMixes := randaoMixes
      slashings := slashings
      inactivityScores := inactivityScores
      currentSyncCommittee := currentSyncCommittee
      nextSyncCommittee := nextSyncCommittee
      currentIndexedSyncCommittee := currentIndexedSyncCommittee
      nextIndexedSyncCommittee := nextIndexedSyncCommittee } where
  slot := rfl
  epochCtx := SameButKeys.refl _
  finality := rfl
  blockRoots := rfl
  previousEpochAttestations := rfl
  currentEpochAttestations := rfl
  participation := ⟨0, hvalidators, (List.append_nil _).symm, (List.append_nil _).symm⟩
  latestBlockHeader := rfl
  balances h := hbalances.trans (h.trans hvalidators.symm)

theorem refl (s : CachedBeaconState P) : KeepsFrame s s := writes s rfl rfl

theorem trans (h : KeepsFrame s s') (h' : KeepsFrame s' s'') : KeepsFrame s s'' where
  toKeepsVotes := h.toKeepsVotes.trans h'.toKeepsVotes
  latestBlockHeader := h'.latestBlockHeader.trans h.latestBlockHeader
  balances hbalances := h'.balances (h.balances hbalances)

end KeepsFrame

/-! ## The operations of a block -/

theorem processRandao_frame {block : BeaconBlock} {verify : Bool} (h : processRandao env s block verify = .ok s') :
    KeepsFrame s s' := by
  unfold processRandao at h
  simp only [bind_eq_ok, pure_eq_ok] at h
  obtain ⟨_, -, _, -, rfl⟩ := h
  exact .writes s rfl rfl

theorem processEth1Data_frame (s : CachedBeaconState P) (body : BeaconBlockBody) : KeepsFrame s (processEth1Data s body) :=
  .writes s rfl rfl

theorem initiateValidatorExit_frame {cache cache' : ValidatorExitCache} {index : Nat}
    (h : initiateValidatorExit cfg s index cache = .ok (s', cache')) : KeepsFrame s s' := by
  unfold initiateValidatorExit at h
  simp only [bind_eq_ok] at h
  obtain ⟨validator, -, h⟩ := h
  split at h
  · simp only [pure_eq_ok, Prod.mk.injEq] at h
    obtain ⟨rfl, -⟩ := h
    exact .refl s
  · simp only [bind_eq_ok, pure_eq_ok, Prod.mk.injEq, Prod.exists] at h
    obtain ⟨epoch, cache₁, -, rfl, -⟩ := h
    exact .writes s (List.length_modify _ _ _) rfl

variable {work work' : CachedBeaconState P × ValidatorExitCache}

theorem BlockWrite.frame (h : BlockWrite env cfg work work') :
    KeepsFrame work.1 work'.1 := by
  cases h with
  | exit hexit => exact initiateValidatorExit_frame hexit
  | slashing s => exact .writes s (List.length_modify _ _ _) rfl
  | balances s _ hlength => exact .writes s rfl hlength
  | depositIndex s => exact .writes s rfl rfl
  | deposit s cache hkey hctx =>
    refine ⟨⟨rfl, hctx, rfl, rfl, rfl, rfl, 1, List.length_append, rfl, rfl⟩, rfl, fun h => ?_⟩
    rw [List.length_append, List.length_append, h]
    rfl

theorem BlockWrites.frame (h : BlockWrites env cfg work work') : KeepsFrame work.1 work'.1 :=
  h.keeps (R := fun work work' => KeepsFrame work.1 work'.1) (fun _ => .refl _) (fun _ _ _ => KeepsFrame.trans)
    fun _ _ => BlockWrite.frame

/-! ## The steps of an epoch -/

theorem processInactivityUpdates_frame (h : processInactivityUpdates cfg s process = .ok s') : KeepsFrame s s' := by
  obtain ⟨inactivityScores, rfl⟩ := processInactivityUpdates_ok h
  exact .writes s rfl rfl

theorem processRewardsAndPenalties_frame (h : processRewardsAndPenalties cfg fork s process = .ok (s', process')) :
    KeepsFrame s s' := by
  rcases processRewardsAndPenalties_run h with ⟨-, rfl, -⟩ | ⟨deltas, balances, -, hbalances, rfl, -⟩
  · exact .refl s'
  · unfold applyDeltas at hbalances
    have hlength : balances.length = s.balances.length := by
      rw [← (mapM_eq_ok_iff.1 hbalances).length_eq, List.length_zipIdx]
    exact .writes s rfl hlength

theorem length_foldl_modify {α : Type} (update : Nat → α → α) (indices : List Nat) (l : List α) :
    (indices.foldl (fun l index => l.modify index (update index)) l).length = l.length :=
  List.foldlRecOn (motive := fun l' : List α => l'.length = l.length) indices _ rfl fun _ h _ _ => (List.length_modify _ _ _).trans h

theorem length_ejections {churnLimit : Nat} (indices : List Nat) (work : List Validator × ℕ∞ × Nat) :
    (indices.foldl (ejectStep cfg churnLimit) work).1.length = work.1.length := by
  refine List.foldlRecOn (motive := fun work' : List Validator × ℕ∞ × Nat => work'.1.length = work.1.length) indices _ rfl fun _ h _ _ => ?_
  unfold ejectStep
  dsimp only
  split <;> exact (List.length_modify _ _ _).trans h

theorem processRegistryUpdates_frame (cfg : ChainConfig) (s : CachedBeaconState P) (process : EpochProcess) :
    KeepsFrame s (processRegistryUpdates cfg s process) := by
  refine .writes s ?_ rfl
  rw [length_foldl_modify fun _ => _, length_foldl_modify fun _ => _, length_ejections]

theorem processSlashingsAllForks_frame (h : processSlashingsAllForks fork s process = .ok s') : KeepsFrame s s' := by
  refine foldlM_keeps KeepsFrame.refl (fun _ _ _ => KeepsFrame.trans) _ (fun index _ t t' hstep => ?_) _ _ h
  obtain ⟨validator, -, hstep⟩ := bind_eq_ok.1 hstep
  obtain ⟨balances, hlength, rfl⟩ := decreaseBalance_ok hstep
  exact .writes t rfl hlength

theorem processEffectiveBalanceUpdates_frame (h : processEffectiveBalanceUpdates s process = .ok s') : KeepsFrame s s' := by
  refine foldlM_keeps KeepsFrame.refl (fun _ _ _ => KeepsFrame.trans) _ (fun entry _ t t' hstep => ?_) _ _ h
  obtain ⟨validator, -, hstep⟩ := bind_eq_ok.1 hstep
  split at hstep
  · rw [pure_eq_ok] at hstep
    exact hstep ▸ .writes t (List.length_modify _ _ _) rfl
  · rw [pure_eq_ok] at hstep
    exact hstep ▸ .refl t

theorem finalUpdates_frame {s₃ s₄ : CachedBeaconState P}
    (h : processEffectiveBalanceUpdates (processEth1DataReset s₃ process) process = .ok s₄) :
    KeepsFrame s₃
      (processHistoricalRootsUpdate env (processRandaoMixesReset (processSlashingsReset s₄ process) process) process) := by
  obtain ⟨historicalRoots, hroots⟩ :=
    processHistoricalRootsUpdate_writes env (processRandaoMixesReset (processSlashingsReset s₄ process) process) process
  obtain ⟨eth1DataVotes, hreset⟩ := processEth1DataReset_writes s₃ process
  rw [hreset] at h
  rw [hroots]
  have hupdated : KeepsFrame s₃ s₄ := .trans (.writes s₃ rfl rfl) (processEffectiveBalanceUpdates_frame h)
  exact hupdated.trans (.writes s₄ rfl rfl)

theorem processSyncCommitteeUpdates_frame (h : processSyncCommitteeUpdates env s process = .ok s') : KeepsFrame s s' := by
  obtain ⟨_, _, _, _, rfl⟩ := processSyncCommitteeUpdates_ok h
  exact .writes s rfl rfl

/-- The votes of the current epoch become those of the previous one. -/
def rotateVotes (fork : ForkName) (s : CachedBeaconState P) : CachedBeaconState P :=
  match fork with
  | .phase0 => processParticipationRecordUpdates s
  | .altair => processParticipationFlagUpdates s

theorem processEpochByFork_frames (h : processEpochByFork env cfg fork s = .ok s') : ∃ process s₁ t,
    prepareEpochProcessState cfg s = .ok process ∧ processJustificationAndFinalization s process = .ok s₁ ∧
    KeepsFrame s₁ t ∧ KeepsFrame (rotateVotes fork t) s' := by
  cases fork with
  | phase0 =>
    unfold processEpochByFork processEpochPhase0 processFinalUpdates at h
    simp only [bind_eq_ok, pure_eq_ok, Prod.exists] at h
    obtain ⟨process, hprep, s₁, h₁, s₂, process', h₂, s₃, h₃, s₄, h₄, rfl⟩ := h
    have hregistry := (processRewardsAndPenalties_frame h₂).trans (processRegistryUpdates_frame cfg s₂ process')
    exact ⟨process, s₁, _, hprep, h₁, (hregistry.trans (processSlashingsAllForks_frame h₃)).trans (finalUpdates_frame h₄), .refl _⟩
  | altair =>
    unfold processEpochByFork processEpochAltair at h
    simp only [bind_eq_ok, Prod.exists] at h
    obtain ⟨process, hprep, s₁, h₁, s₂, h₂, s₃, process', h₃, s₄, h₄, s₅, h₅, h₆⟩ := h
    have hrewards := (processInactivityUpdates_frame h₂).trans (processRewardsAndPenalties_frame h₃)
    have hregistry := hrewards.trans (processRegistryUpdates_frame cfg s₃ process')
    exact ⟨process, s₁, _, hprep, h₁, (hregistry.trans (processSlashingsAllForks_frame h₄)).trans (finalUpdates_frame h₅),
      processSyncCommitteeUpdates_frame h₆⟩

/-! ## The votes that a block leaves alone -/

variable {block : BeaconBlock} {verify : Bool}

theorem processBlockHeader_keepsVotes (h : processBlockHeader env cfg s block = .ok s') : KeepsVotes s s' := by
  unfold processBlockHeader at h
  simp only [bind_eq_ok, pure_eq_ok] at h
  obtain ⟨_, -, _, -, _, -, _, -, _, -, proposer, -, _, -, rfl⟩ := h
  exact { KeepsFrame.refl s with }

def stateBeforeAttestations (env : Env P) (cfg : ChainConfig) (fork : ForkName) (s : CachedBeaconState P) (block : BeaconBlock)
    (verify : Bool) : Except String (CachedBeaconState P) := do
  let s ← processBlockHeader env cfg s block
  let s ← processRandao env s block verify
  let s := processEth1Data s block.body
  let work ← block.body.proposerSlashings.foldlM (fun work op =>
    processProposerSlashing env cfg fork work.1 op work.2 verify) (s, ValidatorExitCache.empty)
  let work ← block.body.attesterSlashings.foldlM (fun work op =>
    processAttesterSlashing env cfg fork work.1 op work.2 verify) work
  pure work.1

theorem processBlockByFork_votes (h : processBlockByFork env cfg fork s block verify = .ok s') : ∃ t t',
    stateBeforeAttestations env cfg fork s block verify = .ok t ∧ KeepsVotes s t ∧
    block.body.attestations.foldlM (fun state op => processAttestation env fork state op verify) t = .ok t' ∧
    KeepsVotes t' s' := by
  obtain ⟨s₁, s₂, t, t', cache, cache', h₁, h₂, hslashings, hattestations, hwrites⟩ := processBlockByFork_writes h
  have hprepared := (processRandao_frame h₂).trans (processEth1Data_frame s₂ block.body)
  have hslashed := hprepared.trans (applySlashings_writes hslashings).frame
  obtain ⟨work, hproposers, hattesters⟩ := bind_eq_ok.1 hslashings
  refine ⟨t, t', ?_, (processBlockHeader_keepsVotes h₁).trans hslashed.toKeepsVotes, hattestations, hwrites.frame.toKeepsVotes⟩
  unfold stateBeforeAttestations
  simp only [bind_eq_ok, pure_eq_ok]
  exact ⟨s₁, h₁, s₂, h₂, work, hproposers, _, hattesters, rfl⟩

theorem stateBeforeAttestations_keeps {c : Nat} (h : stateBeforeAttestations env cfg fork s block verify = .ok s')
    (hc : s.epochCtx.currentShuffling.epoch = c) : KeepsDuties env c s s' ∧ 0 < s.validators.length := by
  unfold stateBeforeAttestations at h
  simp only [bind_eq_ok, pure_eq_ok] at h
  obtain ⟨s₁, h₁, s₂, h₂, work₃, h₃, work₄, h₄, rfl⟩ := h
  obtain ⟨hkeeps, -, hpos⟩ := beforeAttestations_keeps h₁ h₂ (bind_eq_ok.2 ⟨work₃, h₃, h₄⟩) hc
  exact ⟨hkeeps, hpos⟩

/-! ## The votes that an epoch transition rotates -/

theorem processJustificationAndFinalization_frame (h : processJustificationAndFinalization s process = .ok s') :
    s' = s.withFinality s'.finality := by
  obtain ⟨_, _, _, _, rfl⟩ := processJustificationAndFinalization_ok h
  rfl

theorem processEpochByFork_votes (h : processEpochByFork env cfg fork s = .ok s') : ∃ process s₁ t,
    prepareEpochProcessState cfg s = .ok process ∧ processJustificationAndFinalization s process = .ok s₁ ∧
    KeepsVotes s₁ t ∧ KeepsVotes (rotateVotes fork t) s' := by
  obtain ⟨process, s₁, t, hprep, hjustified, hkept, hrotated⟩ := processEpochByFork_frames h
  exact ⟨process, s₁, t, hprep, hjustified, hkept.toKeepsVotes, hrotated.toKeepsVotes⟩

theorem processEpochByFork_slot (h : processEpochByFork env cfg fork s = .ok s') : s'.slot = s.slot := by
  obtain ⟨process, s₁, t, -, hjustified, hkept, hrotated⟩ := processEpochByFork_votes h
  have hslot₁ : s₁.slot = s.slot := by
    rw [processJustificationAndFinalization_frame hjustified]
    rfl
  have hslot : (rotateVotes fork t).slot = t.slot := by
    cases fork <;> rfl
  rw [hrotated.slot, hslot, hkept.slot, hslot₁]

end Lodestar.StateTransition
