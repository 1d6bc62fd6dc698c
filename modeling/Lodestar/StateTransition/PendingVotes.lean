import Lodestar.StateTransition.AttestationInclusion
import Lodestar.StateTransition.ShufflingDecisionRoot
/-!
# PendingVotes — the pending attestations of a phase0 run

A pending attestation was judged when its block came: its target is the epoch of its slot, its source is the checkpoint that was
justified then, and a committee had cast it.  A run of phase0 keeps all three true of the state: what was the current epoch
becomes the previous one together with the checkpoint and the shuffling of it (`beforeUpgrade_pendingVotes`), and the first two
epochs, which justify nothing, keep one checkpoint for both.
-/
namespace Lodestar.StateTransition

open Lib

variable {P : Preset} {env : Env P} {cfg : ChainConfig} {s s' : CachedBeaconState P} {verify : Bool}

/-! ## The votes of an epoch -/

/-- A vote of an epoch for the checkpoint that it is measured against, cast by a committee the context has. -/
structure Measured (P : Preset) (ctx : EpochContext) (epoch : Nat) (source : Checkpoint) (data : AttestationData) : Prop where
  target : data.target.epoch = epoch
  slot : computeEpochAtSlot P data.slot = epoch
  source : data.source = source
  committee : ∃ committee, ctx.getBeaconCommittee P data.slot data.index = .ok committee

/-- **The pending attestations are votes of their epochs** for the checkpoints that were justified then. -/
structure PendingVotes (s : CachedBeaconState P) : Prop where
  current : ∀ attestation ∈ s.currentEpochAttestations,
    Measured P s.epochCtx (getCurrentEpoch s.toBeaconState) s.currentJustifiedCheckpoint attestation.data
  previous : ∀ attestation ∈ s.previousEpochAttestations, ∃ epoch, epoch + 1 = getCurrentEpoch s.toBeaconState ∧
    Measured P s.epochCtx epoch s.previousJustifiedCheckpoint attestation.data
  early : getCurrentEpoch s.toBeaconState ≤ GENESIS_EPOCH + 1 → s.previousJustifiedCheckpoint = s.currentJustifiedCheckpoint

variable {ctx ctx' : EpochContext}

variable {epoch slot index slot' : Nat}

theorem Measured.of_sameButKeys {source : Checkpoint} {data : AttestationData} (h : Measured P ctx epoch source data)
    (hctx : SameButKeys ctx ctx') : Measured P ctx' epoch source data := by
  obtain ⟨_, _, rfl⟩ := hctx
  exact ⟨h.target, h.slot, h.source, h.committee⟩

theorem KeepsVotes.pendingVotes (h : KeepsVotes s s') (hpending : PendingVotes s) : PendingVotes s' := by
  have hepoch : getCurrentEpoch s'.toBeaconState = getCurrentEpoch s.toBeaconState := congrArg (computeEpochAtSlot P) h.slot
  have hcurrent : s'.currentJustifiedCheckpoint = s.currentJustifiedCheckpoint :=
    congrArg (·.currentJustifiedCheckpoint) h.finality
  have hprevious : s'.previousJustifiedCheckpoint = s.previousJustifiedCheckpoint :=
    congrArg (·.previousJustifiedCheckpoint) h.finality
  refine ⟨fun attestation hmem => ?_, fun attestation hmem => ?_, ?_⟩
  · rw [h.currentEpochAttestations] at hmem
    rw [hepoch, hcurrent]
    exact (hpending.current attestation hmem).of_sameButKeys h.epochCtx
  · rw [h.previousEpochAttestations] at hmem
    rw [hepoch, hprevious]
    obtain ⟨epoch, hnext, hmeasured⟩ := hpending.previous attestation hmem
    exact ⟨epoch, hnext, hmeasured.of_sameButKeys h.epochCtx⟩
  · rw [hepoch, hcurrent, hprevious]
    exact hpending.early

/-! ## Blocks -/

/-- The epochs of a context: all that the checks of an attestation read of the state's. -/
structure HasEpochs (s : CachedBeaconState P) : Prop where
  current : s.epochCtx.currentShuffling.epoch = getCurrentEpoch s.toBeaconState
  previous : s.epochCtx.previousShuffling.epoch = previousEpochOf (getCurrentEpoch s.toBeaconState)

theorem Fresh.hasEpochs (h : Fresh env cfg s) : HasEpochs s := ⟨h.currentEpoch, h.duties.previousEpoch⟩

theorem KeepsVotes.hasEpochs (h : KeepsVotes s s') (hepochs : HasEpochs s) : HasEpochs s' := by
  have hepoch : getCurrentEpoch s'.toBeaconState = getCurrentEpoch s.toBeaconState := congrArg (computeEpochAtSlot P) h.slot
  have hprevious : s'.epochCtx.previousShuffling = s.epochCtx.previousShuffling := by
    obtain ⟨_, _, heq⟩ := h.epochCtx
    rw [heq]
  exact ⟨by rw [h.epochCtx.currentShuffling, hepoch, hepochs.current], by rw [hprevious, hepoch, hepochs.previous]⟩

variable {attestation : Attestation}

theorem validateAttestation_ok (h : validateAttestation s attestation = .ok ()) :
    (attestation.data.target.epoch = s.epochCtx.previousShuffling.epoch ∨
      attestation.data.target.epoch = s.epochCtx.currentShuffling.epoch) ∧
    attestation.data.target.epoch = computeEpochAtSlot P attestation.data.slot ∧
    ∃ committee, s.epochCtx.getBeaconCommittee P attestation.data.slot attestation.data.index = .ok committee := by
  unfold validateAttestation at h
  simp only [bind_eq_ok, check_eq_ok, decide_eq_true_eq] at h
  obtain ⟨count, -, _, -, _, htarget, _, hslot, _, -, committee, hcommittee, -⟩ := h
  exact ⟨htarget, hslot, committee, hcommittee⟩

theorem processAttestationPhase0_pendingVotes (hepochs : HasEpochs s) (hpending : PendingVotes s)
    (h : processAttestationPhase0 env s attestation verify = .ok s') : PendingVotes s' ∧ HasEpochs s' := by
  unfold processAttestationPhase0 at h
  simp only [bind_eq_ok, pure_eq_ok] at h
  obtain ⟨_, hvalid, proposerIndex, -, next, hnext, _, -, _, -, _, -, rfl⟩ := h
  obtain ⟨htarget, hslot, hcommittee⟩ := validateAttestation_ok hvalid
  by_cases hcurrent : attestation.data.target.epoch = s.epochCtx.currentShuffling.epoch
  · rw [if_pos hcurrent] at hnext
    simp only [bind_eq_ok, pure_eq_ok, check_eq_ok, decide_eq_true_eq] at hnext
    obtain ⟨_, hsource, rfl⟩ := hnext
    rw [hepochs.current] at hcurrent
    refine ⟨⟨fun pending hmem => ?_, hpending.previous, hpending.early⟩, hepochs.current, hepochs.previous⟩
    rcases List.mem_append.1 hmem with hold | hnew
    · exact hpending.current pending hold
    · rw [List.mem_singleton] at hnew
      subst hnew
      exact ⟨hcurrent, hslot.symm.trans hcurrent, hsource, hcommittee⟩
  · rw [if_neg hcurrent] at hnext
    simp only [bind_eq_ok, pure_eq_ok, check_eq_ok, decide_eq_true_eq] at hnext
    obtain ⟨_, hsource, rfl⟩ := hnext
    have hprevious := htarget.resolve_right hcurrent
    rw [hepochs.previous] at hprevious
    rw [hepochs.current] at hcurrent
    -- the target is of another epoch than the current one, so it is not at genesis
    have hnext : previousEpochOf (getCurrentEpoch s.toBeaconState) + 1 = getCurrentEpoch s.toBeaconState := by
      rw [hprevious] at hcurrent
      unfold previousEpochOf GENESIS_EPOCH at hcurrent ⊢
      split at hcurrent
      · omega
      · rename_i hgenesis
        rw [if_neg hgenesis]
        omega
    refine ⟨⟨hpending.current, fun pending hmem => ?_, hpending.early⟩, hepochs.current, hepochs.previous⟩
    rcases List.mem_append.1 hmem with hold | hnew
    · exact hpending.previous pending hold
    · rw [List.mem_singleton] at hnew
      subst hnew
      exact ⟨_, hnext, hprevious, hslot.symm.trans hprevious, hsource, hcommittee⟩

variable {block : BeaconBlock}

theorem processBlockByFork_pendingVotes (hepochs : HasEpochs s) (hpending : PendingVotes s)
    (h : processBlockByFork env cfg .phase0 s block verify = .ok s') : PendingVotes s' := by
  obtain ⟨t, t', -, hbefore, hattested, hafter⟩ := processBlockByFork_votes h
  have hloop : PendingVotes t ∧ HasEpochs t → PendingVotes t' ∧ HasEpochs t' :=
    foldlM_keeps (R := fun s s' : CachedBeaconState P => PendingVotes s ∧ HasEpochs s → PendingVotes s' ∧ HasEpochs s')
      (fun _ h => h) (fun _ _ _ h h' hkept => h' (h hkept)) _
      (fun attestation _ _ _ hstep hkept => processAttestationPhase0_pendingVotes hkept.2 hkept.1 hstep) _ _ hattested
  exact hafter.pendingVotes (hloop ⟨hbefore.pendingVotes hpending, hbefore.hasEpochs hepochs⟩).1

/-! ## The end of an epoch -/

/-- What `crossEpoch` hands to the upgrade at the end of an epoch: the next slot, with its context rotated. -/
def beforeUpgrade (env : Env P) (cfg : ChainConfig) (s : CachedBeaconState P) : Except String (CachedBeaconState P) := do
  let state ← processEpochByFork env cfg (getForkName P cfg s.slot) (processSlot env cfg s)
  let state := { state with slot := state.slot + 1 }
  let epochCtx ← rotateEpochs env cfg state.epochCtx state.toBeaconState
  pure { state with epochCtx }

theorem advanceSlot_beforeUpgrade (hend : (s.slot + 1) % P.SLOTS_PER_EPOCH = 0) : advanceSlot env cfg s =
    beforeUpgrade env cfg s >>= fun pre => if computeEpochAtSlot P pre.slot = GENESIS_EPOCH then pure pre
      else if (computeEpochAtSlot P pre.slot : ℕ∞) = cfg.ALTAIR_FORK_EPOCH then upgradeState env cfg pre else pure pre := by
  have hprocessed : (processSlot env cfg s).slot = s.slot := rfl
  unfold advanceSlot crossEpoch beforeUpgrade
  dsimp only
  rw [hprocessed, if_pos hend]
  simp only [bind_assoc, pure_bind]

theorem justified_rotates {process : EpochProcess} (hepochs : HasEpochs s) (hpending : PendingVotes s)
    (hprepared : prepareEpochProcessState cfg s = .ok process) (h : processJustificationAndFinalization s process = .ok s') :
    s'.previousJustifiedCheckpoint = s.currentJustifiedCheckpoint ∧
      (getCurrentEpoch s.toBeaconState = GENESIS_EPOCH → s'.currentJustifiedCheckpoint = s.currentJustifiedCheckpoint) := by
  have hcurrent : process.currentEpoch = getCurrentEpoch s.toBeaconState :=
    (prepareEpochProcessState_ok hprepared).1.currentEpoch.trans hepochs.current
  obtain ⟨hearly, hlate⟩ := processJustificationAndFinalization_advance h
  rw [hcurrent] at hearly hlate
  by_cases hepoch : getCurrentEpoch s.toBeaconState ≤ GENESIS_EPOCH + 1
  · rw [hearly hepoch]
    exact ⟨hpending.early hepoch, fun _ => rfl⟩
  · refine ⟨(hlate (Nat.lt_of_not_le hepoch)).previous, fun hgenesis => absurd (hgenesis ▸ Nat.le_succ _) hepoch⟩

theorem getBeaconCommittee_rotated (hfresh : Fresh env cfg s) {ctx : EpochContext}
    (hprevious : ctx.previousShuffling = s.epochCtx.currentShuffling)
    (hslot : computeEpochAtSlot P slot = getCurrentEpoch s.toBeaconState) :
    ctx.getBeaconCommittee P slot index = s.epochCtx.getBeaconCommittee P slot index := by
  have hold : s.epochCtx.getShufflingAtEpoch (getCurrentEpoch s.toBeaconState) = .ok s.epochCtx.currentShuffling :=
    (hfresh.getShufflingAtEpoch_eq (Nat.le_succ _) (Nat.le_succ _)).trans hfresh.duties.current
  have hnew : ctx.getShufflingAtEpoch (getCurrentEpoch s.toBeaconState) = .ok s.epochCtx.currentShuffling := by
    unfold EpochContext.getShufflingAtEpoch
    rw [hprevious, hfresh.currentEpoch, if_pos rfl]
    rfl
  unfold EpochContext.getBeaconCommittee
  rw [hslot, hold, hnew]

theorem processSlot_pendingVotes (env : Env P) (cfg : ChainConfig) (hepochs : HasEpochs s) (hpending : PendingVotes s) :
    PendingVotes (processSlot env cfg s) ∧ HasEpochs (processSlot env cfg s) :=
  ⟨⟨hpending.current, hpending.previous, hpending.early⟩, hepochs.current, hepochs.previous⟩

variable {pre : CachedBeaconState P}

theorem beforeUpgrade_slot (h : beforeUpgrade env cfg s = .ok pre) : pre.slot = s.slot + 1 := by
  unfold beforeUpgrade at h
  simp only [bind_eq_ok, pure_eq_ok] at h
  obtain ⟨t, htransition, ctx, -, rfl⟩ := h
  have hslot : t.slot = s.slot := (processEpochByFork_slot htransition).trans rfl
  rw [hslot]

theorem beforeUpgrade_fresh (hfresh : Fresh env cfg s) (hend : (s.slot + 1) % P.SLOTS_PER_EPOCH = 0)
    (h : beforeUpgrade env cfg s = .ok pre) : Fresh env cfg pre := by
  unfold beforeUpgrade at h
  simp only [bind_eq_ok, pure_eq_ok] at h
  obtain ⟨t, htransition, ctx, hrotate, rfl⟩ := h
  have hslot : Fresh env cfg (processSlot env cfg s) := ⟨hfresh.keys, hfresh.duties.of_eq rfl rfl rfl⟩
  exact rotated_fresh htransition hrotate (computeEpochAtSlot_end hend) hslot

/-- **The votes of the epoch that ends become those of the previous one**, with the checkpoint and the committees of theirs. -/
theorem beforeUpgrade_pendingVotes (hfresh : Fresh env cfg s) (hpending : PendingVotes s)
    (hphase0 : getForkName P cfg s.slot = .phase0) (hend : (s.slot + 1) % P.SLOTS_PER_EPOCH = 0)
    (h : beforeUpgrade env cfg s = .ok pre) : PendingVotes pre := by
  unfold beforeUpgrade at h
  rw [hphase0] at h
  simp only [bind_eq_ok, pure_eq_ok] at h
  obtain ⟨t, htransition, ctx, hrotate, rfl⟩ := h
  have hslot : t.slot = s.slot := (processEpochByFork_slot htransition).trans rfl
  obtain ⟨process, s₁, t₁, hprepared, hjustified, hkept, hrotated⟩ := processEpochByFork_votes htransition
  obtain ⟨hprocessed, hepochs⟩ := processSlot_pendingVotes env cfg hfresh.hasEpochs hpending
  obtain ⟨hprevious, hgenesis⟩ := justified_rotates hepochs hprocessed hprepared hjustified
  -- justification leaves the votes and the context, and the rotation moves the votes of the current epoch
  have hframe := processJustificationAndFinalization_frame hjustified
  have hvotes : t.previousEpochAttestations = s.currentEpochAttestations ∧ t.currentEpochAttestations = [] := by
    rw [hrotated.previousEpochAttestations, hrotated.currentEpochAttestations]
    refine ⟨hkept.currentEpochAttestations.trans ?_, rfl⟩
    rw [hframe]
    rfl
  have hctx : SameButKeys s.epochCtx t.epochCtx := by
    have hjust : s₁.epochCtx = s.epochCtx := by
      rw [hframe]
      rfl
    exact hjust ▸ hkept.epochCtx.trans hrotated.epochCtx
  have hcheckpoints : t.finality = s₁.finality := hrotated.finality.trans hkept.finality
  have hpreviousJustified : t.previousJustifiedCheckpoint = s.currentJustifiedCheckpoint :=
    (congrArg (·.previousJustifiedCheckpoint) hcheckpoints).trans hprevious
  have hcurrentJustified : t.currentJustifiedCheckpoint = s₁.currentJustifiedCheckpoint :=
    congrArg (·.currentJustifiedCheckpoint) hcheckpoints
  have hepoch : getCurrentEpoch ({ t with slot := t.slot + 1, epochCtx := ctx } : CachedBeaconState P).toBeaconState =
      getCurrentEpoch s.toBeaconState + 1 :=
    (congrArg (fun slot => computeEpochAtSlot P (slot + 1)) hslot).trans (computeEpochAtSlot_end hend)
  refine ⟨fun attestation hmem => ?_, fun attestation hmem => ⟨_, hepoch.symm, ?_⟩, fun hearly => ?_⟩
  · rw [show _ = [] from hvotes.2] at hmem
    exact absurd hmem List.not_mem_nil
  · obtain ⟨htarget, hattested, hsource, committee, hcommittee⟩ := hpending.current attestation (hvotes.1 ▸ hmem)
    refine ⟨htarget, hattested, hsource.trans hpreviousJustified.symm, committee, ?_⟩
    have hrotatedCtx : ctx.previousShuffling = s.epochCtx.currentShuffling :=
      (rotateEpochs_ok hrotate).1.trans hctx.currentShuffling
    exact (getBeaconCommittee_rotated hfresh hrotatedCtx hattested).trans hcommittee
  · rw [hepoch] at hearly
    have hzero : getCurrentEpoch s.toBeaconState = GENESIS_EPOCH := Nat.le_zero.1 (Nat.le_of_succ_le_succ hearly)
    exact hpreviousJustified.trans ((hgenesis hzero).symm.trans hcurrentJustified.symm)

/-! ## Runs -/

/-- What holds of every state of a run: a fresh context, and up to the fork the pending attestations in order. -/
structure UpToFork (env : Env P) (cfg : ChainConfig) (s : CachedBeaconState P) : Prop where
  fresh : Fresh env cfg s
  pendingVotes : getForkName P cfg s.slot = .phase0 → PendingVotes s

theorem getForkName_eq_phase0 :
    getForkName P cfg slot = .phase0 ↔ ((computeEpochAtSlot P slot : Nat) : ℕ∞) < cfg.ALTAIR_FORK_EPOCH := by
  unfold getForkName
  split
  · rename_i haltair
    simpa using haltair
  · rename_i hphase0
    simpa using hphase0

theorem getForkName_mono (hle : slot ≤ slot') (h : getForkName P cfg slot' = .phase0) :
    getForkName P cfg slot = .phase0 := by
  rw [getForkName_eq_phase0] at h ⊢
  refine lt_of_le_of_lt ?_ h
  exact_mod_cast Nat.div_le_div_right hle

theorem advanceSlot_upToFork (h : advanceSlot env cfg s = .ok s') (hrun : UpToFork env cfg s) : UpToFork env cfg s' := by
  refine ⟨advanceSlot_fresh h hrun.fresh, fun hphase0 => ?_⟩
  have hslot := advanceSlot_slot h
  have hbefore : getForkName P cfg s.slot = .phase0 := getForkName_mono (by omega) hphase0
  have hpending := hrun.pendingVotes hbefore
  by_cases hend : (s.slot + 1) % P.SLOTS_PER_EPOCH = 0
  · rw [advanceSlot_beforeUpgrade hend] at h
    obtain ⟨pre, hpre, h⟩ := bind_eq_ok.1 h
    have hvotes := beforeUpgrade_pendingVotes hrun.fresh hpending hbefore hend hpre
    have hpreSlot := beforeUpgrade_slot hpre
    split at h
    · rw [pure_eq_ok] at h
      exact h ▸ hvotes
    · split at h
      · rename_i hfork
        rw [getForkName_eq_phase0, hslot, ← hpreSlot, hfork] at hphase0
        exact absurd hphase0 (lt_irrefl _)
      · rw [pure_eq_ok] at h
        exact h ▸ hvotes
  · rcases advanceSlot_split h with ⟨hepoch, rfl⟩ | ⟨_, _, hepoch, -⟩
    · refine ⟨fun attestation hmem => ?_, fun attestation hmem => ?_, ?_⟩
      · rw [hepoch]
        exact hpending.current attestation hmem
      · rw [hepoch]
        exact hpending.previous attestation hmem
      · rw [hepoch]
        exact hpending.early
    · exact absurd ((computeEpochAtSlot_within hend).symm.trans hepoch) (Nat.ne_of_lt (Nat.lt_succ_self _))

theorem processBlock_upToFork (h : processBlock env cfg s block verify = .ok s') (hrun : UpToFork env cfg s) :
    UpToFork env cfg s' := by
  refine ⟨processBlock_fresh h hrun.fresh, fun hphase0 => ?_⟩
  have hslot := (processBlockByFork_applies h).slot
  rw [Path.processBlock_slot h] at hphase0
  unfold processBlock at h
  rw [hslot, hphase0] at h
  exact processBlockByFork_pendingVotes hrun.fresh.hasEpochs (hrun.pendingVotes hphase0) h

theorem runOps_upToFork {ops : List Op} (h : runOps env cfg s ops = .ok s') : UpToFork env cfg s → UpToFork env cfg s' := by
  refine runOps_keeps advanceSlot_upToFork processBlock_upToFork (fun pubkey2index index2pubkey hrun => ?_) h
  refine ⟨hrun.fresh.shared pubkey2index index2pubkey, fun hphase0 => ?_⟩
  refine KeepsVotes.pendingVotes ?_ (hrun.pendingVotes hphase0)
  exact ⟨rfl, ⟨_, _, rfl⟩, rfl, rfl, rfl, rfl, 0, rfl, by simp, by simp⟩

/-- What a genesis state has of votes: none, and one checkpoint that counts as justified. -/
structure Unvoted (st : BeaconState P) : Prop where
  previousEpochAttestations : st.previousEpochAttestations = []
  currentEpochAttestations : st.currentEpochAttestations = []
  justified : st.previousJustifiedCheckpoint = st.currentJustifiedCheckpoint

theorem createCachedBeaconState_upToFork {st : BeaconState P} (hst : Unvoted st)
    (h : createCachedBeaconState env cfg st noOpts = .ok s) : UpToFork env cfg s := by
  refine ⟨createCachedBeaconState_fresh h, fun _ => ?_⟩
  obtain ⟨hprevious, hcurrent, hjustified⟩ := hst
  obtain ⟨-, _, _, _, hloaded⟩ := createCachedBeaconState_ok h
  have hlists : s.previousEpochAttestations = [] ∧ s.currentEpochAttestations = [] ∧
      s.previousJustifiedCheckpoint = s.currentJustifiedCheckpoint := by
    rw [hloaded]
    exact ⟨hprevious, hcurrent, hjustified⟩
  refine ⟨fun attestation hmem => ?_, fun attestation hmem => ?_, fun _ => hlists.2.2⟩
  · rw [hlists.2.1] at hmem
    exact absurd hmem List.not_mem_nil
  · rw [hlists.1] at hmem
    exact absurd hmem List.not_mem_nil

end Lodestar.StateTransition
