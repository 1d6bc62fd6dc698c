import Lodestar.StateTransition.BlockSteps
import Lodestar.StateTransition.EpochSteps
import Lodestar.StateTransition.Transition
/-!
# EpochCache — the context that is kept is the one that would be computed anew

The shuffling of an epoch is computed one epoch early and then only rotated.  It stays right because its seed is read from a
mix that is written no more (`seedMix_ne`) and because activations and exits come late enough (`active_of_evolves`).  A state
is `Fresh` when its context has the duties of the state; creation makes it so, and slots, epochs, the upgrade and blocks keep
it so, over any run: `runOps_epochCtx`.
-/
namespace Lodestar.StateTransition

open Lib

variable {P : Preset} {env : Env P} {cfg : ChainConfig} {fork : ForkName} {c : Nat} {st st' : BeaconState P}
  {ctx ctx' : EpochContext} {s s' : CachedBeaconState P} {N : Validator → Prop}

/-! ## Duties that stay -/

variable {shuffling : EpochShuffling}

theorem computeEpochShuffling_active {e : Nat} (h : computeEpochShuffling env st (indicesBounded st.validators) e = .ok shuffling) :
    shuffling.activeIndices = getActiveValidatorIndices st e := by
  unfold computeEpochShuffling at h
  simp only [bind_eq_ok, pure_eq_ok] at h
  obtain ⟨_, -, _, -, rfl⟩ := h
  exact activeIndices_eq _ _

theorem computeEpochShuffling_later {w e : Nat} (hmixes : SameMixesBut w st st')
    (hval : Evolves (Aged c) N st.validators st'.validators) (hN : ∀ v, N v → Dormant c v) (he : e ≤ c + 1)
    (hew : e ≤ w + 1) (hwe : w ≤ e + 1) : computeEpochShuffling env st' (indicesBounded st'.validators) e =
      computeEpochShuffling env st (indicesBounded st.validators) e :=
  computeEpochShuffling_congr (hmixes.getSeed hew hwe _) (active_of_evolves hval hN he)

theorem sameStakes_of_evolves (hval : Evolves (AgedSameBalance c) N st.validators st'.validators) (e : Nat) :
    SameStakes (getActiveValidatorIndices st e) st st' := by
  intro i hi
  obtain ⟨v, hv, -⟩ := mem_indicesWhere.1 hi
  obtain ⟨v', hv', haged⟩ := hval.old i v hv
  rw [hv, hv', Option.map_some, Option.map_some, haged.effectiveBalance]

theorem HasDuties.later (h : HasDuties env cfg st ctx) (hctx : SameButKeys ctx ctx') (hc : getCurrentEpoch st = c)
    (hc' : getCurrentEpoch st' = c) (hmixes : SameMixesBut c st st')
    (hval : Evolves (AgedSameBalance c) N st.validators st'.validators) (hN : ∀ v, N v → Dormant c v)
    (hpos : 0 < st'.validators.length ↔ 0 < st.validators.length) : HasDuties env cfg st' ctx' := by
  obtain ⟨_, _, rfl⟩ := hctx
  have haged : Evolves (Aged c) N st.validators st'.validators := hval.mono (fun _ _ h => h.toAged) fun _ h => h
  have hshuffling : ∀ e, e ≤ c + 1 → c ≤ e + 1 →
      computeEpochShuffling env st' (indicesBounded st'.validators) e =
        computeEpochShuffling env st (indicesBounded st.validators) e :=
    fun e he he' => computeEpochShuffling_later hmixes haged hN he he he'
  have hprevious : previousEpochOf c ≤ c + 1 ∧ c ≤ previousEpochOf c + 1 := by
    unfold previousEpochOf GENESIS_EPOCH
    split <;> omega
  have hactive := computeEpochShuffling_active h.current
  have hepoch := h.currentEpoch
  rw [hc] at hactive hepoch
  have hstakes := sameStakes_of_evolves hval c
  refine ⟨?_, ?_, ?_, ?_, ?_⟩
  · rw [hc', hshuffling c (by omega) (by omega), ← hc]
    exact h.current
  · rw [hc', hshuffling _ hprevious.1 hprevious.2, ← hc]
    exact h.previous
  · rw [hc', hshuffling (c + 1) (by omega) (by omega), ← hc]
    exact h.next
  · have hproposers : computeProposers env st' ctx.currentShuffling = computeProposers env st ctx.currentShuffling :=
      computeProposers_congr (hmixes.getSeed (by omega) (by omega) _) (hactive ▸ hstakes)
    simp only [hproposers, hpos]
    exact h.proposers
  · have htotal : getTotalActiveBalance st' = getTotalActiveBalance st := by
      have hindices : getActiveValidatorIndices st' c = getActiveValidatorIndices st c :=
        active_of_evolves haged hN (by omega)
      unfold getTotalActiveBalance
      rw [hc, hc', hindices, getTotalBalance_congr hstakes]
    obtain ⟨total, ht, hrewards⟩ := h.rewards
    refine ⟨total, htotal.trans ht, ?_⟩
    rw [hc', ← hc]
    exact hrewards

theorem HasDuties.of_eq (h : HasDuties env cfg st ctx) (hepoch : getCurrentEpoch st' = getCurrentEpoch st)
    (hmixes : st'.randaoMixes = st.randaoMixes) (hval : st'.validators = st.validators) : HasDuties env cfg st' ctx := by
  have hvalidators : Evolves (AgedSameBalance (getCurrentEpoch st)) (fun _ => False) st.validators st'.validators :=
    hval ▸ Evolves.refl (AgedSameBalance.refl _) _
  exact h.later (SameButKeys.refl ctx) rfl hepoch (fun e _ => getRandaoMix_congr hmixes e) hvalidators (fun _ h => h.elim)
    (by rw [hval])

/-! ## Fresh states -/

/-- The context of the state has the duties of the state, and every key of the state parses. -/
structure Fresh (env : Env P) (cfg : ChainConfig) (s : CachedBeaconState P) : Prop where
  keys : ∀ v ∈ s.validators, env.publicKeyFromBytes v.pubkey false = true
  duties : HasDuties env cfg s.toBeaconState s.epochCtx

theorem Fresh.currentEpoch (h : Fresh env cfg s) : s.epochCtx.currentShuffling.epoch = getCurrentEpoch s.toBeaconState :=
  h.duties.currentEpoch

theorem keys_of_evolves {R : Validator → Validator → Prop} {l l' : List Validator} (h : Evolves R N l l')
    (hR : ∀ v v', R v v' → v'.pubkey = v.pubkey) (hN : ∀ v, N v → env.publicKeyFromBytes v.pubkey false = true)
    (hl : ∀ v ∈ l, env.publicKeyFromBytes v.pubkey false = true) : ∀ v ∈ l', env.publicKeyFromBytes v.pubkey false = true := by
  intro v' hv'
  obtain ⟨i, hi⟩ := List.getElem?_of_mem hv'
  cases hv : l[i]? with
  | none => exact hN v' (h.new i v' hi hv)
  | some v =>
    obtain ⟨w, hw, hvw⟩ := h.old i v hv
    rw [hi, Option.some.injEq] at hw
    subst hw
    rw [hR v v' hvw]
    exact hl v (List.mem_of_getElem? hv)

theorem createCachedBeaconState_ok {opts : EpochContextOpts} (h : createCachedBeaconState env cfg st opts = .ok s) :
    createEpochContext env cfg st opts = .ok s.epochCtx ∧ ∃ previous current scores, s.toBeaconState =
      { st with previousEpochParticipation := previous, currentEpochParticipation := current, inactivityScores := scores } := by
  obtain ⟨epochCtx, hctx, h⟩ := bind_eq_ok.1 h
  split at h
  · rw [pure_eq_ok] at h
    subst h
    exact ⟨hctx, _, _, _, rfl⟩
  · rw [pure_eq_ok] at h
    subst h
    exact ⟨hctx, _, _, _, rfl⟩

theorem createCachedBeaconState_fresh (h : createCachedBeaconState env cfg st noOpts = .ok s) : Fresh env cfg s := by
  obtain ⟨hctx, previous, current, scores, hst⟩ := createCachedBeaconState_ok h
  obtain ⟨hkeys, hduties⟩ := createEpochContext_eq_ok.1 hctx
  have hparse := syncPubkeys_empty.1 ⟨_, hkeys⟩
  have hval : s.validators = st.validators := congrArg (·.validators) hst
  have hepoch : getCurrentEpoch s.toBeaconState = getCurrentEpoch st := by
    rw [hst]
    rfl
  refine ⟨?_, hduties.of_eq hepoch (congrArg (·.randaoMixes) hst) hval⟩
  rw [hval]
  exact hparse

/-! ## Blocks -/

theorem Fresh.block (hfresh : Fresh env cfg s) (hkeeps : KeepsDuties env (getCurrentEpoch s.toBeaconState) s s')
    (hpos : 0 < s.validators.length) : Fresh env cfg s' := by
  have hpos' : 0 < s'.validators.length := by
    obtain ⟨v', hv', -⟩ := hkeeps.validators.old 0 _ (List.getElem?_eq_getElem hpos)
    exact (List.getElem?_eq_some_iff.1 hv').1
  refine ⟨keys_of_evolves hkeeps.validators (fun _ _ h => h.pubkey) (fun _ h => h.2) hfresh.keys, ?_⟩
  refine hfresh.duties.later hkeeps.epochCtx rfl ?_ hkeeps.mixes hkeeps.validators (fun _ h => h.1) ?_
  · unfold getCurrentEpoch
    rw [hkeeps.slot]
  · simp only [hpos, hpos']

theorem processBlock_fresh {block : BeaconBlock} {verify : Bool} (h : processBlock env cfg s block verify = .ok s')
    (hfresh : Fresh env cfg s) : Fresh env cfg s' := by
  obtain ⟨hkeeps, hpos⟩ := processBlockByFork_keeps h hfresh.currentEpoch
  exact hfresh.block hkeeps hpos

/-! ## Epochs -/

structure KeepsShufflings (c : Nat) (s s' : CachedBeaconState P) : Prop where
  slot : s'.slot = s.slot
  epochCtx : s'.epochCtx = s.epochCtx
  mixes : SameMixesBut (c + 1) s.toBeaconState s'.toBeaconState
  validators : Evolves (Aged c) (fun _ => False) s.validators s'.validators

theorem effectiveBalances_evolve {process : EpochProcess} (h : processEffectiveBalanceUpdates s process = .ok s') :
    ∃ validators, s' = { s with validators := validators } ∧ Evolves (Aged c) (fun _ => False) s.validators validators := by
  obtain ⟨validators, hs', hentries⟩ := processEffectiveBalanceUpdates_run h
  refine ⟨validators, hs', ⟨fun i v hv => ?_, fun i v' hv' hv => ?_⟩⟩
  · rw [hentries i, hv]
    split
    · exact ⟨_, rfl, ⟨rfl, .inl rfl, .inl rfl⟩⟩
    · exact ⟨v, rfl, Aged.refl c v⟩
  · rw [hentries i, hv] at hv'
    split at hv' <;> cases hv'

theorem processRandaoMixesReset_mixes (s : CachedBeaconState P) (process : EpochProcess) :
    SameMixesBut (process.currentEpoch + 1) s.toBeaconState (processRandaoMixesReset s process).toBeaconState :=
  SameMixesBut.of_set (Nat.mod_lt _ (historicalVector_pos P)) rfl

theorem processEpoch_keeps (h : processEpochByFork env cfg fork s = .ok s') (hc : s.epochCtx.currentShuffling.epoch = c) :
    KeepsShufflings c s s' := by
  obtain ⟨process, s₁, s₂, process', s₃, s₄, hprep, h₁, h₂, h₃, h₄, hcore⟩ := processEpoch_steps h
  obtain ⟨hp, -⟩ := prepareEpochProcessState_ok hprep
  have hcore₁ := beforeRewards_core h₁
  obtain ⟨hp', hcore₂⟩ : Prepared cfg s process' ∧ s₂.slot = s₁.slot ∧ s₂.epochCtx = s₁.epochCtx ∧
      s₂.randaoMixes = s₁.randaoMixes ∧ s₂.validators = s₁.validators := by
    rcases processRewardsAndPenalties_run h₂ with ⟨-, rfl, rfl⟩ | ⟨_, balances, -, -, rfl, rfl⟩
    · exact ⟨hp, rfl, rfl, rfl, rfl⟩
    · exact ⟨hp.withBalances _, rfl, rfl, rfl, rfl⟩
  obtain ⟨hslot₂, hctx₂, hmixes₂, hval₂⟩ := hcore₂
  have hepoch : process'.currentEpoch = c := hp'.currentEpoch.trans hc
  obtain ⟨validators, hregistry, hevolves⟩ := processRegistryUpdates_run hp' (hval₂.trans hcore₁.validators)
  rw [hregistry] at h₃
  obtain ⟨balances, rfl, -⟩ := processSlashings_run h₃ (hp'.indicesToSlash ▸ indicesWhere_nodup _ _)
  have hreset := processEth1DataReset_core { s₂ with validators := validators, balances := balances } process'
  obtain ⟨validators', rfl, hevolves'⟩ := effectiveBalances_evolve (c := c) h₄
  rw [hreset.validators] at hevolves'
  have hmixes : SameMixesBut (c + 1) s.toBeaconState s'.toBeaconState := by
    intro e he
    rw [getRandaoMix_congr hcore.randaoMixes e, processRandaoMixesReset_mixes _ process' e (hepoch ▸ he)]
    exact getRandaoMix_congr ((hreset.randaoMixes.trans hmixes₂).trans hcore₁.randaoMixes) e
  refine ⟨?_, ?_, hmixes, ?_⟩
  · rw [hcore.slot]
    exact (hreset.slot.trans hslot₂).trans hcore₁.slot
  · rw [hcore.epochCtx]
    exact (hreset.epochCtx.trans hctx₂).trans hcore₁.epochCtx
  · rw [hcore.validators, ← hcore₁.validators, ← hval₂]
    refine Evolves.trans (fun _ _ _ => Aged.trans) (fun _ _ h _ => h) ?_ hevolves'
    exact hevolves.mono (fun _ _ h => hepoch ▸ h.toAged) fun _ h => h

/-! ## The rotation -/

theorem computeProposers_pos {proposers : List Int} (h : computeProposers env st shuffling = .ok proposers) :
    0 < shuffling.activeIndices.length := by
  obtain ⟨slots, hslots⟩ := Nat.exists_eq_succ_of_ne_zero (Nat.pos_iff_ne_zero.1 P.slotsPerEpoch_pos)
  unfold computeProposers at h
  dsimp only at h
  rw [hslots, List.range'_succ, List.mapM_cons] at h
  simp only [bind_eq_ok, computeProposerIndex, check_eq_ok, decide_eq_true_eq] at h
  obtain ⟨_, ⟨_, hpos, -⟩, -⟩ := h
  exact hpos

theorem rotateEpochs_ok (h : rotateEpochs env cfg ctx st = .ok ctx') :
    ctx'.previousShuffling = ctx.currentShuffling ∧ ctx'.currentShuffling = ctx.nextShuffling ∧
    computeEpochShuffling env st (indicesBounded st.validators) (ctx.nextShuffling.epoch + 1) = .ok ctx'.nextShuffling ∧
    computeProposers env st ctx.nextShuffling = .ok ctx'.proposers ∧
    ∃ total, getTotalActiveBalance st = .ok total ∧
      if cfg.ALTAIR_FORK_EPOCH ≤ (ctx.nextShuffling.epoch : ℕ∞) then
        ctx'.syncParticipantReward = computeSyncParticipantReward P total ∧
        ctx'.syncProposerReward = computeSyncProposerReward ctx'.syncParticipantReward ∧
        ctx'.baseRewardPerIncrement = computeBaseRewardPerIncrement P total
      else ctx'.syncParticipantReward = ctx.syncParticipantReward ∧ ctx'.syncProposerReward = ctx.syncProposerReward ∧
        ctx'.baseRewardPerIncrement = ctx.baseRewardPerIncrement := by
  obtain ⟨total, htotal⟩ := getTotalActiveBalance_ok st
  unfold rotateEpochs at h
  simp only [bind_eq_ok] at h
  obtain ⟨next, hnext, proposers, hproposers, h⟩ := h
  split at h
  · rename_i haltair
    simp only [bind_eq_ok, pure_eq_ok] at h
    obtain ⟨total', htotal', rfl⟩ := h
    refine ⟨rfl, rfl, hnext, hproposers, total', htotal', ?_⟩
    rw [if_pos haltair]
    exact ⟨rfl, rfl, rfl⟩
  · rename_i haltair
    rw [pure_eq_ok] at h
    subst h
    refine ⟨rfl, rfl, hnext, hproposers, total, htotal, ?_⟩
    rw [if_neg haltair]
    exact ⟨rfl, rfl, rfl⟩

theorem HasDuties.rotate (h : HasDuties env cfg st ctx) (hc : getCurrentEpoch st = c) (hc' : getCurrentEpoch st' = c + 1)
    (hmixes : SameMixesBut (c + 1) st st') (hval : Evolves (Aged c) (fun _ => False) st.validators st'.validators)
    (hrotate : rotateEpochs env cfg ctx st' = .ok ctx') : HasDuties env cfg st' ctx' := by
  obtain ⟨hprevious, hcurrent, hnext, hproposers, total, htotal, hrewards⟩ := rotateEpochs_ok hrotate
  have hshuffling : ∀ e, c ≤ e → e ≤ c + 1 → computeEpochShuffling env st' (indicesBounded st'.validators) e =
      computeEpochShuffling env st (indicesBounded st.validators) e :=
    fun e he he' => computeEpochShuffling_later hmixes hval (fun _ h => h.elim) he' (by omega) (by omega)
  have hepoch : ctx.nextShuffling.epoch = c + 1 := hc ▸ computeEpochShuffling_epoch h.next
  rw [hepoch] at hnext hrewards
  have hnew : computeEpochShuffling env st' (indicesBounded st'.validators) (c + 1) = .ok ctx.nextShuffling := by
    rw [hshuffling (c + 1) (by omega) (by omega), ← hc]
    exact h.next
  have hpos : 0 < st'.validators.length := by
    have hactive := computeProposers_pos hproposers
    rw [computeEpochShuffling_active hnew] at hactive
    obtain ⟨v, hv, -⟩ := mem_indicesWhere.1 (List.getElem_mem hactive)
    exact Nat.lt_of_le_of_lt (Nat.zero_le _) (List.getElem?_eq_some_iff.1 hv).1
  refine ⟨?_, ?_, ?_, ?_, total, htotal, ?_⟩
  · rw [hc', hcurrent]
    exact hnew
  · have hprev : previousEpochOf (c + 1) = c := rfl
    rw [hc', hprev, if_neg (by omega), hprevious, hshuffling c (by omega) (by omega), ← hc]
    exact h.current
  · rw [hc']
    exact hnext
  · rw [if_pos hpos, hcurrent]
    exact hproposers
  · rw [hc']
    split at hrewards
    · rename_i haltair
      simp only [if_pos haltair]
      exact hrewards
    · rename_i haltair
      -- before altair the rewards are zero, and the rotation leaves them
      have hbefore : ¬ cfg.ALTAIR_FORK_EPOCH ≤ (c : ℕ∞) :=
        fun hle => haltair (le_trans hle (by exact_mod_cast Nat.le_succ c))
      obtain ⟨_, -, hzero⟩ := h.rewards
      rw [hc] at hzero
      simp only [if_neg hbefore] at hzero
      simp only [if_neg haltair]
      exact ⟨hrewards.1.trans hzero.1, hrewards.2.1.trans hzero.2.1, hrewards.2.2.trans hzero.2.2⟩

/-! ## Slots -/

variable {slot : Nat}

theorem computeEpochAtSlot_end (h : (slot + 1) % P.SLOTS_PER_EPOCH = 0) :
    computeEpochAtSlot P (slot + 1) = computeEpochAtSlot P slot + 1 := by
  unfold computeEpochAtSlot
  rw [Nat.succ_div, if_pos (Nat.dvd_of_mod_eq_zero h)]

theorem computeEpochAtSlot_within (h : ¬ (slot + 1) % P.SLOTS_PER_EPOCH = 0) :
    computeEpochAtSlot P (slot + 1) = computeEpochAtSlot P slot := by
  unfold computeEpochAtSlot
  rw [Nat.succ_div, if_neg fun hdvd => h (Nat.mod_eq_zero_of_dvd hdvd)]
  rfl

/-- **A slot is within its epoch, or it is the last**: then the epoch transition follows, the rotation, and at its epoch the
upgrade. -/
theorem advanceSlot_split (h : advanceSlot env cfg s = .ok s') :
    (getCurrentEpoch s'.toBeaconState = getCurrentEpoch s.toBeaconState ∧ s' = { processSlot env cfg s with slot := s.slot + 1 }) ∨
    ∃ t ctx, computeEpochAtSlot P (s.slot + 1) = getCurrentEpoch s.toBeaconState + 1 ∧
      processEpochByFork env cfg (getForkName P cfg s.slot) (processSlot env cfg s) = .ok t ∧ t.slot = s.slot ∧
      rotateEpochs env cfg t.epochCtx { t with slot := s.slot + 1 }.toBeaconState = .ok ctx ∧
      (if ((getCurrentEpoch s.toBeaconState + 1 : Nat) : ℕ∞) = cfg.ALTAIR_FORK_EPOCH
        then upgradeState env cfg { t with slot := s.slot + 1, epochCtx := ctx } = .ok s'
        else s' = { t with slot := s.slot + 1, epochCtx := ctx }) := by
  unfold advanceSlot at h
  dsimp only at h
  have hprocessed : (processSlot env cfg s).slot = s.slot := rfl
  split at h
  · rename_i hend
    right
    have hepoch : computeEpochAtSlot P (s.slot + 1) = getCurrentEpoch s.toBeaconState + 1 := computeEpochAtSlot_end hend
    unfold crossEpoch at h
    simp only [bind_eq_ok] at h
    obtain ⟨t, htransition, ctx, hrotate, h⟩ := h
    have hslot : t.slot = s.slot := (processEpoch_keeps htransition rfl).slot.trans hprocessed
    rw [hslot] at hrotate h
    refine ⟨t, ctx, hepoch, htransition, hslot, hrotate, ?_⟩
    have hgenesis : ¬ computeEpochAtSlot P (s.slot + 1) = GENESIS_EPOCH := by
      rw [hepoch]
      exact Nat.succ_ne_zero _
    rw [if_neg hgenesis, hepoch] at h
    split at h
    · rename_i hfork
      rw [if_pos hfork]
      exact h
    · rename_i hfork
      rw [pure_eq_ok] at h
      rw [if_neg hfork]
      exact h.symm
  · rename_i hend
    left
    rw [pure_eq_ok, hprocessed] at h
    subst h
    exact ⟨computeEpochAtSlot_within hend, rfl⟩

theorem upgradeState_fresh (h : upgradeState env cfg s = .ok s') : Fresh env cfg s' := by
  unfold upgradeState translateParticipation at h
  simp only [bind_eq_ok, pure_eq_ok] at h
  obtain ⟨_, -, postState, hpost, _, -, rfl⟩ := h
  have hfresh := createCachedBeaconState_fresh hpost
  exact ⟨hfresh.keys, hfresh.duties.of_eq rfl rfl rfl⟩

theorem upgradeState_keeps (h : upgradeState env cfg s = .ok s') :
    s'.slot = s.slot ∧ s'.validators = s.validators ∧ s'.randaoMixes = s.randaoMixes := by
  unfold upgradeState translateParticipation upgradeTreeBackedState at h
  simp only [bind_eq_ok, pure_eq_ok] at h
  obtain ⟨_, ⟨committee, -, rfl⟩, postState, hpost, _, -, rfl⟩ := h
  obtain ⟨-, _, _, _, hst⟩ := createCachedBeaconState_ok hpost
  exact ⟨congrArg (·.slot) hst, congrArg (·.validators) hst, congrArg (·.randaoMixes) hst⟩

theorem rotated_fresh {s₁ : CachedBeaconState P} (hepoch : processEpochByFork env cfg fork s = .ok s₁)
    (hrotate : rotateEpochs env cfg s₁.epochCtx { s₁ with slot := s₁.slot + 1 }.toBeaconState = .ok ctx)
    (hlater : computeEpochAtSlot P (s.slot + 1) = getCurrentEpoch s.toBeaconState + 1) (hfresh : Fresh env cfg s) :
    Fresh env cfg { s₁ with slot := s₁.slot + 1, epochCtx := ctx } := by
  obtain ⟨hslot, hctx, hmixes, hval⟩ := processEpoch_keeps hepoch hfresh.currentEpoch
  rw [hctx] at hrotate
  have hnext : computeEpochAtSlot P (s₁.slot + 1) = getCurrentEpoch s.toBeaconState + 1 := by
    rw [hslot]
    exact hlater
  exact ⟨keys_of_evolves hval (fun _ _ h => h.pubkey) (fun _ h => h.elim) hfresh.keys,
    hfresh.duties.rotate rfl hnext hmixes hval hrotate⟩

theorem advanceSlot_fresh (h : advanceSlot env cfg s = .ok s') (hfresh : Fresh env cfg s) : Fresh env cfg s' := by
  have hprocessed : Fresh env cfg (processSlot env cfg s) := ⟨hfresh.keys, hfresh.duties.of_eq rfl rfl rfl⟩
  rcases advanceSlot_split h with ⟨hepoch, rfl⟩ | ⟨t, ctx, hepoch, htransition, hslot, hrotate, h⟩
  · exact ⟨hprocessed.keys, hprocessed.duties.of_eq hepoch rfl rfl⟩
  · rw [← hslot] at hrotate h
    have hrotated := rotated_fresh htransition hrotate hepoch hprocessed
    split at h
    · exact upgradeState_fresh h
    · exact h ▸ hrotated

variable {I : CachedBeaconState P → Prop}

theorem advanceSlots_keeps (hstep : ∀ {s s' : CachedBeaconState P}, advanceSlot env cfg s = .ok s' → I s → I s') :
    ∀ (slots : Nat) (s : CachedBeaconState P), advanceSlots env cfg slots s = .ok s' → I s → I s'
  | 0, s, h, hkept => by
    unfold advanceSlots at h
    rw [pure_eq_ok] at h
    exact h ▸ hkept
  | slots + 1, s, h, hkept => by
    obtain ⟨s₁, h₁, h⟩ := bind_eq_ok.1 h
    exact advanceSlots_keeps hstep slots s₁ h (hstep h₁ hkept)

theorem processSlots_keeps (hstep : ∀ {s s' : CachedBeaconState P}, advanceSlot env cfg s = .ok s' → I s → I s')
    (h : processSlots env cfg s slot = .ok s') (hkept : I s) : I s' := by
  obtain ⟨_, -, h⟩ := bind_eq_ok.1 h
  exact advanceSlots_keeps hstep _ s h hkept

/-! ## Runs -/

variable {ops : List Op}

theorem runOps_keeps (hslot : ∀ {s s' : CachedBeaconState P}, advanceSlot env cfg s = .ok s' → I s → I s')
    (hblock : ∀ {s s' : CachedBeaconState P} {block : BeaconBlock} {verify : Bool},
      processBlock env cfg s block verify = .ok s' → I s → I s')
    (hshared : ∀ {s : CachedBeaconState P} (pubkey2index : OrderedMap BLSPubkey Nat) (index2pubkey : List (Option BLSPubkey)),
      I s → I { s with epochCtx := { s.epochCtx with pubkey2index, index2pubkey } })
    (h : runOps env cfg s ops = .ok s') : I s → I s' := by
  refine foldlM_invariant (fun s op s' h hkept => ?_) ops h
  cases op with
  | slots slot => exact processSlots_keeps hslot h hkept
  | block block verifySignatures => exact hblock h hkept
  | transition signedBlock options =>
    unfold runOp stateTransition at h
    simp only [bind_eq_ok, pure_eq_ok] at h
    obtain ⟨s₁, h₁, _, -, _, -, s₂, h₂, _, -, rfl⟩ := h
    exact hblock h₂ (processSlots_keeps hslot h₁ hkept)
  | sharedPubkeys pubkey2index index2pubkey =>
    unfold runOp at h
    rw [pure_eq_ok] at h
    exact h ▸ hshared pubkey2index index2pubkey hkept

theorem Fresh.shared (hfresh : Fresh env cfg s) (pubkey2index : OrderedMap BLSPubkey Nat) (index2pubkey : List (Option BLSPubkey)) :
    Fresh env cfg { s with epochCtx := { s.epochCtx with pubkey2index, index2pubkey } } := by
  obtain ⟨hkeys, hcurrent, hprevious, hnext, hproposers, hrewards⟩ := hfresh
  exact ⟨hkeys, hcurrent, hprevious, hnext, hproposers, hrewards⟩

theorem runOps_fresh (h : runOps env cfg s ops = .ok s') : Fresh env cfg s → Fresh env cfg s' :=
  runOps_keeps advanceSlot_fresh processBlock_fresh (fun pubkey2index index2pubkey h => h.shared pubkey2index index2pubkey) h

/-- **After any run of slots and blocks from a state just created, the context beside the state has the shufflings, the
proposers and the rewards that a context created from the resulting state has.** -/
theorem runOps_epochCtx {s₀ : CachedBeaconState P} {ops : List Op}
    (h₀ : createCachedBeaconState env cfg st noOpts = .ok s₀) (h : runOps env cfg s₀ ops = .ok s) :
    ∃ ctx, createEpochContext env cfg s.toBeaconState noOpts = .ok ctx ∧
      s.epochCtx.previousShuffling = ctx.previousShuffling ∧ s.epochCtx.currentShuffling = ctx.currentShuffling ∧
      s.epochCtx.nextShuffling = ctx.nextShuffling ∧ s.epochCtx.proposers = ctx.proposers ∧
      s.epochCtx.baseRewardPerIncrement = ctx.baseRewardPerIncrement ∧
      s.epochCtx.syncParticipantReward = ctx.syncParticipantReward ∧
      s.epochCtx.syncProposerReward = ctx.syncProposerReward := by
  obtain ⟨hkeys, hduties⟩ := runOps_fresh h (createCachedBeaconState_fresh h₀)
  obtain ⟨⟨pubkey2index, index2pubkey⟩, hsync⟩ := syncPubkeys_empty.2 hkeys
  have hctx : createEpochContext env cfg s.toBeaconState noOpts =
      .ok { s.epochCtx with pubkey2index := pubkey2index, index2pubkey := index2pubkey } :=
    createEpochContext_eq_ok.2 ⟨hsync, hduties.current, hduties.previous, hduties.next, hduties.proposers, hduties.rewards⟩
  exact ⟨_, hctx, rfl, rfl, rfl, rfl, rfl, rfl, rfl⟩

/-! ## A run with a deposit -/

def pubkeyOf (byte : UInt8) : BLSPubkey := Vector.replicate 48 byte

def awaitingDeposit : BeaconState minimal :=
  let active := fun (byte : UInt8) => ({
    pubkey := pubkeyOf byte, withdrawalCredentials := zeroRoot, effectiveBalance := 32000000000, slashed := false
    activationEligibilityEpoch := 0, activationEpoch := 0, exitEpoch := ⊤, withdrawableEpoch := ⊤ } : Validator)
  let committee := { pubkeys := List.replicate 32 (pubkeyOf 0), aggregatePubkey := pubkeyOf 0 }
  { slot := 14
    fork := { previousVersion := minimalForkVersion, currentVersion := minimalForkVersion, epoch := 0 }
    latestBlockHeader := { slot := 13, proposerIndex := 0, parentRoot := zeroRoot, stateRoot := zeroRoot, bodyRoot := zeroRoot }
    blockRoots := Vector.replicate _ zeroRoot
    stateRoots := Vector.replicate _ zeroRoot
    historicalRoots := []
    eth1Data := { depositRoot := zeroRoot, depositCount := 3, blockHash := zeroRoot }
    eth1DataVotes := []
    eth1DepositIndex := 2
    validators := [active 1, active 2]
    balances := [32000000000, 32000000000]
    randaoMixes := Vector.replicate _ zeroRoot
    slashings := Vector.replicate _ 0
    previousEpochAttestations := []
    currentEpochAttestations := []
    previousEpochParticipation := []
    currentEpochParticipation := []
    justificationBits := Vector.replicate 4 false
    previousJustifiedCheckpoint := { epoch := 0, root := zeroRoot }
    currentJustifiedCheckpoint := { epoch := 0, root := zeroRoot }
    finalizedCheckpoint := { epoch := 0, root := zeroRoot }
    inactivityScores := []
    currentSyncCommittee := committee
    nextSyncCommittee := committee }

def depositBlock : SignedBeaconBlock :=
  let signature := Vector.replicate 96 0
  let data := { pubkey := pubkeyOf 3, withdrawalCredentials := zeroRoot, amount := 32000000000, signature := signature }
  let body := {
    randaoReveal := signature
    eth1Data := { depositRoot := zeroRoot, depositCount := 3, blockHash := zeroRoot }
    graffiti := zeroRoot
    proposerSlashings := []
    attesterSlashings := []
    attestations := []
    deposits := [{ proof := List.replicate 33 zeroRoot, data := data }]
    voluntaryExits := []
    syncAggregate := { syncCommitteeBits := [], syncCommitteeSignature := signature } }
  { message := { slot := 17, proposerIndex := 0, parentRoot := zeroRoot, stateRoot := zeroRoot, body := body }
    signature := signature }

def depositOps : List Op :=
  [.transition depositBlock { verifyStateRoot := true, verifyProposer := true, verifySignatures := true }, .slots 25]

theorem runOps_epochCtx_deposit : ∃ s₀ s, createCachedBeaconState (plainEnv minimal) (minimalConfig ⊤) awaitingDeposit noOpts = .ok s₀ ∧
    runOps (plainEnv minimal) (minimalConfig ⊤) s₀ depositOps = .ok s ∧ s.validators.length = 3 ∧
    ∃ ctx, createEpochContext (plainEnv minimal) (minimalConfig ⊤) s.toBeaconState noOpts = .ok ctx ∧
      s.epochCtx.nextShuffling = ctx.nextShuffling := by
  have hrun : ((createCachedBeaconState (plainEnv minimal) (minimalConfig ⊤) awaitingDeposit noOpts).bind fun s₀ =>
      (runOps (plainEnv minimal) (minimalConfig ⊤) s₀ depositOps).map fun s => s.validators.length) = .ok 3 := by
    decide +kernel
  cases hs₀ : createCachedBeaconState (plainEnv minimal) (minimalConfig ⊤) awaitingDeposit noOpts with
  | error e =>
    rw [hs₀] at hrun
    cases hrun
  | ok s₀ =>
    rw [hs₀] at hrun
    cases hs : runOps (plainEnv minimal) (minimalConfig ⊤) s₀ depositOps with
    | error e =>
      simp only [Except.bind, hs] at hrun
      cases hrun
    | ok s =>
      simp only [Except.bind, hs] at hrun
      obtain ⟨ctx, hctx, -, -, hnext, -⟩ := runOps_epochCtx hs₀ hs
      exact ⟨s₀, s, rfl, hs, Except.ok.inj hrun, ctx, hctx, hnext⟩

end Lodestar.StateTransition
