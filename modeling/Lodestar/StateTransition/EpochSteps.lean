import Lodestar.StateTransition.Registry
import Lodestar.StateTransition.Epoch
/-!
# EpochSteps — what each step of an epoch transition writes

The steps fall into those that leave the slot, the registry, the balances, the slashings, the mixes and the context as they
were (`SameCore`), and those that rewrite one of them, described entry by entry.  `processEpoch_steps` cuts the transition of
either fork into them.
-/
namespace Lodestar.StateTransition

open Lib

variable {P : Preset} {env : Env P} {cfg : ChainConfig} {fork : ForkName} {s s' : CachedBeaconState P}
  {process : EpochProcess}

/-! ## The record -/

/-- What the record says of the state it was prepared from. -/
structure Prepared (cfg : ChainConfig) (s : CachedBeaconState P) (process : EpochProcess) : Prop where
  currentEpoch : process.currentEpoch = s.epochCtx.currentShuffling.epoch
  validators : process.validators = s.validators
  totalActiveStake : process.totalActiveStake = max P.EFFECTIVE_BALANCE_INCREMENT
    ((s.validators.filter (isActiveValidator · s.epochCtx.currentShuffling.epoch)).map (·.effectiveBalance)).sum
  indicesToSlash : process.indicesToSlash = indicesWhere (isToSlash P s.epochCtx.currentShuffling.epoch) s.validators
  indicesToEject : process.indicesToEject = indicesWhere (isToEject cfg s.epochCtx.currentShuffling.epoch) s.validators
  indicesToSetActivationEligibility : process.indicesToSetActivationEligibility =
    indicesWhere (isToSetActivationEligibility P) s.validators
  indicesToMaybeActivate : process.indicesToMaybeActivate =
    (indicesWhere (isToMaybeActivate s.epochCtx.currentShuffling.epoch) s.validators).insertionSort (activationOrder s.validators)
  exitQueueEnd : ((computeActivationExitEpoch P s.epochCtx.currentShuffling.epoch : Nat) : ℕ∞) ≤ process.exitQueueEnd

theorem le_exitQueueEndFrom (validators : List Validator) (start : ℕ∞) : start ≤ exitQueueEndFrom start validators := by
  refine List.foldlRecOn (motive := fun queueEnd => start ≤ queueEnd) validators _ (le_refl _) fun _ h _ _ => le_trans h ?_
  split
  · rename_i h
    exact h.2.le
  · exact le_refl _

theorem prepareEpochProcessState_ok (h : prepareEpochProcessState cfg s = .ok process) :
    Prepared cfg s process ∧ process.balances = none := by
  unfold prepareEpochProcessState at h
  simp only [bind_eq_ok, pure_eq_ok] at h
  obtain ⟨statuses, -, rfl⟩ := h
  refine ⟨⟨rfl, rfl, rfl, rfl, rfl, rfl, rfl, ?_⟩, rfl⟩
  have hend := le_exitQueueEndFrom s.validators (computeActivationExitEpoch P s.epochCtx.currentShuffling.epoch : Nat)
  split
  · exact le_trans hend le_self_add
  · exact hend

theorem Prepared.withBalances (hp : Prepared cfg s process) (balances : Option (List Nat)) :
    Prepared cfg s { process with balances := balances } :=
  ⟨hp.currentEpoch, hp.validators, hp.totalActiveStake, hp.indicesToSlash, hp.indicesToEject,
    hp.indicesToSetActivationEligibility, hp.indicesToMaybeActivate, hp.exitQueueEnd⟩

def EpochProcess.effectiveBalanceAt (process : EpochProcess) (i : Nat) : Nat :=
  ((process.validators[i]?).map (·.effectiveBalance)).getD 0

/-! ## What the steps write that leave the core of the state -/

theorem processJustificationAndFinalization_ok (h : processJustificationAndFinalization s process = .ok s') :
    ∃ justificationBits previousJustifiedCheckpoint currentJustifiedCheckpoint finalizedCheckpoint, s' = { s with
      justificationBits := justificationBits
      previousJustifiedCheckpoint := previousJustifiedCheckpoint
      currentJustifiedCheckpoint := currentJustifiedCheckpoint
      finalizedCheckpoint := finalizedCheckpoint } := by
  unfold processJustificationAndFinalization at h
  dsimp only at h
  split at h
  · rw [pure_eq_ok] at h
    exact ⟨_, _, _, _, h.symm⟩
  · simp only [bind_eq_ok, pure_eq_ok] at h
    obtain ⟨⟨s₁, bits₁⟩, h₁, ⟨s₂, bits₂⟩, h₂, rfl⟩ := h
    have hs₁ : ∃ current, s₁ = { s with
        previousJustifiedCheckpoint := s.currentJustifiedCheckpoint, currentJustifiedCheckpoint := current } := by
      split at h₁
      · simp only [bind_eq_ok, pure_eq_ok, Prod.mk.injEq] at h₁
        obtain ⟨root, -, rfl, -⟩ := h₁
        exact ⟨_, rfl⟩
      · simp only [pure_eq_ok, Prod.mk.injEq] at h₁
        obtain ⟨rfl, -⟩ := h₁
        exact ⟨_, rfl⟩
    have hs₂ : ∃ current, s₂ = { s₁ with currentJustifiedCheckpoint := current } := by
      split at h₂
      · simp only [bind_eq_ok, pure_eq_ok, Prod.mk.injEq] at h₂
        obtain ⟨root, -, rfl, -⟩ := h₂
        exact ⟨_, rfl⟩
      · simp only [pure_eq_ok, Prod.mk.injEq] at h₂
        obtain ⟨rfl, -⟩ := h₂
        exact ⟨_, rfl⟩
    obtain ⟨current₁, rfl⟩ := hs₁
    obtain ⟨current₂, rfl⟩ := hs₂
    exact ⟨_, _, _, _, rfl⟩

theorem processInactivityUpdates_ok (h : processInactivityUpdates cfg s process = .ok s') :
    ∃ inactivityScores, s' = { s with inactivityScores := inactivityScores } := by
  unfold processInactivityUpdates at h
  split at h
  · rw [pure_eq_ok] at h
    exact ⟨_, h.symm⟩
  · simp only [bind_eq_ok, pure_eq_ok] at h
    obtain ⟨scores, -, rfl⟩ := h
    exact ⟨_, rfl⟩

theorem processEth1DataReset_writes (s : CachedBeaconState P) (process : EpochProcess) :
    ∃ eth1DataVotes, processEth1DataReset s process = { s with eth1DataVotes := eth1DataVotes } := by
  unfold processEth1DataReset
  dsimp only
  split <;> exact ⟨_, rfl⟩

theorem processHistoricalRootsUpdate_writes (env : Env P) (s : CachedBeaconState P) (process : EpochProcess) :
    ∃ historicalRoots, processHistoricalRootsUpdate env s process = { s with historicalRoots := historicalRoots } := by
  unfold processHistoricalRootsUpdate
  dsimp only
  split <;> exact ⟨_, rfl⟩

theorem processSyncCommitteeUpdates_ok (h : processSyncCommitteeUpdates env s process = .ok s') :
    ∃ currentSyncCommittee nextSyncCommittee currentIndexedSyncCommittee nextIndexedSyncCommittee, s' = { s with
      currentSyncCommittee := currentSyncCommittee
      nextSyncCommittee := nextSyncCommittee
      currentIndexedSyncCommittee := currentIndexedSyncCommittee
      nextIndexedSyncCommittee := nextIndexedSyncCommittee } := by
  unfold processSyncCommitteeUpdates at h
  dsimp only at h
  split at h
  · unfold rotateSyncCommittee at h
    simp only [bind_eq_ok, pure_eq_ok] at h
    obtain ⟨committee, -, rfl⟩ := h
    exact ⟨_, _, _, _, rfl⟩
  · rw [pure_eq_ok] at h
    exact ⟨_, _, _, _, h.symm⟩

/-- The parts of the state that the balances, the registry and the context of an epoch are read from. -/
structure SameCore (s s' : CachedBeaconState P) : Prop where
  slot : s'.slot = s.slot
  validators : s'.validators = s.validators
  balances : s'.balances = s.balances
  slashings : s'.slashings = s.slashings
  randaoMixes : s'.randaoMixes = s.randaoMixes
  epochCtx : s'.epochCtx = s.epochCtx

variable {s₁ s₂ s₃ s₀ : CachedBeaconState P}

theorem SameCore.trans (h : SameCore s₁ s₂) (h' : SameCore s₂ s₃) : SameCore s₁ s₃ :=
  ⟨h'.slot.trans h.slot, h'.validators.trans h.validators, h'.balances.trans h.balances, h'.slashings.trans h.slashings,
    h'.randaoMixes.trans h.randaoMixes, h'.epochCtx.trans h.epochCtx⟩

theorem processEth1DataReset_core (s : CachedBeaconState P) (process : EpochProcess) :
    SameCore s (processEth1DataReset s process) := by
  obtain ⟨eth1DataVotes, heq⟩ := processEth1DataReset_writes s process
  exact heq ▸ ⟨rfl, rfl, rfl, rfl, rfl, rfl⟩

theorem processHistoricalRootsUpdate_core (env : Env P) (s : CachedBeaconState P) (process : EpochProcess) :
    SameCore s (processHistoricalRootsUpdate env s process) := by
  obtain ⟨historicalRoots, heq⟩ := processHistoricalRootsUpdate_writes env s process
  exact heq ▸ ⟨rfl, rfl, rfl, rfl, rfl, rfl⟩

/-! ## Rewards, registry, slashings and effective balances -/

theorem processRewardsAndPenalties_run {process' : EpochProcess}
    (h : processRewardsAndPenalties cfg fork s process = .ok (s', process')) :
    (epochDeltas cfg fork s process = .ok none ∧ s' = s ∧ process' = process) ∨
    ∃ deltas balances, epochDeltas cfg fork s process = .ok (some deltas) ∧ applyDeltas s.balances deltas = .ok balances ∧
      s' = { s with balances := balances } ∧ process' = { process with balances := some balances } := by
  unfold processRewardsAndPenalties at h
  rw [bind_eq_ok] at h
  obtain ⟨found, hfound, h⟩ := h
  cases found with
  | none =>
    simp only [pure_eq_ok, Prod.mk.injEq] at h
    exact .inl ⟨hfound, h.1.symm, h.2.symm⟩
  | some deltas =>
    simp only [bind_eq_ok, pure_eq_ok, Prod.mk.injEq] at h
    obtain ⟨balances, hb, rfl, rfl⟩ := h
    exact .inr ⟨deltas, balances, hfound, hb, rfl, rfl⟩

theorem decreaseBalance_run {index delta : Nat} (h : decreaseBalance s index delta = .ok s') :
    ∃ balances, modifyAt typeError s.balances index (· - delta) = .ok balances ∧ s' = { s with balances := balances } := by
  unfold decreaseBalance at h
  simp only [bind_eq_ok, pure_eq_ok] at h
  obtain ⟨balances, hb, rfl⟩ := h
  refine ⟨balances, ?_, rfl⟩
  rw [modifyAt_eq_ok] at hb ⊢
  refine ⟨hb.1, hb.2.trans ?_⟩
  congr 1
  funext currentBalance
  split <;> omega

theorem processSlashings_run (h : processSlashingsAllForks fork s process = .ok s') (hnd : process.indicesToSlash.Nodup) :
    ∃ balances, s' = { s with balances := balances } ∧ ∀ i, balances[i]? = if i ∈ process.indicesToSlash
      then (s.balances[i]?).map fun b => b - slashingPenalty P fork s.slashings process.totalActiveStake
        (process.effectiveBalanceAt i)
      else s.balances[i]? := by
  have key : ∀ (indices : List Nat) (t : CachedBeaconState P),
      indices.foldlM (fun state index => do
        let validator ← getAt typeError process.validators index
        decreaseBalance state index
          (slashingPenalty P fork s.slashings process.totalActiveStake validator.effectiveBalance)) t = .ok s' →
      ∃ balances, s' = { t with balances := balances } ∧
        indices.foldlM (fun l i => modifyAt typeError l i (· - slashingPenalty P fork s.slashings process.totalActiveStake
          (process.effectiveBalanceAt i))) t.balances = .ok balances := by
    intro indices
    induction indices with
    | nil =>
      intro t ht
      rw [List.foldlM_nil, pure_eq_ok] at ht
      exact ⟨t.balances, ht.symm, rfl⟩
    | cons i indices ih =>
      intro t ht
      simp only [List.foldlM_cons, bind_eq_ok] at ht
      obtain ⟨t₁, ⟨v, hv, h₁⟩, ht⟩ := ht
      obtain ⟨balances₁, hb₁, rfl⟩ := decreaseBalance_run h₁
      obtain ⟨balances, hs', hb⟩ := ih _ ht
      refine ⟨balances, hs', ?_⟩
      rw [List.foldlM_cons, bind_eq_ok]
      refine ⟨balances₁, ?_, hb⟩
      rw [getAt_eq_ok] at hv
      simpa [EpochProcess.effectiveBalanceAt, hv] using hb₁
  obtain ⟨balances, hs', hb⟩ := key _ _ h
  exact ⟨balances, hs', fun i => getElem?_foldlM_modifyAt (fun i b => b - slashingPenalty P fork s.slashings
    process.totalActiveStake (process.effectiveBalanceAt i)) i hnd hb⟩

theorem ejections_evolve {c churnLimit : Nat} {R : Validator → Validator → Prop} (refl : ∀ v, R v v)
    (trans : ∀ v₁ v₂ v₃, R v₁ v₂ → R v₂ v₃ → R v₁ v₃)
    (exit : ∀ v exitEpoch withdrawableEpoch, v.exitEpoch = ⊤ → ((c + 2 : Nat) : ℕ∞) ≤ exitEpoch →
      R v { v with exitEpoch := exitEpoch, withdrawableEpoch := withdrawableEpoch }) :
    ∀ (indices : List Nat) (validators : List Validator) (exitEnd : ℕ∞) (endChurn : Nat), indices.Nodup →
      ((c + 2 : Nat) : ℕ∞) ≤ exitEnd → (∀ i ∈ indices, ∀ v, validators[i]? = some v → v.exitEpoch = ⊤) →
      Evolves R (fun _ => False) validators (indices.foldl (ejectStep cfg churnLimit) (validators, exitEnd, endChurn)).1
  | [], validators, _, _, _, _, _ => Evolves.refl refl validators
  | i :: indices, validators, exitEnd, endChurn, hnd, hle, hexit => by
    obtain ⟨hi, hnd⟩ := List.nodup_cons.1 hnd
    have hhead : Evolves R (fun _ => False) validators (ejectStep cfg churnLimit (validators, exitEnd, endChurn) i).1 := by
      have h := Evolves.modify (N := fun _ => False) (l := validators) refl i (fun v => { v with
        exitEpoch := exitEnd, withdrawableEpoch := exitEnd + cfg.MIN_VALIDATOR_WITHDRAWABILITY_DELAY })
        fun v hv => exit v _ _ (hexit i List.mem_cons_self v hv) hle
      unfold ejectStep
      dsimp only
      split <;> exact h
    have hlater : ((c + 2 : Nat) : ℕ∞) ≤ (ejectStep cfg churnLimit (validators, exitEnd, endChurn) i).2.1 := by
      unfold ejectStep
      dsimp only
      split
      · exact le_trans hle le_self_add
      · exact hle
    have hrest : ∀ j ∈ indices, ∀ v, (ejectStep cfg churnLimit (validators, exitEnd, endChurn) i).1[j]? = some v →
        v.exitEpoch = ⊤ := by
      intro j hj v hv
      have hne : i ≠ j := fun h => hi (h ▸ hj)
      refine hexit j (List.mem_cons_of_mem i hj) v ?_
      rw [← hv]
      unfold ejectStep
      dsimp only
      split <;> simp [hne]
    exact hhead.trans trans (fun _ _ h _ => h) (ejections_evolve refl trans exit indices _ _ _ hnd hlater hrest)

theorem processRegistryUpdates_run (hp : Prepared cfg s₀ process) (hv : s.validators = s₀.validators) :
    ∃ validators, processRegistryUpdates cfg s process = { s with validators := validators } ∧
      Evolves (AgedSameBalance process.currentEpoch) (fun _ => False) s.validators validators := by
  refine ⟨_, rfl, ?_⟩
  -- ejections and eligibilities leave the activation epochs
  let R := fun v v' => AgedSameBalance process.currentEpoch v v' ∧ v'.activationEpoch = v.activationEpoch
  have hrefl : ∀ v, R v v := fun v => ⟨AgedSameBalance.refl _ v, rfl⟩
  have htrans : ∀ v₁ v₂ v₃, R v₁ v₂ → R v₂ v₃ → R v₁ v₃ := fun _ _ _ h h' => ⟨h.1.trans h'.1, h'.2.trans h.2⟩
  have hejected : Evolves R (fun _ => False) s.validators (process.indicesToEject.foldl (ejectStep cfg process.churnLimit)
      (s.validators, process.exitQueueEnd, process.exitQueueEndChurn)).1 := by
    refine ejections_evolve hrefl htrans (fun v _ _ hexit hle => ⟨⟨⟨rfl, .inl rfl, .inr ⟨hexit, hle⟩⟩, rfl⟩, rfl⟩) _ _ _ _ ?_ ?_ ?_
    · rw [hp.indicesToEject]
      exact indicesWhere_nodup _ _
    · refine le_trans ?_ hp.exitQueueEnd
      rw [hp.currentEpoch]
      exact_mod_cast le_computeActivationExitEpoch P _
    · intro i hi v hiv
      rw [hp.indicesToEject, mem_indicesWhere] at hi
      obtain ⟨v', hv', ht⟩ := hi
      rw [hv, hv', Option.some.injEq] at hiv
      subst hiv
      simp only [isToEject, Bool.and_eq_true, decide_eq_true_eq] at ht
      exact ht.1.2
  have heligible := hejected.trans htrans (fun _ _ h _ => h) (Evolves.foldl_modify hrefl
    (fun _ v => { v with activationEligibilityEpoch := ((s.epochCtx.currentShuffling.epoch + 1 : Nat) : ℕ∞) })
    process.indicesToSetActivationEligibility (hp.indicesToSetActivationEligibility ▸ indicesWhere_nodup _ _)
    fun i _ v _ => ⟨⟨⟨rfl, .inl rfl, .inl rfl⟩, rfl⟩, rfl⟩)
  -- activations are of validators without an activation epoch
  refine (heligible.mono (fun _ _ h => h.1) fun _ h => h).trans (fun _ _ _ => AgedSameBalance.trans) (fun _ _ h _ => h)
    (Evolves.foldl_modify (AgedSameBalance.refl _)
      (fun _ v => { v with activationEpoch := ((computeActivationExitEpoch P process.currentEpoch : Nat) : ℕ∞) }) _ ?_ ?_)
  · refine List.Nodup.sublist ((List.takeWhile_sublist _).trans (List.take_sublist _ _)) ?_
    rw [hp.indicesToMaybeActivate, (List.perm_insertionSort _ _).nodup_iff]
    exact indicesWhere_nodup _ _
  · intro i hi v hiv
    have hmem := ((List.takeWhile_sublist _).trans (List.take_sublist _ _)).subset hi
    rw [hp.indicesToMaybeActivate, (List.perm_insertionSort _ _).mem_iff, mem_indicesWhere, ← hv] at hmem
    obtain ⟨v₀, hv₀, ht⟩ := hmem
    obtain ⟨v', hv', -, hact⟩ := heligible.old i v₀ hv₀
    simp only [isToMaybeActivate, Bool.and_eq_true, decide_eq_true_eq] at ht
    have heq : v' = v := Option.some.inj (hv'.symm.trans hiv)
    have hlate : ((process.currentEpoch + 2 : Nat) : ℕ∞) ≤ (computeActivationExitEpoch P process.currentEpoch : Nat) := by
      exact_mod_cast le_computeActivationExitEpoch P _
    refine ⟨⟨rfl, .inr ⟨?_, hlate⟩, .inl rfl⟩, rfl⟩
    rw [← heq, hact]
    exact ht.1

theorem processEffectiveBalanceUpdates_run (h : processEffectiveBalanceUpdates s process = .ok s') :
    ∃ validators, s' = { s with validators := validators } ∧ ∀ i : Nat, validators[i]? =
      match (process.balances.getD s.balances)[i]? with
      | some balance => (s.validators[i]?).map fun (v : Validator) => { v with effectiveBalance :=
          (effectiveBalanceUpdate P (process.effectiveBalanceAt i) balance).getD v.effectiveBalance }
      | none => s.validators[i]? := by
  unfold processEffectiveBalanceUpdates at h
  generalize process.balances.getD s.balances = balances at h ⊢
  -- the new record at an index, from the balance at that index
  let change := fun (i : Nat) (v : Validator) => { v with effectiveBalance :=
    (effectiveBalanceUpdate P (process.effectiveBalanceAt i) ((balances[i]?).getD 0)).getD v.effectiveBalance }
  have key : ∀ (entries : List (Nat × Nat)) (t : CachedBeaconState P), (∀ entry ∈ entries, balances[entry.2]? = some entry.1) →
      entries.foldlM (fun state entry => do
        let validator ← getAt typeError process.validators entry.2
        match effectiveBalanceUpdate P validator.effectiveBalance entry.1 with
        | some effectiveBalance =>
          pure (updateValidator state entry.2 fun v => { v with effectiveBalance := effectiveBalance })
        | none => pure state) t = .ok s' →
      s' = { t with validators := (entries.map (·.2)).foldl (fun l i => l.modify i (change i)) t.validators } := by
    intro entries
    induction entries with
    | nil =>
      intro t _ ht
      rw [List.foldlM_nil, pure_eq_ok] at ht
      exact ht.symm
    | cons entry entries ih =>
      intro t hmem ht
      simp only [List.foldlM_cons, bind_eq_ok] at ht
      obtain ⟨t₁, ⟨v, hv, h₁⟩, ht⟩ := ht
      rw [getAt_eq_ok] at hv
      have hbal := hmem entry List.mem_cons_self
      have hstep : t₁ = { t with validators := t.validators.modify entry.2 (change entry.2) } := by
        split at h₁
        · rename_i effectiveBalance hupd
          rw [pure_eq_ok] at h₁
          subst h₁
          simp [updateValidator, change, EpochProcess.effectiveBalanceAt, hv, hbal, hupd]
        · rename_i hupd
          rw [pure_eq_ok] at h₁
          subst h₁
          have hid : change entry.2 = id := by
            funext w
            simp [change, EpochProcess.effectiveBalanceAt, hv, hbal, hupd]
          rw [hid, List.modify_id]
      rw [ih t₁ (fun e he => hmem e (List.mem_cons_of_mem entry he)) ht, hstep]
      rfl
  refine ⟨_, key _ s (fun entry he => List.mem_zipIdx_iff_getElem?.1 he) h, fun i => ?_⟩
  rw [getElem?_foldl_modify change i _ _ (nodup_map_snd_zipIdx balances 0)]
  by_cases hi : i < balances.length
  · simp [hi, change]
  · simp [hi]

/-! ## The whole transition -/

def beforeRewards (cfg : ChainConfig) (fork : ForkName) (s : CachedBeaconState P) (process : EpochProcess) :
    Except String (CachedBeaconState P) := do
  let s ← processJustificationAndFinalization s process
  match fork with
  | .phase0 => pure s
  | .altair => processInactivityUpdates cfg s process

theorem beforeRewards_core (h : beforeRewards cfg fork s process = .ok s') : SameCore s s' := by
  unfold beforeRewards at h
  rw [bind_eq_ok] at h
  obtain ⟨s₁, h₁, h⟩ := h
  obtain ⟨_, _, _, _, rfl⟩ := processJustificationAndFinalization_ok h₁
  cases fork with
  | phase0 =>
    rw [pure_eq_ok] at h
    exact h ▸ ⟨rfl, rfl, rfl, rfl, rfl, rfl⟩
  | altair =>
    obtain ⟨inactivityScores, rfl⟩ := processInactivityUpdates_ok h
    exact ⟨rfl, rfl, rfl, rfl, rfl, rfl⟩

theorem processEpoch_steps (h : processEpochByFork env cfg fork s = .ok s') :
    ∃ process s₁ s₂ process' s₃ s₄, prepareEpochProcessState cfg s = .ok process ∧
      beforeRewards cfg fork s process = .ok s₁ ∧
      processRewardsAndPenalties cfg fork s₁ process = .ok (s₂, process') ∧
      processSlashingsAllForks fork (processRegistryUpdates cfg s₂ process') process' = .ok s₃ ∧
      processEffectiveBalanceUpdates (processEth1DataReset s₃ process') process' = .ok s₄ ∧
      SameCore (processRandaoMixesReset (processSlashingsReset s₄ process') process') s' := by
  cases fork with
  | phase0 =>
    unfold processEpochByFork processEpochPhase0 processFinalUpdates at h
    simp only [bind_eq_ok, pure_eq_ok, Prod.exists] at h
    obtain ⟨process, hprep, s₁, h₁, s₂, process', h₂, s₃, h₃, s₄, h₄, rfl⟩ := h
    refine ⟨process, s₁, s₂, process', s₃, s₄, hprep, ?_, h₂, h₃, h₄, ?_⟩
    · unfold beforeRewards
      rw [bind_eq_ok]
      exact ⟨s₁, h₁, rfl⟩
    · exact (processHistoricalRootsUpdate_core env _ process').trans ⟨rfl, rfl, rfl, rfl, rfl, rfl⟩
  | altair =>
    unfold processEpochByFork processEpochAltair at h
    simp only [bind_eq_ok, Prod.exists] at h
    obtain ⟨process, hprep, s₀, h₀, s₁, h₁, s₂, process', h₂, s₃, h₃, s₄, h₄, h₅⟩ := h
    refine ⟨process, s₁, s₂, process', s₃, s₄, hprep, ?_, h₂, h₃, h₄, ?_⟩
    · unfold beforeRewards
      rw [bind_eq_ok]
      exact ⟨s₀, h₀, h₁⟩
    · obtain ⟨_, _, _, _, rfl⟩ := processSyncCommitteeUpdates_ok h₅
      exact (processHistoricalRootsUpdate_core env _ process').trans ⟨rfl, rfl, rfl, rfl, rfl, rfl⟩

end Lodestar.StateTransition
