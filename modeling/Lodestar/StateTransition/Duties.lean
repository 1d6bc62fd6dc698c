import Lodestar.StateTransition.Registry
import Lodestar.StateTransition.EpochContext
/-!
# Duties — what an epoch context is a function of

The shufflings, proposers and rewards of a context depend on the epoch of the state, on the mixes of three epochs, on who is
active in three epochs and on the effective balances of the active validators.  `HasDuties` says that a context has what
`createEpochContext` computes for a state; two states that agree in those points have the same duties.
-/
namespace Lodestar.StateTransition

open Lib

variable {P : Preset} {env : Env P} {cfg : ChainConfig} {st st' : BeaconState P} {ctx : EpochContext}

/-! ## Duties of a state -/

def previousEpochOf (currentEpoch : Nat) : Nat := if currentEpoch = GENESIS_EPOCH then GENESIS_EPOCH else currentEpoch - 1

/-- The context has the shufflings, the proposers and the rewards of the state. -/
structure HasDuties (env : Env P) (cfg : ChainConfig) (st : BeaconState P) (ctx : EpochContext) : Prop where
  current : computeEpochShuffling env st (indicesBounded st.validators) (getCurrentEpoch st) = .ok ctx.currentShuffling
  previous : (if previousEpochOf (getCurrentEpoch st) = getCurrentEpoch st then pure ctx.currentShuffling
    else computeEpochShuffling env st (indicesBounded st.validators) (previousEpochOf (getCurrentEpoch st))) =
      .ok ctx.previousShuffling
  next : computeEpochShuffling env st (indicesBounded st.validators) (getCurrentEpoch st + 1) = .ok ctx.nextShuffling
  proposers : (if 0 < st.validators.length then computeProposers env st ctx.currentShuffling else pure []) = .ok ctx.proposers
  rewards : ∃ total, getTotalActiveBalance st = .ok total ∧
    ctx.syncParticipantReward = (if cfg.ALTAIR_FORK_EPOCH ≤ getCurrentEpoch st then computeSyncParticipantReward P total else 0) ∧
    ctx.syncProposerReward =
      (if cfg.ALTAIR_FORK_EPOCH ≤ getCurrentEpoch st then computeSyncProposerReward ctx.syncParticipantReward else 0) ∧
    ctx.baseRewardPerIncrement =
      if cfg.ALTAIR_FORK_EPOCH ≤ getCurrentEpoch st then computeBaseRewardPerIncrement P total else 0

theorem createEpochContext_eq_ok : createEpochContext env cfg st noOpts = .ok ctx ↔
    syncPubkeys env st .empty [] = .ok (ctx.pubkey2index, ctx.index2pubkey) ∧ HasDuties env cfg st ctx := by
  unfold createEpochContext noOpts
  simp only [bind_eq_ok, pure_eq_ok, Option.getD_none, Bool.false_eq_true, if_false, decide_eq_true_eq]
  constructor
  · rintro ⟨keys, hkeys, current, hcurrent, previous, hprevious, next, hnext, proposers, hproposers, total, htotal, rfl⟩
    exact ⟨hkeys, hcurrent, hprevious, hnext, hproposers, total, htotal, rfl, rfl, rfl⟩
  · rintro ⟨hkeys, hcurrent, hprevious, hnext, hproposers, total, htotal, hparticipant, hproposer, hbase⟩
    refine ⟨_, hkeys, _, hcurrent, _, hprevious, _, hnext, _, hproposers, total, htotal, ?_⟩
    obtain ⟨keys, index2pubkey, proposers, previous, current, next, participant, proposer, base⟩ := ctx
    simp only at hparticipant hproposer hbase
    subst hparticipant hproposer hbase
    rfl

variable {shuffling : EpochShuffling} {epoch e w : Nat}

theorem computeEpochShuffling_epoch {bounded : List (Nat × ℕ∞ × ℕ∞)}
    (h : computeEpochShuffling env st bounded epoch = .ok shuffling) : shuffling.epoch = epoch := by
  unfold computeEpochShuffling at h
  simp only [bind_eq_ok, pure_eq_ok] at h
  obtain ⟨_, -, _, -, rfl⟩ := h
  rfl

theorem HasDuties.currentEpoch (h : HasDuties env cfg st ctx) : ctx.currentShuffling.epoch = getCurrentEpoch st :=
  computeEpochShuffling_epoch h.current

theorem HasDuties.previousEpoch (h : HasDuties env cfg st ctx) :
    ctx.previousShuffling.epoch = previousEpochOf (getCurrentEpoch st) := by
  have hduty := h.previous
  split at hduty
  · rename_i hgenesis
    rw [pure_eq_ok] at hduty
    rw [← hduty, h.currentEpoch, hgenesis]
  · exact computeEpochShuffling_epoch hduty

/-! ## Public keys -/

theorem syncPubkeys_empty : (∃ keys, syncPubkeys env st .empty [] = .ok keys) ↔
    ∀ v ∈ st.validators, env.publicKeyFromBytes v.pubkey false = true := by
  have key : ∀ (entries : List (Validator × Nat)) (keys : OrderedMap BLSPubkey Nat × List (Option BLSPubkey)),
      (∃ keys', entries.foldlM (fun keys entry => do
        check (env.publicKeyFromBytes entry.1.pubkey false) "invalid public key"
        pure (keys.1.set entry.1.pubkey entry.2, keys.2 ++ [some entry.1.pubkey])) keys = .ok keys') ↔
      ∀ entry ∈ entries, env.publicKeyFromBytes entry.1.pubkey false = true := by
    intro entries
    induction entries with
    | nil =>
      simp [pure_eq_ok]
    | cons entry entries ih =>
      intro keys
      simp only [List.foldlM_cons, bind_eq_ok, check_eq_ok, pure_eq_ok, List.mem_cons, forall_eq_or_imp]
      constructor
      · rintro ⟨keys', next, ⟨-, hvalid, rfl⟩, hrest⟩
        exact ⟨hvalid, (ih _).1 ⟨keys', hrest⟩⟩
      · rintro ⟨hvalid, hrest⟩
        obtain ⟨keys', h⟩ := (ih _).2 hrest
        exact ⟨keys', _, ⟨(), hvalid, rfl⟩, h⟩
  unfold syncPubkeys
  simp only [bind_eq_ok, check_eq_ok, OrderedMap.size, OrderedMap.empty, List.length_nil, decide_true, true_and,
    List.drop_zero, exists_const]
  rw [key]
  constructor
  · intro h v hv
    obtain ⟨i, hi⟩ := List.getElem?_of_mem hv
    exact h (v, i) (List.mem_zipIdx_iff_getElem?.2 hi)
  · intro h entry hentry
    exact h entry.1 (List.mem_of_getElem? (List.mem_zipIdx_iff_getElem?.1 hentry))

/-! ## Seeds -/

theorem seedMix_ne (P : Preset) (h : e ≤ w + 1) (h' : w ≤ e + 1) :
    (e + P.EPOCHS_PER_HISTORICAL_VECTOR - P.MIN_SEED_LOOKAHEAD - 1) % P.EPOCHS_PER_HISTORICAL_VECTOR ≠
      w % P.EPOCHS_PER_HISTORICAL_VECTOR := by
  have hN := P.historicalVector_ge
  have hL := P.minSeedLookahead_eq
  intro heq
  rw [← Nat.add_mod_right w] at heq
  have hzero := Nat.sub_mod_eq_zero_of_mod_eq heq.symm
  rw [Nat.mod_eq_of_lt (by omega)] at hzero
  omega

def SameMixesBut (w : Nat) (st st' : BeaconState P) : Prop :=
  ∀ e, e % P.EPOCHS_PER_HISTORICAL_VECTOR ≠ w % P.EPOCHS_PER_HISTORICAL_VECTOR → getRandaoMix st' e = getRandaoMix st e

theorem getRandaoMix_congr (h : st'.randaoMixes = st.randaoMixes) (epoch : Nat) :
    getRandaoMix st' epoch = getRandaoMix st epoch := by
  unfold getRandaoMix
  rw [h]

theorem SameMixesBut.of_set {mix : Root} (hlt : w % P.EPOCHS_PER_HISTORICAL_VECTOR < P.EPOCHS_PER_HISTORICAL_VECTOR)
    (h : st'.randaoMixes = st.randaoMixes.set (w % P.EPOCHS_PER_HISTORICAL_VECTOR) mix hlt) : SameMixesBut w st st' := by
  intro e he
  unfold getRandaoMix
  rw [h]
  exact Vector.getElem_set_ne hlt _ fun heq => he heq.symm

theorem SameMixesBut.getSeed (h : SameMixesBut w st st') (he : e ≤ w + 1) (he' : w ≤ e + 1) (domainType : List UInt8)
    : getSeed env st' e domainType = getSeed env st e domainType := by
  unfold StateTransition.getSeed
  rw [h _ (seedMix_ne P he he')]

/-! ## States with the same duties -/

theorem activeIndices_eq (validators : List Validator) (epoch : Nat) :
    ((indicesBounded validators).filter fun entry =>
      decide (entry.2.1 ≤ (epoch : ℕ∞)) && decide ((epoch : ℕ∞) < entry.2.2)).map (·.1) =
    indicesWhere (isActiveValidator · epoch) validators := by
  unfold indicesBounded indicesWhere
  rw [List.filter_map, List.map_map]
  rfl

theorem computeEpochShuffling_congr (hseed : getSeed env st' e DOMAIN_BEACON_ATTESTER = getSeed env st e DOMAIN_BEACON_ATTESTER)
    (hactive : getActiveValidatorIndices st' e = getActiveValidatorIndices st e) :
    computeEpochShuffling env st' (indicesBounded st'.validators) e =
      computeEpochShuffling env st (indicesBounded st.validators) e := by
  unfold getActiveValidatorIndices at hactive
  unfold computeEpochShuffling
  simp only [activeIndices_eq, hseed, hactive]

def SameStakes (indices : List Nat) (st st' : BeaconState P) : Prop :=
  ∀ i ∈ indices, (st'.validators[i]?).map (·.effectiveBalance) = (st.validators[i]?).map (·.effectiveBalance)

variable {indices : List Nat}

theorem sampleCandidate_congr (h : SameStakes indices st st') (seed : Root) (i : Nat) :
    sampleCandidate env st' indices seed i = sampleCandidate env st indices seed i := by
  unfold sampleCandidate
  congr 1
  funext shuffledIndex
  cases hc : indices[shuffledIndex]? with
  | none =>
    simp only [getAt, hc, Option.elim_none]
    rfl
  | some candidate =>
    simp only [getAt, hc, Option.elim_some]
    exact getAt_bind_congr Validator.effectiveBalance (fun effectiveBalance => pure (candidate, decide
      (P.MAX_EFFECTIVE_BALANCE * ((env.hash (seed.toList ++ intToBytes (i / 32) 8)).get ⟨i % 32, _⟩).toNat ≤
        effectiveBalance * MAX_RANDOM_BYTE))) (h candidate (List.mem_of_getElem? hc))

theorem computeProposerIndexFrom_congr (h : SameStakes indices st st') (seed : Root) :
    ∀ remaining i, computeProposerIndexFrom env st' indices seed remaining i =
      computeProposerIndexFrom env st indices seed remaining i
  | 0, _ => rfl
  | remaining + 1, i => by
    unfold computeProposerIndexFrom
    rw [sampleCandidate_congr h]
    congr 1
    funext candidate
    rw [computeProposerIndexFrom_congr h seed remaining (i + 1)]

theorem computeProposers_congr
    (hseed : getSeed env st' shuffling.epoch DOMAIN_BEACON_PROPOSER = getSeed env st shuffling.epoch DOMAIN_BEACON_PROPOSER)
    (h : SameStakes shuffling.activeIndices st st') :
    computeProposers env st' shuffling = computeProposers env st shuffling := by
  unfold computeProposers
  rw [hseed]
  dsimp only
  congr 1
  funext slot
  unfold computeProposerIndex
  rw [computeProposerIndexFrom_congr h]

theorem getTotalBalance_congr (h : SameStakes indices st st') :
    getTotalBalance st' indices = getTotalBalance st indices := by
  unfold getTotalBalance
  congr 1
  generalize 0 = total
  induction indices generalizing total with
  | nil => rfl
  | cons i indices ih =>
    have hstep : (getAt typeError st'.validators i >>= fun v => pure (total + v.effectiveBalance) : Except String Nat) =
        (getAt typeError st.validators i >>= fun v => pure (total + v.effectiveBalance)) :=
      getAt_bind_congr Validator.effectiveBalance (fun effectiveBalance => pure (total + effectiveBalance)) (h i List.mem_cons_self)
    rw [List.foldlM_cons, List.foldlM_cons, hstep]
    congr 1
    funext total'
    exact ih (fun j hj => h j (List.mem_cons_of_mem i hj)) total'

theorem getTotalActiveBalance_ok (st : BeaconState P) : ∃ total, getTotalActiveBalance st = .ok total := by
  have key : ∀ (indices : List Nat) (total : Nat), (∀ i ∈ indices, ∃ v, st.validators[i]? = some v) →
      ∃ total', indices.foldlM (fun total index => do
        let validator ← getAt typeError st.validators index
        pure (total + validator.effectiveBalance)) total = (.ok total' : Except String Nat) := by
    intro indices
    induction indices with
    | nil => exact fun total _ => ⟨total, rfl⟩
    | cons i indices ih =>
      intro total h
      obtain ⟨v, hv⟩ := h i List.mem_cons_self
      obtain ⟨total', h'⟩ := ih (total + v.effectiveBalance) fun j hj => h j (List.mem_cons_of_mem i hj)
      refine ⟨total', ?_⟩
      rw [List.foldlM_cons, bind_eq_ok]
      exact ⟨_, bind_eq_ok.2 ⟨v, getAt_eq_ok.2 hv, rfl⟩, h'⟩
  obtain ⟨total, h⟩ := key (getActiveValidatorIndices st (getCurrentEpoch st)) 0 fun i hi => by
    obtain ⟨v, hv, -⟩ := mem_indicesWhere.1 hi
    exact ⟨v, hv⟩
  exact ⟨_, bind_eq_ok.2 ⟨total, h, rfl⟩⟩

end Lodestar.StateTransition
