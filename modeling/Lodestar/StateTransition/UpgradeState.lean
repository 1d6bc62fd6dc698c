import Lodestar.StateTransition.AttestationRewards
import Lodestar.StateTransition.PendingVotes
import Lodestar.StateTransition.ShuffleList
/-!
# UpgradeState — the upgrade of a phase0 run to altair

The upgrade computes a sync committee, makes a context from scratch and measures the pending attestations of the previous epoch
once more, by the rules of altair.  The context is the one the run had, and the attestations have kept what they are measured
against (`PendingVotes`), so only the committee can throw: `upgradeState_translates`.
-/
namespace Lodestar.StateTransition

open Lib

variable {P : Preset} {env : Env P} {cfg : ChainConfig} {s t : CachedBeaconState P} {st : BeaconState P}

/-! ## The sync committee -/

variable {indices : List Nat}

theorem sampleCandidate_returns (hne : indices ≠ []) (hcount : indices.length ≤ 2 ^ 40)
    (hvalidators : ∀ i ∈ indices, i < st.validators.length) (seed : Root) (i : Nat) :
    Returns (sampleCandidate env st indices seed i) fun candidate => candidate.1 ∈ indices := by
  have hpos := List.length_pos_of_ne_nil hne
  have hshuffled := through_lt (shuffleIndex_lt env seed) (List.range P.SHUFFLE_ROUND_COUNT) (Nat.mod_lt i hpos)
  refine (Returns.of_eq (computeShuffledIndex_eq (Nat.mod_lt i hpos) hcount)).bind fun shuffledIndex heq => ?_
  subst heq
  have hcandidate := List.getElem_mem hshuffled
  refine (Returns.of_eq (getAt_eq_ok.2 (List.getElem?_eq_getElem hshuffled))).bind fun candidate heq => ?_
  subst heq
  refine (Returns.of_eq (getAt_eq_ok.2 (List.getElem?_eq_getElem (hvalidators _ hcandidate)))).bind fun validator _ => ?_
  exact .pure hcandidate

theorem getNextSyncCommitteeIndicesFrom_cases (hne : indices ≠ []) (hcount : indices.length ≤ 2 ^ 40)
    (hvalidators : ∀ i ∈ indices, i < st.validators.length) (seed : Root) : ∀ (bound i : Nat) (sampled : List Nat),
    (∀ index ∈ sampled, index ∈ indices) →
      (∃ result, getNextSyncCommitteeIndicesFrom env st indices seed bound i sampled = .ok result ∧
        ∀ index ∈ result, index ∈ indices) ∨
      getNextSyncCommitteeIndicesFrom env st indices seed bound i sampled = .error "still sampling"
  | bound, i, sampled, hsampled => by
    unfold getNextSyncCommitteeIndicesFrom
    split
    · exact .inl ⟨sampled, rfl, hsampled⟩
    · cases bound with
      | zero => exact .inr rfl
      | succ bound =>
        obtain ⟨candidate, hcandidate, hmem⟩ := @sampleCandidate_returns P env st indices hne hcount hvalidators seed i
        rw [hcandidate]
        refine getNextSyncCommitteeIndicesFrom_cases hne hcount hvalidators seed bound (i + 1) _ fun index hindex => ?_
        split at hindex
        · rcases List.mem_append.1 hindex with hold | hnew
          · exact hsampled index hold
          · rw [List.mem_singleton] at hnew
            exact hnew ▸ hmem
        · exact hsampled index hindex

theorem getNextSyncCommittee_error {e : String}
    (hactive : getActiveValidatorIndices st (computeEpochAtSlot P st.slot + 1) ≠ [])
    (hcount : (getActiveValidatorIndices st (computeEpochAtSlot P st.slot + 1)).length ≤ 2 ^ 40)
    (h : getNextSyncCommittee env st = .error e) :
    e = "still sampling" ∨ ∃ pubkeys, env.aggregatePublicKeys pubkeys = .error e := by
  have hvalidators : ∀ i ∈ getActiveValidatorIndices st (computeEpochAtSlot P st.slot + 1), i < st.validators.length := by
    intro i hi
    obtain ⟨v, hv, -⟩ := mem_indicesWhere.1 hi
    exact (List.getElem?_eq_some_iff.1 hv).1
  unfold getNextSyncCommittee getNextSyncCommitteeIndices at h
  rcases @getNextSyncCommitteeIndicesFrom_cases P env st _ hactive hcount hvalidators
      (getSeed env st (computeEpochAtSlot P st.slot + 1) DOMAIN_SYNC_COMMITTEE) env.samplingBound 0 []
      (fun _ hmem => absurd hmem List.not_mem_nil) with ⟨indices, hindices, hmem⟩ | hsampling
  · rw [hindices] at h
    obtain ⟨pubkeys, hpubkeys, -⟩ := mapM_returns (l := indices) (R := fun _ _ => True) (f := fun index => (do
        let validator ← getAt typeError st.validators index
        pure validator.pubkey : Except String BLSPubkey)) fun index hindex => by
      have hlt := hvalidators index (hmem index hindex)
      refine ⟨st.validators[index].pubkey, ?_, trivial⟩
      rw [bind_eq_ok]
      exact ⟨_, getAt_eq_ok.2 (List.getElem?_eq_getElem hlt), rfl⟩
    refine .inr ⟨pubkeys, ?_⟩
    dsimp only [bind, Except.bind] at h hpubkeys
    rw [hpubkeys] at h
    dsimp only at h
    cases haggregate : env.aggregatePublicKeys pubkeys with
    | error e' =>
      rw [haggregate] at h
      exact congrArg Except.error (Except.error.inj h)
    | ok key =>
      rw [haggregate] at h
      cases h
  · rw [hsampling] at h
    exact .inl (Except.error.inj h).symm

theorem getNextSyncCommittee_none (hsize : 0 < P.SYNC_COMMITTEE_SIZE)
    (hactive : getActiveValidatorIndices st (computeEpochAtSlot P st.slot + 1) = []) :
    ∃ e, getNextSyncCommittee env st = .error e := by
  unfold getNextSyncCommittee getNextSyncCommitteeIndices
  dsimp only
  rw [hactive]
  unfold getNextSyncCommitteeIndicesFrom
  rw [List.length_nil, if_neg (Nat.not_le.2 hsize)]
  cases env.samplingBound with
  | zero => exact ⟨_, rfl⟩
  | succ bound => exact ⟨_, rfl⟩

/-! ## The upgraded state -/

/-- What the upgrade leaves of a state, and the lists it makes anew. -/
structure Upgrades (st st' : BeaconState P) : Prop where
  slot : st'.slot = st.slot
  validators : st'.validators = st.validators
  randaoMixes : st'.randaoMixes = st.randaoMixes
  blockRoots : st'.blockRoots = st.blockRoots
  previousJustifiedCheckpoint : st'.previousJustifiedCheckpoint = st.previousJustifiedCheckpoint
  currentJustifiedCheckpoint : st'.currentJustifiedCheckpoint = st.currentJustifiedCheckpoint
  previousEpochParticipation : st'.previousEpochParticipation = List.replicate st.validators.length emptyParticipationStatus

theorem upgradeTreeBackedState_ok {st' : BeaconState P} (h : upgradeTreeBackedState env cfg st = .ok st') : Upgrades st st' := by
  unfold upgradeTreeBackedState at h
  simp only [bind_eq_ok, pure_eq_ok] at h
  obtain ⟨committee, -, rfl⟩ := h
  exact ⟨rfl, rfl, rfl, rfl, rfl, rfl, rfl⟩

theorem createCachedBeaconState_upgraded (hfresh : Fresh env cfg s) (haltair : getForkName P cfg s.slot = .altair)
    (h : Upgrades s.toBeaconState st) :
    ∃ post, createCachedBeaconState env cfg st noOpts = .ok post ∧ post.toBeaconState = st ∧
      SameButKeys s.epochCtx post.epochCtx := by
  have hduties : HasDuties env cfg st s.epochCtx :=
    hfresh.duties.of_eq (congrArg (computeEpochAtSlot P) h.slot) h.randaoMixes h.validators
  have hkeys : ∀ v ∈ st.validators, env.publicKeyFromBytes v.pubkey false = true := by
    rw [h.validators]
    exact hfresh.keys
  obtain ⟨⟨pubkey2index, index2pubkey⟩, hsync⟩ := syncPubkeys_empty.2 hkeys
  have hctx : createEpochContext env cfg st noOpts =
      .ok { s.epochCtx with pubkey2index := pubkey2index, index2pubkey := index2pubkey } :=
    createEpochContext_eq_ok.2 ⟨hsync, hduties.current, hduties.previous, hduties.next, hduties.proposers, hduties.rewards⟩
  unfold createCachedBeaconState
  rw [hctx, h.slot, haltair]
  exact ⟨_, rfl, rfl, _, _, rfl⟩

/-! ## The translation -/

/-- A pending attestation in which a validator took part gives it a flag. -/
def GivesFlag (s : CachedBeaconState P) (i flagIndex : Nat) (attestation : PendingAttestation) : Prop :=
  ∃ flags indices, getAttestationParticipationStatus s attestation.data attestation.inclusionDelay = .ok flags ∧
    s.epochCtx.getAttestingIndices P attestation.data attestation.aggregationBits = .ok indices ∧ i ∈ indices ∧
    hasFlag flags flagIndex = true

/-- The attestation can be measured in the state, and its attesters have an entry. -/
def CanTranslate (s : CachedBeaconState P) (attestation : PendingAttestation) : Prop :=
  ∃ flags indices, getAttestationParticipationStatus s attestation.data attestation.inclusionDelay = .ok flags ∧
    s.epochCtx.getAttestingIndices P attestation.data attestation.aggregationBits = .ok indices ∧
    ∀ i ∈ indices, i < s.previousEpochParticipation.length

theorem or_or_self (status flags : ParticipationStatus) : (status.or flags).or flags = status.or flags := by
  unfold ParticipationStatus.or
  simp only [Bool.or_assoc, Bool.or_self]

theorem translateParticipation_loop (s : CachedBeaconState P) : ∀ (attestations : List PendingAttestation)
    (participation : List ParticipationStatus), participation.length = s.previousEpochParticipation.length →
    (∀ attestation ∈ attestations, CanTranslate s attestation) →
    Returns (attestations.foldlM (fun participation attestation => do
      let flags ← getAttestationParticipationStatus s attestation.data attestation.inclusionDelay
      let attestingIndices ← s.epochCtx.getAttestingIndices P attestation.data attestation.aggregationBits
      attestingIndices.foldlM (fun participation index => modifyAt typeError participation index (·.or flags)) participation)
      participation) fun participation' => participation'.length = participation.length ∧
        ∀ (i flagIndex : Nat), (∃ status, participation'[i]? = some status ∧ hasFlag status flagIndex = true) ↔
          (∃ status, participation[i]? = some status ∧ hasFlag status flagIndex = true) ∨
            ∃ attestation ∈ attestations, GivesFlag s i flagIndex attestation
  | [], participation, _, _ => .pure ⟨rfl, fun i flagIndex => by simp⟩
  | attestation :: attestations, participation, hlength, hcan => by
    obtain ⟨flags, indices, hflags, hindices, hlt⟩ := hcan attestation List.mem_cons_self
    have hgives : ∀ i flagIndex, GivesFlag s i flagIndex attestation ↔ i ∈ indices ∧ hasFlag flags flagIndex = true := by
      intro i flagIndex
      constructor
      · rintro ⟨flags', indices', hflags', hindices', hmem, hset⟩
        rw [hflags, Except.ok.injEq] at hflags'
        rw [hindices, Except.ok.injEq] at hindices'
        exact ⟨hindices' ▸ hmem, hflags' ▸ hset⟩
      · rintro ⟨hmem, hset⟩
        exact ⟨flags, indices, hflags, hindices, hmem, hset⟩
    let first := participation.mapIdx fun i status => if i ∈ indices then status.or flags else status
    have hfirst : indices.foldlM (fun participation index => modifyAt typeError participation index (·.or flags)) participation =
        .ok first := (foldlM_modifyAt_eq_ok (or_or_self · flags) indices participation first).2 ⟨hlength ▸ hlt, rfl⟩
    have hlengthFirst : first.length = participation.length := List.length_mapIdx
    have hset : ∀ i flagIndex, (∃ status, first[i]? = some status ∧ hasFlag status flagIndex = true) ↔
        (∃ status, participation[i]? = some status ∧ hasFlag status flagIndex = true) ∨ GivesFlag s i flagIndex attestation := by
      intro i flagIndex
      rw [hgives, List.getElem?_mapIdx]
      cases hstatus : participation[i]? with
      | none =>
        -- an attester has an entry
        have hout : i ∉ indices := fun hmem => by
          have hbound := hlt i hmem
          rw [List.getElem?_eq_none_iff, hlength] at hstatus
          omega
        simp [hout]
      | some status =>
        by_cases hmem : i ∈ indices
        · simp [hmem, hasFlag_or]
        · simp [hmem]
    obtain ⟨participation', hrest, hlength', hflags'⟩ := translateParticipation_loop s attestations first
      (hlengthFirst.trans hlength) fun attestation' hmem => hcan attestation' (List.mem_cons_of_mem attestation hmem)
    refine ⟨participation', ?_, hlength'.trans hlengthFirst, fun i flagIndex => ?_⟩
    · rw [List.foldlM_cons, bind_eq_ok]
      exact ⟨first, bind_eq_ok.2 ⟨flags, hflags, bind_eq_ok.2 ⟨indices, hindices, hfirst⟩⟩, hrest⟩
    · rw [hflags' i flagIndex, hset i flagIndex, List.exists_mem_cons_iff, or_assoc]

theorem Measured.canTranslate {epoch : Nat} {attestation : PendingAttestation}
    (h : Measured P t.epochCtx epoch t.previousJustifiedCheckpoint attestation.data)
    (hroots : P.SLOTS_PER_EPOCH ≤ P.SLOTS_PER_HISTORICAL_ROOT) (hduties : HasDuties env cfg t.toBeaconState t.epochCtx)
    (hlength : t.previousEpochParticipation.length = t.validators.length)
    (hstart : t.slot = (epoch + 1) * P.SLOTS_PER_EPOCH) : CanTranslate t attestation := by
  obtain ⟨htarget, hslot, hsource, committee, hcommittee⟩ := h
  have hpos := P.slotsPerEpoch_pos
  have hindices : t.epochCtx.getAttestingIndices P attestation.data attestation.aggregationBits =
      .ok (zipIndexesCommitteeBits committee attestation.aggregationBits) := getAttestingIndices_eq hcommittee
  have hnext : t.slot = epoch * P.SLOTS_PER_EPOCH + P.SLOTS_PER_EPOCH := by
    rw [hstart, Nat.succ_mul]
  have hcurrent : ¬ attestation.data.target.epoch = t.epochCtx.currentShuffling.epoch := by
    have hepoch : getCurrentEpoch t.toBeaconState = epoch + 1 := by
      unfold getCurrentEpoch computeEpochAtSlot
      rw [hstart, Nat.mul_div_cancel _ hpos]
    rw [hduties.currentEpoch, hepoch, htarget]
    omega
  have hattested : epoch * P.SLOTS_PER_EPOCH ≤ attestation.data.slot ∧ attestation.data.slot < t.slot := by
    unfold computeEpochAtSlot at hslot
    rw [Nat.div_eq_iff hpos] at hslot
    omega
  have hstatus : Returns (getAttestationParticipationStatus t attestation.data attestation.inclusionDelay) fun _ => True := by
    unfold getAttestationParticipationStatus
    rw [if_neg hcurrent]
    refine (Returns.check (decide_eq_true hsource)).bind fun _ _ => ?_
    refine Returns.bind (Q := fun _ => True) ?_ fun targetRoot _ => ?_
    · rw [htarget]
      unfold getBlockRoot computeStartSlotAtEpoch
      exact getBlockRootAtSlot_returns (by omega) (by omega)
    · refine Returns.bind (Q := fun _ => True) ?_ fun _ _ => .pure trivial
      split
      · exact (getBlockRootAtSlot_returns (by omega) (by omega)).bind fun _ _ => .pure trivial
      · exact .pure trivial
  obtain ⟨flags, hflags, -⟩ := hstatus
  exact ⟨flags, _, hflags, hindices, fun i hi => hlength ▸ (hduties.attestingIndices hindices).2 i hi⟩

/-! ## The upgrade -/

/-- **What the upgrade makes of the pending attestations**: all are measured, and a validator has a flag exactly when one of
those in which it took part gives it that flag. -/
structure Translates (pre post : CachedBeaconState P) : Prop where
  measured : ∀ attestation ∈ pre.previousEpochAttestations, CanTranslate post attestation
  length : post.previousEpochParticipation.length = pre.validators.length
  flags : ∀ i flagIndex, (∃ status, post.previousEpochParticipation[i]? = some status ∧ hasFlag status flagIndex = true) ↔
    ∃ attestation ∈ pre.previousEpochAttestations, GivesFlag post i flagIndex attestation

theorem upgradeState_returns {pre : CachedBeaconState P} (hroots : P.SLOTS_PER_EPOCH ≤ P.SLOTS_PER_HISTORICAL_ROOT)
    (hfresh : Fresh env cfg pre) (hvotes : PendingVotes pre) (hstart : pre.slot % P.SLOTS_PER_EPOCH = 0)
    (haltair : getForkName P cfg pre.slot = .altair) {upgraded : BeaconState P}
    (h : upgradeTreeBackedState env cfg pre.toBeaconState = .ok upgraded) :
    Returns (upgradeState env cfg pre) (Translates pre) := by
  have hupgrades := upgradeTreeBackedState_ok h
  obtain ⟨t, hcreated, rfl, hctx⟩ := createCachedBeaconState_upgraded hfresh haltair hupgrades
  have hlength : t.previousEpochParticipation.length = t.validators.length := by
    rw [hupgrades.previousEpochParticipation, List.length_replicate, hupgrades.validators]
  have hduties := (createCachedBeaconState_fresh hcreated).duties
  have hcan : ∀ attestation ∈ pre.previousEpochAttestations, CanTranslate t attestation := by
    intro attestation hmem
    obtain ⟨epoch, hnext, hmeasured⟩ := hvotes.previous attestation hmem
    have hmeasured' := hmeasured.of_sameButKeys hctx
    rw [← hupgrades.previousJustifiedCheckpoint] at hmeasured'
    refine hmeasured'.canTranslate hroots hduties hlength ?_
    rw [hupgrades.slot, hnext]
    exact (Nat.div_mul_cancel (Nat.dvd_of_mod_eq_zero hstart)).symm
  obtain ⟨participation, hloop, hlengthLoop, hflags⟩ := translateParticipation_loop t pre.previousEpochAttestations
    t.previousEpochParticipation rfl hcan
  refine ⟨{ t with previousEpochParticipation := participation }, ?_, ?_, ?_, fun i flagIndex => ?_⟩
  · unfold upgradeState translateParticipation
    simp only [bind_eq_ok, pure_eq_ok]
    exact ⟨_, h, t, hcreated, participation, hloop, rfl⟩
  · intro attestation hmem
    obtain ⟨flags, indices, hstatus, hindices, hlt⟩ := hcan attestation hmem
    exact ⟨flags, indices, hstatus, hindices, fun i hi => hlengthLoop ▸ hlt i hi⟩
  · exact hlengthLoop.trans (hlength.trans (congrArg List.length hupgrades.validators))
  · have hnone : ¬ ∃ status, t.previousEpochParticipation[i]? = some status ∧ hasFlag status flagIndex = true := by
      rintro ⟨status, hstatus, hset⟩
      rw [hupgrades.previousEpochParticipation] at hstatus
      obtain rfl := List.eq_of_mem_replicate (List.mem_of_getElem? hstatus)
      unfold hasFlag emptyParticipationStatus at hset
      simp at hset
    rw [hflags i flagIndex, or_iff_right hnone]
    exact Iff.rfl

/-- **The upgrade of every phase0 run that comes to the epoch of the fork.**  It throws exactly where the sync committee of the
next epoch cannot be computed: with no validator active in that epoch, or as far as the aggregation of their keys throws.  The
pending attestations are translated, and every validator gets the flags of those in which it took part. -/
theorem upgradeState_translates {s₀ pre : CachedBeaconState P} {ops : List Op}
    (hroots : P.SLOTS_PER_EPOCH ≤ P.SLOTS_PER_HISTORICAL_ROOT)
    (hst : Unvoted st) (h₀ : createCachedBeaconState env cfg st noOpts = .ok s₀) (hrun : runOps env cfg s₀ ops = .ok s)
    (hend : (s.slot + 1) % P.SLOTS_PER_EPOCH = 0) (hpre : beforeUpgrade env cfg s = .ok pre)
    (hfork : (getCurrentEpoch pre.toBeaconState : ℕ∞) = cfg.ALTAIR_FORK_EPOCH) :
    (∀ e, upgradeState env cfg pre = .error e ↔ getNextSyncCommittee env pre.toBeaconState = .error e) ∧
    (getActiveValidatorIndices pre.toBeaconState (getCurrentEpoch pre.toBeaconState + 1) = [] → 0 < P.SYNC_COMMITTEE_SIZE →
      ∃ e, upgradeState env cfg pre = .error e) ∧
    (getActiveValidatorIndices pre.toBeaconState (getCurrentEpoch pre.toBeaconState + 1) ≠ [] →
      (getActiveValidatorIndices pre.toBeaconState (getCurrentEpoch pre.toBeaconState + 1)).length ≤ 2 ^ 40 →
      ∀ e, upgradeState env cfg pre = .error e → e = "still sampling" ∨ ∃ pubkeys, env.aggregatePublicKeys pubkeys = .error e) ∧
    ∀ post, upgradeState env cfg pre = .ok post → Translates pre post := by
  have hslot := beforeUpgrade_slot hpre
  have hstart : pre.slot % P.SLOTS_PER_EPOCH = 0 := by
    rw [hslot]
    exact hend
  have hphase0 : getForkName P cfg s.slot = .phase0 := by
    rw [getForkName_eq_phase0, ← hfork]
    unfold getCurrentEpoch
    rw [hslot, computeEpochAtSlot_end hend]
    exact_mod_cast Nat.lt_succ_self _
  have haltair : getForkName P cfg pre.slot = .altair := by
    exact if_pos (le_of_eq hfork.symm)
  obtain ⟨hfresh, hpending⟩ := runOps_upToFork hrun (createCachedBeaconState_upToFork hst h₀)
  have hvotes := beforeUpgrade_pendingVotes hfresh (hpending hphase0) hphase0 hend hpre
  have hfreshPre := beforeUpgrade_fresh hfresh hend hpre
  have hreturns : ∀ committee, getNextSyncCommittee env pre.toBeaconState = .ok committee →
      Returns (upgradeState env cfg pre) (Translates pre) := by
    intro committee hcommittee
    have hupgraded : ∃ upgraded, upgradeTreeBackedState env cfg pre.toBeaconState = .ok upgraded := by
      unfold upgradeTreeBackedState
      rw [hcommittee]
      exact ⟨_, rfl⟩
    obtain ⟨upgraded, hupgraded⟩ := hupgraded
    exact upgradeState_returns hroots hfreshPre hvotes hstart haltair hupgraded
  have herrors : ∀ e, getNextSyncCommittee env pre.toBeaconState = .error e → upgradeState env cfg pre = .error e := by
    intro e he
    unfold upgradeState upgradeTreeBackedState
    rw [he]
    rfl
  have hiff : ∀ e, upgradeState env cfg pre = .error e ↔ getNextSyncCommittee env pre.toBeaconState = .error e := by
    refine fun e => ⟨fun h => ?_, herrors e⟩
    cases hcommittee : getNextSyncCommittee env pre.toBeaconState with
    | error e' =>
      rw [herrors e' hcommittee] at h
      exact congrArg Except.error (Except.error.inj h)
    | ok committee =>
      obtain ⟨post, hpost, -⟩ := hreturns committee hcommittee
      rw [hpost] at h
      cases h
  refine ⟨hiff, fun hactive hsize => ?_, fun hactive hcount e h => ?_, fun post h => ?_⟩
  · obtain ⟨e, he⟩ := @getNextSyncCommittee_none P env pre.toBeaconState hsize hactive
    exact ⟨e, herrors e he⟩
  · exact getNextSyncCommittee_error hactive hcount ((hiff e).1 h)
  · cases hcommittee : getNextSyncCommittee env pre.toBeaconState with
    | error e =>
      rw [herrors e hcommittee] at h
      cases h
    | ok committee =>
      obtain ⟨post', hpost, htranslates⟩ := hreturns committee hcommittee
      rw [hpost, Except.ok.injEq] at h
      exact h ▸ htranslates

/-! ## Two runs -/

def samplingEnv : Env minimal := { plainEnv minimal with samplingBound := 64 }

def genesisOfTwo : BeaconState minimal := { awaitingDepositAtGenesis with eth1DepositIndex := 3 }

def upgradeOps (attestations : List Attestation) (attesterSlashings : List AttesterSlashing) (slot : Nat) : List Op :=
  let block := depositBlock.message
  let signedBlock := { depositBlock with message := { block with
    slot := 4, body := { block.body with deposits := [], attestations := attestations, attesterSlashings := attesterSlashings } } }
  [.transition signedBlock { verifyStateRoot := true, verifyProposer := true, verifySignatures := true }, .slots slot]

def voteFor (beaconBlockRoot : Root) : AttestationData where
  slot := 3
  index := 0
  beaconBlockRoot := beaconBlockRoot
  source := { epoch := 0, root := zeroRoot }
  target := { epoch := 0, root := zeroRoot }

def earlyVote : Attestation :=
  { aggregationBits := [true], data := voteFor zeroRoot, signature := Vector.replicate 96 0 }

def doubleVotes : AttesterSlashing :=
  let votes := fun beaconBlockRoot => ({
    attestingIndices := [0, 1], data := voteFor beaconBlockRoot, signature := Vector.replicate 96 0 } : IndexedAttestation)
  { attestation1 := votes zeroRoot, attestation2 := votes (Vector.replicate 32 1) }

/-- The attester of the first epoch has its three flags after the upgrade, the other validator none. -/
theorem upgradeState_translates_earlyVote : ∃ s₀ s pre post,
    createCachedBeaconState samplingEnv (minimalConfig 1) genesisOfTwo noOpts = .ok s₀ ∧
    runOps samplingEnv (minimalConfig 1) s₀ (upgradeOps [earlyVote] [] 7) = .ok s ∧
    beforeUpgrade samplingEnv (minimalConfig 1) s = .ok pre ∧ upgradeState samplingEnv (minimalConfig 1) pre = .ok post ∧
    Translates pre post ∧ post.previousEpochParticipation =
      [{ timelyHead := true, timelyTarget := true, timelySource := true }, emptyParticipationStatus] := by
  have heval : (createCachedBeaconState samplingEnv (minimalConfig 1) genesisOfTwo noOpts >>= fun s₀ =>
      runOps samplingEnv (minimalConfig 1) s₀ (upgradeOps [earlyVote] [] 7) >>= fun s =>
        beforeUpgrade samplingEnv (minimalConfig 1) s >>= fun pre =>
          (upgradeState samplingEnv (minimalConfig 1) pre).map fun post =>
            ((s.slot, pre.slot), post.previousEpochParticipation)) =
      .ok ((7, 8), [{ timelyHead := true, timelyTarget := true, timelySource := true }, emptyParticipationStatus]) := by
    decide +kernel
  obtain ⟨s₀, hs₀, heval⟩ := bind_eq_ok.1 heval
  obtain ⟨s, hs, heval⟩ := bind_eq_ok.1 heval
  obtain ⟨pre, hpre, heval⟩ := bind_eq_ok.1 heval
  obtain ⟨post, hpost, heval⟩ := map_eq_ok.1 heval
  obtain ⟨hslots, hparticipation⟩ := Prod.mk.inj heval
  obtain ⟨hslot, hpreSlot⟩ := Prod.mk.inj hslots
  have hfork : (getCurrentEpoch pre.toBeaconState : ℕ∞) = (minimalConfig 1).ALTAIR_FORK_EPOCH := by
    unfold getCurrentEpoch
    rw [hpreSlot]
    rfl
  have hend : (s.slot + 1) % minimal.SLOTS_PER_EPOCH = 0 := by
    rw [hslot]
    rfl
  have htranslates := upgradeState_translates (by decide) ⟨rfl, rfl, rfl⟩ hs₀ hs hend hpre hfork
  exact ⟨s₀, s, pre, post, hs₀, hs, hpre, hpost, htranslates.2.2.2 post hpost, hparticipation⟩

/-- A slashing in the first epoch leaves no validator active after the epoch of the fork, and the upgrade throws. -/
theorem upgradeState_fails : ∃ s₀ s pre e,
    createCachedBeaconState samplingEnv (minimalConfig 4) genesisOfTwo noOpts = .ok s₀ ∧
    runOps samplingEnv (minimalConfig 4) s₀ (upgradeOps [] [doubleVotes] 31) = .ok s ∧
    beforeUpgrade samplingEnv (minimalConfig 4) s = .ok pre ∧
    getForkName minimal (minimalConfig 4) s.slot = .phase0 ∧
    (getCurrentEpoch pre.toBeaconState : ℕ∞) = (minimalConfig 4).ALTAIR_FORK_EPOCH ∧
    upgradeState samplingEnv (minimalConfig 4) pre = .error e := by
  have heval : (createCachedBeaconState samplingEnv (minimalConfig 4) genesisOfTwo noOpts >>= fun s₀ =>
      runOps samplingEnv (minimalConfig 4) s₀ (upgradeOps [] [doubleVotes] 31) >>= fun s =>
        (beforeUpgrade samplingEnv (minimalConfig 4) s).map fun pre =>
          ((s.slot, pre.slot), (upgradeState samplingEnv (minimalConfig 4) pre).toOption.isNone)) = .ok ((31, 32), true) := by
    decide +kernel
  obtain ⟨s₀, hs₀, heval⟩ := bind_eq_ok.1 heval
  obtain ⟨s, hs, heval⟩ := bind_eq_ok.1 heval
  obtain ⟨pre, hpre, heval⟩ := map_eq_ok.1 heval
  obtain ⟨hslots, hthrows⟩ := Prod.mk.inj heval
  obtain ⟨hslot, hpreSlot⟩ := Prod.mk.inj hslots
  have hphase0 : getForkName minimal (minimalConfig 4) s.slot = .phase0 := by
    rw [hslot]
    decide
  have hfork : (getCurrentEpoch pre.toBeaconState : ℕ∞) = (minimalConfig 4).ALTAIR_FORK_EPOCH := by
    unfold getCurrentEpoch
    rw [hpreSlot]
    rfl
  cases hupgrade : upgradeState samplingEnv (minimalConfig 4) pre with
  | error e => exact ⟨s₀, s, pre, e, hs₀, hs, hpre, hphase0, hfork, hupgrade⟩
  | ok post =>
    rw [hupgrade] at hthrows
    cases hthrows

end Lodestar.StateTransition
