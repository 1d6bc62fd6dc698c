import Lodestar.StateTransition.OperationEffects
/-!
# AttestationInclusion — which attestations a block may include

An attestation that gossip has accepted has its target, its slot and its committee right.  What is left for the block to
find wrong is `Includable`, and no operation of the block changes that.
-/
namespace Lodestar.StateTransition

open Lib

variable {P : Preset} {env : Env P} {cfg : ChainConfig} {fork : ForkName} {s t t' : CachedBeaconState P}

/-! ## Attestations -/

/-- What gossip has checked of an aggregate against the state, and the slots in which a block may include it. -/
structure Vouched (s : CachedBeaconState P) (attestation : Attestation) : Prop where
  target : attestation.data.target.epoch = computeEpochAtSlot P attestation.data.slot
  earliest : attestation.data.slot + P.MIN_ATTESTATION_INCLUSION_DELAY ≤ s.slot
  latest : s.slot ≤ attestation.data.slot + P.SLOTS_PER_EPOCH
  attesters : ∃ committee, s.epochCtx.getBeaconCommittee P attestation.data.slot attestation.data.index = .ok committee ∧
    0 < (zipIndexesCommitteeBits committee attestation.aggregationBits).length

/-- What a block asks of an attestation beyond that: the source is the justified checkpoint, the bits are those of the
committee, and no more are set than an indexed attestation holds. -/
structure Includable (s : CachedBeaconState P) (attestation : Attestation) : Prop where
  source : attestation.data.source = if attestation.data.target.epoch = s.epochCtx.currentShuffling.epoch
    then s.currentJustifiedCheckpoint else s.previousJustifiedCheckpoint
  bits : ∃ committee, s.epochCtx.getBeaconCommittee P attestation.data.slot attestation.data.index = .ok committee ∧
    attestation.aggregationBits.length = committee.length ∧
    (zipIndexesCommitteeBits committee attestation.aggregationBits).length ≤ P.MAX_VALIDATORS_PER_COMMITTEE

variable {st : BeaconState P} {ctx : EpochContext}

theorem HasDuties.cut {epoch : Nat} {shuffling : EpochShuffling} (h : HasDuties env cfg st ctx)
    (hshuffling : ctx.getShufflingAtEpoch epoch = .ok shuffling) : Cut st.validators shuffling := by
  have hprevious : Cut st.validators ctx.previousShuffling := by
    have hduty := h.previous
    split at hduty
    · rw [pure_eq_ok] at hduty
      exact hduty ▸ computeEpochShuffling_cut h.current
    · exact computeEpochShuffling_cut hduty
  unfold EpochContext.getShufflingAtEpoch at hshuffling
  split at hshuffling
  · rw [pure_eq_ok] at hshuffling
    exact hshuffling ▸ hprevious
  · split at hshuffling
    · rw [pure_eq_ok] at hshuffling
      exact hshuffling ▸ computeEpochShuffling_cut h.current
    · split at hshuffling
      · rw [pure_eq_ok] at hshuffling
        exact hshuffling ▸ computeEpochShuffling_cut h.next
      · cases hshuffling

theorem zipIndexesCommitteeBits_sublist : ∀ (indexes : List Nat) (bits : List Bool),
    (zipIndexesCommitteeBits indexes bits).Sublist indexes
  | [], _ => List.Sublist.refl _
  | index :: indexes, bits => by
    have hrest := zipIndexesCommitteeBits_sublist indexes bits.tail
    unfold zipIndexesCommitteeBits zipIndexes
    split
    · exact hrest.cons_cons index
    · exact hrest.cons index

theorem HasDuties.committee {slot index : Nat} {committee : List Nat} (h : HasDuties env cfg st ctx)
    (hcommittee : ctx.getBeaconCommittee P slot index = .ok committee) :
    committee.Nodup ∧ (∀ i ∈ committee, i < st.validators.length) ∧
      ∃ count, ctx.getCommitteeCountPerSlot (computeEpochAtSlot P slot) = .ok count ∧ index < count := by
  unfold EpochContext.getBeaconCommittee at hcommittee
  simp only [bind_eq_ok, getAt_eq_ok] at hcommittee
  obtain ⟨shuffling, hshuffling, slotCommittees, hslot, hindex⟩ := hcommittee
  have hcut := h.cut hshuffling
  have hslotMem := List.mem_of_getElem? hslot
  obtain ⟨hnodup, hlt⟩ := hcut.committees _ hslotMem _ (List.mem_of_getElem? hindex)
  refine ⟨hnodup, hlt, shuffling.committeesPerSlot, ?_, ?_⟩
  · unfold EpochContext.getCommitteeCountPerSlot
    rw [hshuffling]
    rfl
  · rw [← hcut.slots _ hslotMem]
    exact (List.getElem?_eq_some_iff.1 hindex).1

variable {attestation : Attestation}

theorem Vouched.epoch (hhead : HeadState env cfg s) (h : Vouched s attestation) :
    computeEpochAtSlot P attestation.data.slot = s.epochCtx.previousShuffling.epoch ∨
      computeEpochAtSlot P attestation.data.slot = s.epochCtx.currentShuffling.epoch := by
  have hle : computeEpochAtSlot P attestation.data.slot ≤ getCurrentEpoch s.toBeaconState :=
    Nat.div_le_div_right (le_trans (Nat.le_add_right _ _) h.earliest)
  have hge : getCurrentEpoch s.toBeaconState ≤ computeEpochAtSlot P attestation.data.slot + 1 := by
    unfold getCurrentEpoch computeEpochAtSlot
    rw [← Nat.add_div_right _ P.slotsPerEpoch_pos]
    exact Nat.div_le_div_right h.latest
  rw [hhead.duties.previousEpoch, hhead.duties.currentEpoch]
  unfold previousEpochOf GENESIS_EPOCH
  split <;> omega

theorem validateAttestation_iff (hhead : HeadState env cfg s) (hvouched : Vouched s attestation) :
    validateAttestation s attestation = .ok () ↔
      ∃ committee, s.epochCtx.getBeaconCommittee P attestation.data.slot attestation.data.index = .ok committee ∧
        attestation.aggregationBits.length = committee.length := by
  have hepoch := hvouched.epoch hhead
  obtain ⟨htarget, hearliest, hlatest, committee, hcommittee, -⟩ := hvouched
  obtain ⟨-, -, count, hcount, hindex⟩ := hhead.duties.committee hcommittee
  unfold validateAttestation
  simp only [bind_eq_ok, check_eq_ok, decide_eq_true_eq, hcount, Except.ok.injEq, exists_eq_left', hindex, hepoch, htarget,
    hearliest, hlatest, and_self, hcommittee, true_and, exists_const]

variable {data : AttestationData} {bits : List Bool}

theorem indexedAttestation_valid_iff (hhead : HeadState env cfg s) {committee : List Nat} {signature : BLSSignature}
    (hcommittee : s.epochCtx.getBeaconCommittee P data.slot data.index = .ok committee)
    (hsome : 0 < (zipIndexesCommitteeBits committee bits).length) (hlength : t.validators.length = s.validators.length) :
    isValidIndexedAttestation env t { attestingIndices := (zipIndexesCommitteeBits committee bits).insertionSort (· ≤ ·)
                                      data := data, signature := signature } false = .ok true ↔
      (zipIndexesCommitteeBits committee bits).length ≤ P.MAX_VALIDATORS_PER_COMMITTEE := by
  obtain ⟨hnodup, hlt, -⟩ := hhead.duties.committee hcommittee
  have hsub := zipIndexesCommitteeBits_sublist committee bits
  have hperm := List.perm_insertionSort (· ≤ ·) (zipIndexesCommitteeBits committee bits)
  generalize zipIndexesCommitteeBits committee bits = indices at hsome hsub hperm ⊢
  have hsorted : (indices.insertionSort (· ≤ ·)).Pairwise (· < ·) := by
    have hle := List.pairwise_insertionSort (· ≤ ·) indices
    have hne : (indices.insertionSort (· ≤ ·)).Nodup := hperm.nodup_iff.2 (hnodup.sublist hsub)
    exact (hle.and hne).imp fun h => lt_of_le_of_ne h.1 h.2
  have hlast : (indices.insertionSort (· ≤ ·)).getLastD 0 < s.validators.length := by
    refine hlt _ (hsub.subset (hperm.mem_iff.1 ?_))
    have hpos : indices.insertionSort (· ≤ ·) ≠ [] := List.ne_nil_of_length_pos (hperm.length_eq ▸ hsome)
    rw [List.getLastD_eq_getLast?, List.getLast?_eq_some_getLast hpos]
    exact List.getLast_mem hpos
  rw [isValidIndexedAttestation_iff]
  rw [hperm.length_eq, hlength]
  constructor
  · exact fun h => h.2.1
  · exact fun h => ⟨hsome, h, hsorted, hlast⟩

theorem getAttestingIndices_eq {committee : List Nat} (h : ctx.getBeaconCommittee P data.slot data.index = .ok committee) :
    ctx.getAttestingIndices P data bits = .ok (zipIndexesCommitteeBits committee bits) := by
  unfold EpochContext.getAttestingIndices
  rw [h]
  rfl

def AfterAttestations (s : CachedBeaconState P) (validators : List Validator) (_ : Unit) (t : CachedBeaconState P) : Prop :=
  SameBackground s t ∧ t.validators = validators

variable {validators : List Validator}

theorem Includable.source_eq (h : Includable s attestation) (hback : SameBackground s t) :
    attestation.data.source = if attestation.data.target.epoch = t.epochCtx.currentShuffling.epoch
      then t.currentJustifiedCheckpoint else t.previousJustifiedCheckpoint := by
  rw [hback.epochCtx, hback.currentJustifiedCheckpoint, hback.previousJustifiedCheckpoint]
  exact h.source

theorem Vouched.checks (hhead : HeadState env cfg s) (hvouched : Vouched s attestation) (hback : SameBackground s t) :
    ∃ indexed, t.epochCtx.getIndexedAttestation P attestation = .ok indexed ∧
      ∀ next : CachedBeaconState P, next.validators.length = s.validators.length →
        (validateAttestation t attestation = .ok () ∧ isValidIndexedAttestation env next indexed false = .ok true ↔
          ∃ committee, s.epochCtx.getBeaconCommittee P attestation.data.slot attestation.data.index = .ok committee ∧
            attestation.aggregationBits.length = committee.length ∧
            (zipIndexesCommitteeBits committee attestation.aggregationBits).length ≤ P.MAX_VALIDATORS_PER_COMMITTEE) := by
  obtain ⟨committee, hcommittee, hsome⟩ := hvouched.attesters
  have hindexed : s.epochCtx.getIndexedAttestation P attestation = .ok
        ⟨(zipIndexesCommitteeBits committee attestation.aggregationBits).insertionSort (· ≤ ·), attestation.data,
          attestation.signature⟩ := by
    unfold EpochContext.getIndexedAttestation EpochContext.getAttestingIndices
    rw [hcommittee]
    rfl
  refine ⟨_, hback.epochCtx ▸ hindexed, fun next hlength => ?_⟩
  have hsame : validateAttestation t attestation = validateAttestation s attestation := by
    unfold validateAttestation
    rw [hback.epochCtx, hback.slot]
  rw [hsame, validateAttestation_iff hhead hvouched,
    indexedAttestation_valid_iff hhead hcommittee hsome hlength, hcommittee]
  simp only [Except.ok.injEq, exists_eq_left']

theorem processAttestationPhase0_guarded (hhead : HeadState env cfg s) (hvouched : Vouched s attestation) :
    Guarded (AfterAttestations s validators) (fun _ op => Includable s op) (fun _ _ => ())
      (fun t op => processAttestationPhase0 env t op false) attestation := by
  refine Guarded.of_returns (fun _ t h hincludable => ?_) fun _ t t' h hattested => ?_
  · obtain ⟨hback, hvalidators⟩ := h
    obtain ⟨indexed, hget, hchecked⟩ := hvouched.checks hhead hback
    have hsource := hincludable.source_eq hback
    obtain ⟨proposer, hproposer, -⟩ := hhead.hasProposer.of_background hback
    refine (Returns.of_eq ((hchecked t hback.validators).2 hincludable.bits).1).bind fun _ _ => ?_
    refine (Returns.of_eq hproposer).bind fun proposerIndex _ => ?_
    refine Returns.bind (Q := fun next => AfterAttestations s validators () next) ?_ fun next hnext => ?_
    · -- only the list of pending attestations grows
      by_cases hcurrent : attestation.data.target.epoch = t.epochCtx.currentShuffling.epoch
      · rw [if_pos hcurrent] at hsource ⊢
        refine (Returns.check (decide_eq_true hsource)).bind fun _ _ => .pure ⟨hback.trans ?_, hvalidators⟩
        exact ⟨rfl, rfl, rfl, rfl, rfl, rfl, rfl, rfl, rfl, rfl, rfl⟩
      · rw [if_neg hcurrent] at hsource ⊢
        refine (Returns.check (decide_eq_true hsource)).bind fun _ _ => .pure ⟨hback.trans ?_, hvalidators⟩
        exact ⟨rfl, rfl, rfl, rfl, rfl, rfl, rfl, rfl, rfl, rfl, rfl⟩
    · refine (Returns.of_eq hget).bind fun indexed heq => ?_
      subst heq
      refine (Returns.of_eq ((hchecked next hnext.1.validators).2 hincludable.bits).2).bind fun valid htrue => ?_
      exact (Returns.check htrue).bind fun _ _ => .pure hnext
  · obtain ⟨hback, -⟩ := h
    obtain ⟨indexed, hget, hchecked⟩ := hvouched.checks hhead hback
    unfold processAttestationPhase0 at hattested
    simp only [bind_eq_ok, pure_eq_ok, check_eq_ok] at hattested
    obtain ⟨_, hvalid, proposerIndex, -, next, hnext, indexed', heq, valid, hvalidIndexed, _, rfl, -⟩ := hattested
    rw [hget, Except.ok.injEq] at heq
    subst heq
    rw [hback.epochCtx, hback.currentJustifiedCheckpoint, hback.previousJustifiedCheckpoint] at hnext
    have hsource : attestation.data.source = (if attestation.data.target.epoch = s.epochCtx.currentShuffling.epoch
        then s.currentJustifiedCheckpoint else s.previousJustifiedCheckpoint) ∧ next.validators = t.validators := by
      by_cases hcurrent : attestation.data.target.epoch = s.epochCtx.currentShuffling.epoch
      · rw [if_pos hcurrent] at hnext ⊢
        simp only [bind_eq_ok, check_eq_ok, decide_eq_true_eq, pure_eq_ok] at hnext
        obtain ⟨_, hsource, rfl⟩ := hnext
        exact ⟨hsource, rfl⟩
      · rw [if_neg hcurrent] at hnext ⊢
        simp only [bind_eq_ok, check_eq_ok, decide_eq_true_eq, pure_eq_ok] at hnext
        obtain ⟨_, hsource, rfl⟩ := hnext
        exact ⟨hsource, rfl⟩
    exact ⟨hsource.1, (hchecked next (hsource.2 ▸ hback.validators)).1 ⟨hvalid, hvalidIndexed⟩⟩

/-- What the presets promise of the slots that a block may include: they are past, and their roots are still kept. -/
structure InclusionWindow (P : Preset) : Prop where
  delay_pos : 0 < P.MIN_ATTESTATION_INCLUSION_DELAY
  historicalRoot_ge : 2 * P.SLOTS_PER_EPOCH ≤ P.SLOTS_PER_HISTORICAL_ROOT

theorem minimal_inclusionWindow : InclusionWindow minimal := ⟨by decide, by decide⟩

theorem getBlockRootAtSlot_returns {slot : Nat} (hpast : slot < st.slot) (hkept : st.slot ≤ slot + P.SLOTS_PER_HISTORICAL_ROOT) :
    Returns (getBlockRootAtSlot st slot) fun _ => True := by
  refine (Returns.check (decide_eq_true hpast)).bind fun _ _ => ?_
  exact (Returns.check (decide_eq_true hkept)).bind fun _ _ => .pure trivial

theorem getAttestationParticipationStatus_returns (hwindow : InclusionWindow P) (hvouched : Vouched s attestation)
    (hincludable : Includable s attestation) (hback : SameBackground s t) (inclusionDelay : Nat) :
    Returns (getAttestationParticipationStatus t attestation.data inclusionDelay) fun _ => True := by
  have hsource := hincludable.source_eq hback
  obtain ⟨htarget, hearliest, hlatest, -⟩ := hvouched
  obtain ⟨hdelay, hroots⟩ := hwindow
  refine (Returns.check (decide_eq_true hsource)).bind fun _ _ => ?_
  refine Returns.bind (Q := fun _ => True) ?_ fun targetRoot _ => ?_
  · -- the epoch starts at most one epoch before the slot
    have hstart := Nat.div_add_mod attestation.data.slot P.SLOTS_PER_EPOCH
    have hmod := Nat.mod_lt attestation.data.slot P.slotsPerEpoch_pos
    rw [Nat.mul_comm] at hstart
    refine getBlockRootAtSlot_returns ?_ ?_
    · rw [htarget, hback.slot]
      unfold computeStartSlotAtEpoch computeEpochAtSlot
      omega
    · rw [htarget, hback.slot]
      unfold computeStartSlotAtEpoch computeEpochAtSlot
      omega
  · refine Returns.bind (Q := fun _ => True) ?_ fun _ _ => .pure trivial
    by_cases hmatching : attestation.data.target.root = targetRoot
    · rw [if_pos (decide_eq_true hmatching)]
      refine (getBlockRootAtSlot_returns ?_ ?_).bind fun _ _ => .pure trivial
      · rw [hback.slot]
        omega
      · rw [hback.slot]
        omega
    · rw [if_neg (by simp [hmatching])]
      exact .pure trivial

theorem addParticipation_returns {flags : ParticipationStatus} {participation : List ParticipationStatus}
    {attestingIndices : List Nat} (hparticipation : ∀ i ∈ attestingIndices, i < participation.length)
    (hvalidators : ∀ i ∈ attestingIndices, i < validators.length) :
    Returns (addParticipation validators flags participation attestingIndices) fun work => work.1.length = participation.length := by
  refine Returns.foldlM (I := fun acc : List ParticipationStatus × Nat => acc.1.length = participation.length) attestingIndices
    (fun index hindex acc hacc => ?_) rfl
  have hlt : index < acc.1.length := hacc ▸ hparticipation index hindex
  refine (Returns.of_eq (getAt_eq_ok.2 (List.getElem?_eq_getElem hlt))).bind fun status _ => ?_
  have hset : (acc.1.set index (status.or flags)).length = participation.length := (List.length_set).trans hacc
  by_cases hweight : 0 < newWeight status flags
  · rw [if_pos hweight]
    refine (Returns.of_eq (getAt_eq_ok.2 (List.getElem?_eq_getElem (hvalidators index hindex)))).bind fun validator _ => ?_
    exact .pure hset
  · rw [if_neg hweight]
    exact .pure hset

section

variable (hwindow : InclusionWindow P) (hhead : HeadState env cfg s) (hvouched : Vouched s attestation)
include hwindow hhead hvouched

theorem processAttestationAltair_guarded : Guarded (AfterAttestations s validators) (fun _ op => Includable s op) (fun _ _ => ())
      (fun t op => processAttestationAltair env t op false) attestation := by
  refine Guarded.of_returns (fun _ t h hincludable => ?_) fun _ t t' h hattested => ?_
  · obtain ⟨hback, hvalidators⟩ := h
    obtain ⟨indexed, hget, hchecked⟩ := hvouched.checks hhead hback
    obtain ⟨hvalid, hvalidIndexed⟩ := (hchecked t hback.validators).2 hincludable.bits
    have hstatus := getAttestationParticipationStatus_returns hwindow hvouched hincludable hback
    obtain ⟨committee, hcommittee, -⟩ := hvouched.attesters
    have hattesters : ∀ i ∈ zipIndexesCommitteeBits committee attestation.aggregationBits, i < s.validators.length :=
      fun i hi => (hhead.duties.committee hcommittee).2.1 i ((zipIndexesCommitteeBits_sublist _ _).subset hi)
    unfold processAttestationAltair
    dsimp only
    refine (Returns.of_eq hvalid).bind fun _ _ => ?_
    have hctx : t.epochCtx = s.epochCtx := hback.epochCtx
    refine (Returns.of_eq hget).bind fun indexed heq => ?_
    subst heq
    refine (Returns.of_eq hvalidIndexed).bind fun valid htrue => ?_
    refine (Returns.check htrue).bind fun _ _ => ?_
    refine (hstatus _).bind fun flags _ => ?_
    refine (Returns.of_eq (hctx ▸ getAttestingIndices_eq hcommittee)).bind fun indices heq => ?_
    subst heq
    refine Returns.bind (Q := fun work => work.1.length = (if decide (attestation.data.target.epoch =
      t.epochCtx.currentShuffling.epoch) then t.currentEpochParticipation else t.previousEpochParticipation).length)
      (addParticipation_returns (fun i hi => ?_) fun i hi => ?_) fun work hwork => ?_
    · split
      · rw [hback.currentEpochParticipation, hhead.aligned.currentEpochParticipation]
        exact hattesters i hi
      · rw [hback.previousEpochParticipation, hhead.aligned.previousEpochParticipation]
        exact hattesters i hi
    · rw [hback.validators]
      exact hattesters i hi
    · obtain ⟨participation, totalBalancesWithWeight⟩ := work
      -- one of the two lists is replaced by one of its length
      have hnext : AfterAttestations s validators () (if decide (attestation.data.target.epoch = t.epochCtx.currentShuffling.epoch)
          then { t with currentEpochParticipation := participation } else { t with previousEpochParticipation := participation }) := by
        split
        · rename_i hcurrent
          rw [if_pos hcurrent] at hwork
          refine ⟨hback.trans ?_, hvalidators⟩
          exact ⟨rfl, rfl, rfl, rfl, rfl, rfl, rfl, rfl, rfl, rfl, hwork⟩
        · rename_i hcurrent
          rw [if_neg hcurrent] at hwork
          refine ⟨hback.trans ?_, hvalidators⟩
          exact ⟨rfl, rfl, rfl, rfl, rfl, rfl, rfl, rfl, rfl, hwork, rfl⟩
      generalize (if decide (attestation.data.target.epoch = t.epochCtx.currentShuffling.epoch)
        then { t with currentEpochParticipation := participation } else { t with previousEpochParticipation := participation } :
          CachedBeaconState P) = next at hnext ⊢
      obtain ⟨proposer, hproposer, hproposer_lt⟩ := hhead.hasProposer.of_background hnext.1
      rw [hctx, ← hnext.1.epochCtx]
      refine (Returns.of_eq hproposer).bind fun _ heq => ?_
      subst heq
      refine (Returns.of_eq (show asIndex (proposer : Int) = .ok proposer from rfl)).bind fun _ heq => ?_
      subst heq
      exact (increaseBalance_returns _ hproposer_lt).mono fun t' ⟨hback', hvalidators'⟩ =>
        ⟨hnext.1.trans hback', hvalidators'.trans hnext.2⟩
  · obtain ⟨hback, -⟩ := h
    obtain ⟨indexed, hget, hchecked⟩ := hvouched.checks hhead hback
    unfold processAttestationAltair at hattested
    simp only [bind_eq_ok, check_eq_ok] at hattested
    obtain ⟨_, hvalid, indexed', heq, valid, hvalidIndexed, _, rfl, flags, hflags, -⟩ := hattested
    rw [hget, Except.ok.injEq] at heq
    subst heq
    unfold getAttestationParticipationStatus at hflags
    simp only [bind_eq_ok, check_eq_ok, decide_eq_true_eq] at hflags
    obtain ⟨_, hsource, -⟩ := hflags
    rw [hback.epochCtx, hback.currentJustifiedCheckpoint, hback.previousJustifiedCheckpoint] at hsource
    exact ⟨hsource, (hchecked t hback.validators).1 ⟨hvalid, hvalidIndexed⟩⟩

theorem processAttestation_guarded : Guarded (AfterAttestations s validators) (fun _ op => Includable s op) (fun _ _ => ())
      (fun t op => processAttestation env fork t op false) attestation := by
  cases fork with
  | phase0 => exact processAttestationPhase0_guarded hhead hvouched
  | altair => exact processAttestationAltair_guarded hwindow hhead hvouched

end

end Lodestar.StateTransition
