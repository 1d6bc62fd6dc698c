import Mathlib.Data.List.GetD
import Lodestar.StateTransition.Duties
/-!
# Committees — a shuffling is a permutation, cut into committees

Every pair that a round swaps lies inside the list, so the rounds permute it; the committees of an epoch are stretches of the
permuted list.  So a committee names validators of the state, each once: `computeEpochShuffling_cut`.  A proposer that the
sampling has found is a validator as well.
-/
namespace Lodestar.StateTransition

open Lib

variable {P : Preset} {env : Env P} {st : BeaconState P}

/-! ## Rounds -/

theorem swapPair_perm {input : List Nat} {i j : Nat} (hi : i < input.length) (hj : j < input.length) :
    (swapPair input i j).Perm input := by
  unfold swapPair
  rw [List.getD_eq_getElem _ _ hi, List.getD_eq_getElem _ _ hj]
  exact List.set_set_perm hj hi

theorem sar1_le (value : Nat) : (sar1 value).toNat ≤ value / 2 := by
  have hsigned : (BitVec.ofNat 32 value).toInt ≤ (BitVec.ofNat 32 value).toNat := by
    rw [BitVec.toInt_eq_toNat_cond]
    split <;> omega
  have hwraps : (BitVec.ofNat 32 value).toNat ≤ value := by
    exact Nat.mod_le _ _
  unfold sar1
  omega

theorem shuffleStep_perm (seed : Root) (r : Nat) {i j : Nat} {st : ShuffleState} (hi : i < st.input.length)
    (hj : j < st.input.length) : (shuffleStep env seed r i j st).input.Perm st.input := by
  have hinput : (shuffleStep env seed r i j st).input = swapPair st.input i j ∨ (shuffleStep env seed r i j st).input = st.input :=
    ite_eq_or_eq _ _ _
  rcases hinput with h | h
  · rw [h]
    exact swapPair_perm hi hj
  · rw [h]

theorem shuffleSteps_perm (seed : Root) (r : Nat) (other : Nat → Nat) (places : List Nat) (st : ShuffleState)
    (h : ∀ i ∈ places, i < st.input.length ∧ other i < st.input.length) :
    (places.foldl (fun st i => shuffleStep env seed r i (other i) st) st).input.Perm st.input :=
  List.foldlRecOn (motive := fun t : ShuffleState => t.input.Perm st.input) places _ (.refl _) fun _ hperm i hi =>
    (shuffleStep_perm seed r (hperm.length_eq ▸ (h i hi).1) (hperm.length_eq ▸ (h i hi).2)).trans hperm

theorem shuffleRound_perm (seed : Root) (input : List Nat) (r : Nat) (hpos : 0 < input.length) :
    (shuffleRound env seed input r).Perm input := by
  unfold shuffleRound
  dsimp only
  generalize hpivot : bytesToBigInt ((env.hash (seed.toList ++ intToBytes r 1)).toList.take 8) % input.length = pivot
  have hlt : pivot < input.length := hpivot ▸ Nat.mod_lt _ hpos
  have hfirst := @shuffleSteps_perm P env seed r (pivot - ·) (List.range (sar1 (pivot + 1)).toNat)
    { input := input, source := shuffleSource env seed r (pivot / 256),
      byteV := byteAt (shuffleSource env seed r (pivot / 256)) pivot } fun i hi => by
        have hi := List.mem_range.1 hi
        have hle := sar1_le (pivot + 1)
        dsimp only
        omega
  refine (shuffleSteps_perm seed r _ _ _ fun i hi => ?_).trans hfirst
  rw [hfirst.length_eq]
  have hi := List.mem_range'_1.1 hi
  have hle := sar1_le (pivot + input.length + 1)
  dsimp only
  omega

theorem shuffleRounds_perm (seed : Root) (rounds input : List Nat) (hpos : 0 < input.length) :
    (rounds.foldl (shuffleRound env seed) input).Perm input :=
  List.foldlRecOn (motive := fun l : List Nat => l.Perm input) rounds _ (.refl input) fun _ hperm r _ =>
    (shuffleRound_perm seed _ r (hperm.length_eq ▸ hpos)).trans hperm

variable {input output : List Nat} {seed : Root}

theorem innerShuffleList_perm {dir : Bool} (h : innerShuffleList env input seed dir = .ok output) :
    output.Perm input := by
  unfold innerShuffleList at h
  split at h
  · rw [pure_eq_ok] at h
    exact h ▸ List.Perm.refl _
  · rename_i hlong
    split at h
    · rw [pure_eq_ok] at h
      exact h ▸ List.Perm.refl _
    · obtain ⟨_, -, h⟩ := bind_eq_ok.1 h
      rw [pure_eq_ok] at h
      subst h
      exact shuffleRounds_perm seed _ _ (by omega)

theorem unshuffleList_perm (h : unshuffleList env input seed = .ok output) :
    output.Perm input := innerShuffleList_perm h

/-! ## Committees -/

/-- A slot has as many committees as the epoch has for every slot, and each names validators of the state, each once. -/
structure Cut (validators : List Validator) (shuffling : EpochShuffling) : Prop where
  slots : ∀ slotCommittees ∈ shuffling.committees, slotCommittees.length = shuffling.committeesPerSlot
  committees : ∀ slotCommittees ∈ shuffling.committees, ∀ committee ∈ slotCommittees,
    committee.Nodup ∧ ∀ i ∈ committee, i < validators.length

theorem computeEpochShuffling_cut {epoch : Nat} {shuffling : EpochShuffling}
    (h : computeEpochShuffling env st (indicesBounded st.validators) epoch = .ok shuffling) : Cut st.validators shuffling := by
  unfold computeEpochShuffling at h
  simp only [bind_eq_ok, pure_eq_ok] at h
  obtain ⟨shuffled, hshuffled, committees, hcommittees, rfl⟩ := h
  rw [activeIndices_eq] at hshuffled
  have hperm := unshuffleList_perm hshuffled
  have hnodup : shuffled.Nodup := hperm.nodup_iff.2 (indicesWhere_nodup _ _)
  have hmem : ∀ i ∈ shuffled, i < st.validators.length := by
    intro i hi
    obtain ⟨v, hv, -⟩ := mem_indicesWhere.1 (hperm.mem_iff.1 hi)
    exact (List.getElem?_eq_some_iff.1 hv).1
  constructor
  · intro slotCommittees hslot
    obtain ⟨slot, -, hcut⟩ := (mem_iff_of_mapM_eq_ok hcommittees).1 hslot
    rw [← (mapM_eq_ok_iff.1 hcut).length_eq, List.length_range]
  · intro slotCommittees hslot committee hcommittee
    obtain ⟨slot, -, hcut⟩ := (mem_iff_of_mapM_eq_ok hcommittees).1 hslot
    obtain ⟨index, -, hslice⟩ := (mem_iff_of_mapM_eq_ok hcut).1 hcommittee
    obtain ⟨_, -, hslice⟩ := bind_eq_ok.1 hslice
    rw [pure_eq_ok] at hslice
    have hsub : committee.Sublist shuffled := hslice ▸ (List.drop_sublist _ _).trans (List.take_sublist _ _)
    exact ⟨hnodup.sublist hsub, fun i hi => hmem i (hsub.subset hi)⟩

/-! ## Proposers -/

theorem computeProposerIndexFrom_lt {indices : List Nat} : ∀ (remaining i : Nat) {index : Nat},
    computeProposerIndexFrom env st indices seed remaining i = .ok (index : Int) → index < st.validators.length
  | 0, i, index, h => by
    unfold computeProposerIndexFrom at h
    rw [pure_eq_ok] at h
    omega
  | remaining + 1, i, index, h => by
    obtain ⟨candidate, hcandidate, h⟩ := bind_eq_ok.1 h
    by_cases hpasses : candidate.2 = true
    · rw [if_pos hpasses, pure_eq_ok] at h
      unfold sampleCandidate at hcandidate
      simp only [bind_eq_ok, pure_eq_ok, getAt_eq_ok] at hcandidate
      obtain ⟨shuffledIndex, -, candidateIndex, -, validator, hvalidator, rfl⟩ := hcandidate
      obtain rfl : candidateIndex = index := Int.ofNat.inj h
      exact (List.getElem?_eq_some_iff.1 hvalidator).1
    · rw [if_neg hpasses] at h
      exact computeProposerIndexFrom_lt remaining (i + 1) h

theorem HasDuties.proposer_lt {cfg : ChainConfig} {ctx : EpochContext} (h : HasDuties env cfg st ctx) {slot index : Nat}
    (hproposer : ctx.getBeaconProposer P slot = .ok (index : Int)) : index < st.validators.length := by
  unfold EpochContext.getBeaconProposer at hproposer
  simp only [bind_eq_ok, getAt_eq_ok] at hproposer
  obtain ⟨_, -, hentry⟩ := hproposer
  have hproposers := h.proposers
  by_cases hsome : 0 < st.validators.length
  · rw [if_pos hsome] at hproposers
    obtain ⟨slot', -, hsampled⟩ := (mem_iff_of_mapM_eq_ok hproposers).1 (List.mem_of_getElem? hentry)
    obtain ⟨_, -, hsampled⟩ := bind_eq_ok.1 hsampled
    exact computeProposerIndexFrom_lt _ _ hsampled
  · rw [if_neg hsome, pure_eq_ok] at hproposers
    rw [← hproposers] at hentry
    simp at hentry

end Lodestar.StateTransition
