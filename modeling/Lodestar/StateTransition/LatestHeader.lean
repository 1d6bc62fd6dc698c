import Lodestar.StateTransition.EpochCache
import Lodestar.StateTransition.Frames
/-!
# LatestHeader — the slot a transition ends at, and the header of its latest block

`processSlots` ends at the slot it is asked for and a block leaves the slot as it is, so a returning `stateTransition` started
at or before the slot of its block and ends there.

Only `processBlockHeader` writes the latest header, with the slot of the block; the slots after it fill in its state root.  The
root of a state that a block leaves is the state root of the block, which the transition compares.
-/
namespace Lodestar.StateTransition

open Lib

variable {P : Preset} {env : Env P} {cfg : ChainConfig} {fork : ForkName} {s s' : CachedBeaconState P}
  {verify : Bool}

/-! ## Slots -/

theorem advanceSlot_slot (h : advanceSlot env cfg s = .ok s') : s'.slot = s.slot + 1 := by
  rcases advanceSlot_split h with ⟨-, rfl⟩ | ⟨t, ctx, -, -, -, -, h⟩
  · rfl
  · split at h
    · exact (upgradeState_keeps h).1
    · subst h
      rfl

theorem advanceSlots_slot : ∀ (slots : Nat) (s : CachedBeaconState P), advanceSlots env cfg slots s = .ok s' →
    s'.slot = s.slot + slots
  | 0, s, h => by
    unfold advanceSlots at h
    rw [pure_eq_ok] at h
    exact congrArg (·.slot) h.symm
  | slots + 1, s, h => by
    unfold advanceSlots at h
    rw [bind_eq_ok] at h
    obtain ⟨s₁, h₁, h⟩ := h
    rw [advanceSlots_slot slots s₁ h, advanceSlot_slot h₁]
    omega

variable {slot a b : Nat}

theorem processSlots_slot (h : processSlots env cfg s slot = .ok s') : s.slot ≤ slot ∧ s'.slot = slot := by
  unfold processSlots at h
  simp only [bind_eq_ok, check_eq_ok, decide_eq_true_eq] at h
  obtain ⟨_, hle, h⟩ := h
  refine ⟨hle, ?_⟩
  rw [advanceSlots_slot _ s h]
  omega

variable {signedBlock : SignedBeaconBlock} {options : TransitionOptions}

theorem stateTransition_slot (h : stateTransition env cfg s signedBlock options = .ok s') :
    s.slot ≤ signedBlock.message.slot ∧ s'.slot = signedBlock.message.slot := by
  unfold stateTransition at h
  simp only [bind_eq_ok, pure_eq_ok] at h
  obtain ⟨s₁, h₁, _, -, _, -, s₂, h₂, _, -, rfl⟩ := h
  obtain ⟨hle, hslot⟩ := processSlots_slot h₁
  obtain ⟨hkeeps, -⟩ := processBlockByFork_keeps h₂ rfl
  exact ⟨hle, hkeeps.slot.trans hslot⟩

/-! ## One after the other -/

theorem advanceSlots_add : ∀ (n k : Nat) (s : CachedBeaconState P),
    advanceSlots env cfg (n + k) s = (advanceSlots env cfg n s >>= advanceSlots env cfg k)
  | 0, k, s => by
    rw [Nat.zero_add]
    rfl
  | n + 1, k, s => by
    rw [Nat.add_right_comm]
    unfold advanceSlots
    cases advanceSlot env cfg s with
    | error e => rfl
    | ok s₁ => exact advanceSlots_add n k s₁

variable {s s' s₁ s₂ s₃ : CachedBeaconState P}

theorem processSlots_trans (h : processSlots env cfg s a = .ok s') (hle : a ≤ b) :
    processSlots env cfg s' b = processSlots env cfg s b := by
  obtain ⟨hstart, hslot⟩ := processSlots_slot h
  obtain ⟨_, -, hrun⟩ := bind_eq_ok.1 h
  have hsum : b - s.slot = (a - s.slot) + (b - a) := by omega
  unfold processSlots check
  rw [hslot, decide_eq_true hle, decide_eq_true (Nat.le_trans hstart hle), hsum, advanceSlots_add, hrun]
  rfl

theorem processSlots_before (h : processSlots env cfg s b = .ok s') (hstart : s.slot ≤ a) (hle : a ≤ b)
    : ∃ t, processSlots env cfg s a = .ok t := by
  obtain ⟨_, -, hrun⟩ := bind_eq_ok.1 h
  have hsum : b - s.slot = (a - s.slot) + (b - a) := by omega
  rw [hsum, advanceSlots_add] at hrun
  obtain ⟨t, ht, -⟩ := bind_eq_ok.1 hrun
  refine ⟨t, ?_⟩
  unfold processSlots check
  rw [decide_eq_true hstart]
  exact ht

theorem processSlots_self (s : CachedBeaconState P) : processSlots env cfg s s.slot = .ok s := by
  unfold processSlots check
  rw [decide_eq_true (Nat.le_refl _), Nat.sub_self]
  rfl

theorem stateTransition_trans (h : processSlots env cfg s a = .ok s') (hle : a ≤ signedBlock.message.slot) :
    stateTransition env cfg s' signedBlock options = stateTransition env cfg s signedBlock options := by
  dsimp only [stateTransition]
  rw [processSlots_trans h hle]

/-! ## The latest header -/

structure Aligned (st : BeaconState P) : Prop where
  balances : st.balances.length = st.validators.length
  previousEpochParticipation : st.previousEpochParticipation.length = st.validators.length
  currentEpochParticipation : st.currentEpochParticipation.length = st.validators.length

/-- What every step but those of the header keeps: the header and the roots of the blocks are not written, and the lists of
validators stay in line. -/
structure KeepsShape (s s' : CachedBeaconState P) : Prop where
  latestBlockHeader : s'.latestBlockHeader = s.latestBlockHeader
  blockRoots : s'.blockRoots = s.blockRoots
  aligned : Aligned s.toBeaconState → Aligned s'.toBeaconState

theorem KeepsShape.refl (s : CachedBeaconState P) : KeepsShape s s := ⟨rfl, rfl, id⟩

theorem KeepsShape.trans (h : KeepsShape s₁ s₂) (h' : KeepsShape s₂ s₃) : KeepsShape s₁ s₃ :=
  ⟨h'.latestBlockHeader.trans h.latestBlockHeader, h'.blockRoots.trans h.blockRoots, fun haligned => h'.aligned (h.aligned haligned)⟩

theorem KeepsShape.of_lengths (hheader : s'.latestBlockHeader = s.latestBlockHeader) (hroots : s'.blockRoots = s.blockRoots)
    (hvalidators : s'.validators.length = s.validators.length) (hbalances : s'.balances.length = s.balances.length)
    (hprevious : s'.previousEpochParticipation.length = s.previousEpochParticipation.length)
    (hcurrent : s'.currentEpochParticipation.length = s.currentEpochParticipation.length) : KeepsShape s s' :=
  ⟨hheader, hroots, fun h => ⟨by rw [hbalances, hvalidators, h.balances],
    by rw [hprevious, hvalidators, h.previousEpochParticipation], by rw [hcurrent, hvalidators, h.currentEpochParticipation]⟩⟩

theorem KeepsFrame.keepsShape (h : KeepsFrame s s') : KeepsShape s s' := by
  obtain ⟨added, hvalidators, hprevious, hcurrent⟩ := h.participation
  refine ⟨h.latestBlockHeader, h.blockRoots, fun haligned => ⟨h.balances haligned.balances, ?_, ?_⟩⟩
  · rw [hprevious, List.length_append, List.length_replicate, haligned.previousEpochParticipation, hvalidators]
  · rw [hcurrent, List.length_append, List.length_replicate, haligned.currentEpochParticipation, hvalidators]

theorem createCachedBeaconState_aligned {st : BeaconState P} {opts : EpochContextOpts}
    (h : createCachedBeaconState env cfg st opts = .ok s) (hbalances : st.balances.length = st.validators.length)
    (haltair : getForkName P cfg st.slot = .altair → Aligned st) : Aligned s.toBeaconState := by
  obtain ⟨epochCtx, -, h⟩ := bind_eq_ok.1 h
  split at h
  · rw [pure_eq_ok] at h
    subst h
    exact ⟨hbalances, List.length_replicate, List.length_replicate⟩
  · rename_i hfork
    rw [pure_eq_ok] at h
    exact h ▸ haltair hfork

/-! ## Epochs -/

theorem processEpochByFork_keepsShape (h : processEpochByFork env cfg fork s = .ok s') : KeepsShape s s' := by
  obtain ⟨process, s₁, t, -, hjustified, hkept, hrotated⟩ := processEpochByFork_frames h
  have hshape : KeepsShape s s₁ := by
    obtain ⟨_, _, _, _, rfl⟩ := processJustificationAndFinalization_ok hjustified
    exact .of_lengths rfl rfl rfl rfl rfl rfl
  have hrotation : KeepsShape t (rotateVotes fork t) := by
    cases fork with
    | phase0 => exact .of_lengths rfl rfl rfl rfl rfl rfl
    -- the new flags are those of the epoch that has ended, and none
    | altair => exact ⟨rfl, rfl, fun h => ⟨h.balances, h.currentEpochParticipation, List.length_replicate⟩⟩
  exact ((hshape.trans hkept.keepsShape).trans hrotation).trans hrotated.keepsShape

/-! ## Slots -/

theorem translateParticipation_ok {pendingAttestations : List PendingAttestation}
    (h : translateParticipation s pendingAttestations = .ok s') : ∃ participation,
      participation.length = s.previousEpochParticipation.length ∧ s' = { s with previousEpochParticipation := participation } := by
  unfold translateParticipation at h
  simp only [bind_eq_ok, pure_eq_ok] at h
  obtain ⟨participation, hloop, rfl⟩ := h
  refine ⟨participation, ?_, rfl⟩
  have hkeeps : ∀ {Operation : Type} (step : List ParticipationStatus → Operation → Except String (List ParticipationStatus))
      (operations : List Operation), (∀ l op l', step l op = .ok l' → l'.length = l.length) →
      ∀ l l', operations.foldlM step l = .ok l' → l'.length = l.length :=
    fun step operations hstep => foldlM_keeps (R := fun l l' : List ParticipationStatus => l'.length = l.length) (fun _ => rfl)
      (fun _ _ _ h h' => h'.trans h) operations fun op _ l l' => hstep l op l'
  refine hkeeps _ _ (fun l attestation l' hstep => ?_) _ _ hloop
  simp only [bind_eq_ok] at hstep
  obtain ⟨flags, -, indices, -, hstep⟩ := hstep
  refine hkeeps _ _ (fun l index l' hmodified => ?_) _ _ hstep
  obtain ⟨-, rfl⟩ := modifyAt_eq_ok.1 hmodified
  exact List.length_modify _ _ _

theorem upgradeState_keepsShape (h : upgradeState env cfg s = .ok s') : KeepsShape s s' := by
  unfold upgradeState upgradeTreeBackedState at h
  simp only [bind_eq_ok, pure_eq_ok] at h
  obtain ⟨_, ⟨committee, -, rfl⟩, postState, hpost, h⟩ := h
  obtain ⟨participation, hlength, rfl⟩ := translateParticipation_ok h
  obtain ⟨-, _, _, _, hst⟩ := createCachedBeaconState_ok hpost
  refine ⟨congrArg (·.latestBlockHeader) hst, congrArg (·.blockRoots) hst, fun h => ?_⟩
  have haligned := createCachedBeaconState_aligned hpost h.balances
    fun _ => ⟨h.balances, List.length_replicate, List.length_replicate⟩
  exact ⟨haligned.balances, hlength.trans haligned.previousEpochParticipation, haligned.currentEpochParticipation⟩

section

variable (h : advanceSlot env cfg s = .ok s')
include h

theorem advanceSlot_keepsShape : KeepsShape (processSlot env cfg s) s' := by
  rcases advanceSlot_split h with ⟨-, rfl⟩ | ⟨t, ctx, -, hepoch, -, -, h⟩
  · exact .of_lengths rfl rfl rfl rfl rfl rfl
  · have hnext : KeepsShape t { t with slot := s.slot + 1, epochCtx := ctx } := .of_lengths rfl rfl rfl rfl rfl rfl
    have hcrossed := (processEpochByFork_keepsShape hepoch).trans hnext
    split at h
    · exact hcrossed.trans (upgradeState_keepsShape h)
    · exact h ▸ hcrossed

theorem advanceSlot_aligned (haligned : Aligned s.toBeaconState) : Aligned s'.toBeaconState :=
  (advanceSlot_keepsShape h).aligned ⟨haligned.balances, haligned.previousEpochParticipation, haligned.currentEpochParticipation⟩

theorem advanceSlot_header : s'.latestBlockHeader.slot = s.latestBlockHeader.slot := by
  have hslot : (processSlot env cfg s).latestBlockHeader.slot = s.latestBlockHeader.slot := by
    unfold processSlot
    dsimp only
    split <;> rfl
  rw [← hslot]
  exact congrArg (·.slot) (advanceSlot_keepsShape h).latestBlockHeader

end

/-! ## Blocks -/

theorem processAttestation_keepsShape {attestation : Attestation} (h : processAttestation env fork s attestation verify = .ok s') :
    KeepsShape s s' := by
  obtain ⟨_, _, _, _, _, hprevious, hcurrent, hbalances, rfl⟩ := processAttestation_writes h
  exact .of_lengths rfl rfl rfl hbalances hprevious hcurrent

/-- What the header of a block is checked against, and what it leaves. -/
structure AppliesHeader (env : Env P) (cfg : ChainConfig) (block : BeaconBlock) (s s' : CachedBeaconState P) : Prop where
  slot : block.slot = s.slot
  newer : s.latestBlockHeader.slot < block.slot
  parentRoot : block.parentRoot = env.headerRoot s.latestBlockHeader
  latestBlockHeader : s'.latestBlockHeader =
    { slot := s.slot, proposerIndex := block.proposerIndex, parentRoot := block.parentRoot, stateRoot := zeroRoot
      bodyRoot := env.bodyRoot (getForkName P cfg s.slot) block.body }
  blockRoots : s'.blockRoots = s.blockRoots

variable {block : BeaconBlock}

section

variable (h : processBlockByFork env cfg fork s block verify = .ok s')
include h

theorem processBlockByFork_keepsShape : ∃ s₁, processBlockHeader env cfg s block = .ok s₁ ∧ KeepsShape s₁ s' := by
  obtain ⟨s₁, s₂, t, t', cache, cache', h₁, h₂, hslashings, hattestations, hwrites⟩ := processBlockByFork_writes h
  have hprepared := (processRandao_frame h₂).trans (processEth1Data_frame s₂ block.body)
  have hslashed := hprepared.trans (applySlashings_writes hslashings).frame
  have hattested : KeepsShape t t' := foldlM_keeps KeepsShape.refl (fun _ _ _ => KeepsShape.trans) _
    (fun op _ s s' hop => processAttestation_keepsShape hop) _ _ hattestations
  exact ⟨s₁, h₁, (hslashed.keepsShape.trans hattested).trans hwrites.frame.keepsShape⟩

theorem processBlockByFork_applies : AppliesHeader env cfg block s s' := by
  obtain ⟨s₁, h₁, hheader, hroots, -⟩ := processBlockByFork_keepsShape h
  unfold processBlockHeader at h₁
  simp only [bind_eq_ok, pure_eq_ok, check_eq_ok, decide_eq_true_eq] at h₁
  obtain ⟨_, hslot, _, hnewer, _, -, _, -, _, hparent, proposer, -, _, -, rfl⟩ := h₁
  exact ⟨hslot, hnewer, hparent, hheader, hroots⟩

theorem processBlockByFork_aligned (haligned : Aligned s.toBeaconState) : Aligned s'.toBeaconState := by
  obtain ⟨s₁, h₁, hshape⟩ := processBlockByFork_keepsShape h
  unfold processBlockHeader at h₁
  simp only [bind_eq_ok, pure_eq_ok] at h₁
  obtain ⟨_, -, _, -, _, -, _, -, _, -, proposer, -, _, -, rfl⟩ := h₁
  exact hshape.aligned ⟨haligned.balances, haligned.previousEpochParticipation, haligned.currentEpochParticipation⟩

theorem processBlockByFork_header : s'.latestBlockHeader.slot = block.slot := by
  have happlies := processBlockByFork_applies h
  rw [happlies.latestBlockHeader, happlies.slot]

end

def hashTreeRoot (env : Env P) (cfg : ChainConfig) (state : CachedBeaconState P) : Root :=
  env.stateRoot (getForkName P cfg state.slot) state.toBeaconState

end Lodestar.StateTransition
