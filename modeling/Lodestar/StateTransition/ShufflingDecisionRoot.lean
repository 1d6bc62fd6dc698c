import Lodestar.StateTransition.Histories
/-!
# ShufflingDecisionRoot — the block root that decides a shuffling

The attester shuffling of an epoch is decided at the last slot two epochs before it, the proposers of an epoch at the last
slot before it, and genesis decides the first ones.  Two states with one decision root come from one state behind that slot
(`Path.eq_of_root`), and nothing after it changes the shuffling or the proposers: `decisionRoots_decide`.
-/
namespace Lodestar.StateTransition

open Lib

variable {P : Preset}

/-! ## The decision roots -/

section

variable (state : BeaconState P)

def proposerShufflingDecisionSlot : Nat :=
  let epoch := computeEpochAtSlot P state.slot
  let startSlot := computeStartSlotAtEpoch P epoch
  startSlot - 1

/-- Returns the block root which decided the proposer shuffling for the current epoch, none on the one-off scenario where the
genesis block decides its own shuffling. -/
def proposerShufflingDecisionRoot : Except String (Option Root) :=
  let decisionSlot := proposerShufflingDecisionSlot state
  if state.slot = decisionSlot then pure none
  else (getBlockRootAtSlot state decisionSlot).map some

def attesterShufflingDecisionEpoch (requestedEpoch : Nat) : Except String Nat :=
  let currentEpoch := getCurrentEpoch state
  -- Next
  if requestedEpoch = currentEpoch + 1 then pure (getCurrentEpoch state)
  -- Current
  else if requestedEpoch = currentEpoch then pure (getPreviousEpoch state)
  -- Previous
  else if (requestedEpoch : Int) = currentEpoch - 1 then pure (getPreviousEpoch state - 1)
  else if requestedEpoch < currentEpoch then throw s!"EpochTooLow: current {currentEpoch} requested {requestedEpoch}"
  else throw s!"EpochTooHigh: current {currentEpoch} requested {requestedEpoch}"

def attesterShufflingDecisionSlot (requestedEpoch : Nat) : Except String Nat := do
  let epoch ← attesterShufflingDecisionEpoch state requestedEpoch
  let slot := computeStartSlotAtEpoch P epoch
  pure (slot - 1)

def attesterShufflingDecisionRoot (requestedEpoch : Nat) : Except String (Option Root) := do
  let decisionSlot ← attesterShufflingDecisionSlot state requestedEpoch
  if state.slot = decisionSlot then pure none
  else (getBlockRootAtSlot state decisionSlot).map some

end

variable {state : BeaconState P} {requestedEpoch epoch e k c : Nat}

theorem attesterShufflingDecisionEpoch_eq_ok (h : attesterShufflingDecisionEpoch state requestedEpoch = .ok epoch) :
    requestedEpoch ≤ getCurrentEpoch state + 1 ∧ getCurrentEpoch state ≤ requestedEpoch + 1 ∧ epoch = requestedEpoch - 1 := by
  have hprevious : getPreviousEpoch state = getCurrentEpoch state - 1 := by
    unfold getPreviousEpoch GENESIS_EPOCH
    dsimp only
    split
    · rename_i hgenesis
      rw [hgenesis]
    · rfl
  unfold attesterShufflingDecisionEpoch at h
  dsimp only at h
  split at h
  · rw [pure_eq_ok] at h
    omega
  · split at h
    · rw [pure_eq_ok] at h
      omega
    · split at h
      · rw [pure_eq_ok] at h
        omega
      · split at h <;> cases h

variable {root : Root}

theorem attesterShufflingDecisionRoot_eq_ok (h : attesterShufflingDecisionRoot state requestedEpoch = .ok (some root)) :
    requestedEpoch ≤ getCurrentEpoch state + 1 ∧ getCurrentEpoch state ≤ requestedEpoch + 1 ∧
      getBlockRootAtSlot state (computeStartSlotAtEpoch P (requestedEpoch - 1) - 1) = .ok root := by
  unfold attesterShufflingDecisionRoot attesterShufflingDecisionSlot at h
  simp only [bind_eq_ok, pure_eq_ok] at h
  obtain ⟨_, ⟨epoch, hepoch, rfl⟩, h⟩ := h
  obtain ⟨hnext, hprevious, rfl⟩ := attesterShufflingDecisionEpoch_eq_ok hepoch
  refine ⟨hnext, hprevious, ?_⟩
  split at h
  · cases h
  · obtain ⟨root', hroot, hsome⟩ := map_eq_ok.1 h
    cases hsome
    exact hroot

theorem proposerShufflingDecisionRoot_eq_ok (h : proposerShufflingDecisionRoot state = .ok (some root)) :
    getBlockRootAtSlot state (computeStartSlotAtEpoch P (getCurrentEpoch state) - 1) = .ok root := by
  unfold proposerShufflingDecisionRoot at h
  dsimp only at h
  split at h
  · cases h
  · obtain ⟨root', hroot, hsome⟩ := map_eq_ok.1 h
    cases hsome
    exact hroot

/-! ## What a turn changes -/

variable {env : Env P} {cfg : ChainConfig} {s₀ s s' r : CachedBeaconState P}

/-- A slot inside an epoch changes nothing the duties are read from. -/
structure WithinEpoch (s s' : CachedBeaconState P) : Prop where
  epoch : getCurrentEpoch s'.toBeaconState = getCurrentEpoch s.toBeaconState
  epochCtx : s'.epochCtx = s.epochCtx
  randaoMixes : s'.randaoMixes = s.randaoMixes
  validators : s'.validators = s.validators

/-- The first slot of an epoch comes after an epoch transition. -/
structure CrossesEpoch (s s' : CachedBeaconState P) : Prop where
  epoch : getCurrentEpoch s'.toBeaconState = getCurrentEpoch s.toBeaconState + 1
  mixes : SameMixesBut (getCurrentEpoch s.toBeaconState + 1) s.toBeaconState s'.toBeaconState
  validators : Evolves (Aged (getCurrentEpoch s.toBeaconState)) (fun _ => False) s.validators s'.validators

theorem advanceSlot_cases (h : advanceSlot env cfg s = .ok s') (hfresh : Fresh env cfg s) :
    WithinEpoch s s' ∨ CrossesEpoch s s' := by
  have hslot := advanceSlot_slot h
  rcases advanceSlot_split h with ⟨hepoch, rfl⟩ | ⟨t, ctx, hepoch, htransition, -, -, hnext⟩
  · exact .inl ⟨hepoch, rfl, rfl, rfl⟩
  · right
    have hlater : getCurrentEpoch s'.toBeaconState = getCurrentEpoch s.toBeaconState + 1 :=
      (congrArg (computeEpochAtSlot P) hslot).trans hepoch
    obtain ⟨-, -, hmixes, hvalidators⟩ := processEpoch_keeps htransition hfresh.currentEpoch
    split at hnext
    · obtain ⟨-, hval, hmix⟩ := upgradeState_keeps hnext
      refine ⟨hlater, fun e he => (getRandaoMix_congr hmix e).trans (hmixes e he), ?_⟩
      rw [hval]
      exact hvalidators
    · subst hnext
      exact ⟨hlater, hmixes, hvalidators⟩

/-! ## What later turns leave alone -/

namespace Path

variable {turns : List Turn}

theorem epoch_le (h : Path env cfg s₀ turns s) : getCurrentEpoch s₀.toBeaconState ≤ getCurrentEpoch s.toBeaconState :=
  Nat.div_le_div_right h.slot_le

section

variable (h : Path env cfg s₀ turns s) (hfresh : Fresh env cfg s₀)
include h hfresh

theorem computeEpochShuffling_eq {e : Nat} (hfrom : e ≤ getCurrentEpoch s₀.toBeaconState + 1)
    (hto : getCurrentEpoch s.toBeaconState ≤ e + 1) : computeEpochShuffling env s.toBeaconState (indicesBounded s.validators) e =
      computeEpochShuffling env s₀.toBeaconState (indicesBounded s₀.validators) e := by
  induction h with
  | refl => rfl
  | @slot turns s s' hpath hslot ih =>
    have hle := hpath.epoch_le
    rcases advanceSlot_cases hslot (hpath.fresh hfresh) with hwithin | hcrosses
    · rw [hwithin.epoch] at hto
      rw [← ih hto]
      have hactive : getActiveValidatorIndices s'.toBeaconState e = getActiveValidatorIndices s.toBeaconState e := by
        unfold getActiveValidatorIndices
        rw [hwithin.validators]
      refine computeEpochShuffling_congr ?_ hactive
      unfold getSeed
      rw [getRandaoMix_congr hwithin.randaoMixes]
    · rw [hcrosses.epoch] at hto
      rw [← ih (by omega)]
      exact computeEpochShuffling_later hcrosses.mixes hcrosses.validators (fun _ h => h.elim) (by omega) (by omega) hto
  | @block turns s s' block hpath hblock ih =>
    have hle := hpath.epoch_le
    obtain ⟨hkeeps, -⟩ := processBlockByFork_keeps hblock (hpath.fresh hfresh).currentEpoch
    have hepoch : getCurrentEpoch s'.toBeaconState = getCurrentEpoch s.toBeaconState := by
      unfold getCurrentEpoch
      rw [hkeeps.slot]
    rw [hepoch] at hto
    rw [← ih hto]
    have haged : Evolves (Aged (getCurrentEpoch s.toBeaconState)) (Deposited env (getCurrentEpoch s.toBeaconState))
        s.validators s'.validators := hkeeps.validators.mono (fun _ _ h => h.toAged) fun _ h => h
    exact computeEpochShuffling_later hkeeps.mixes haged (fun _ h => h.1) (by omega) (by omega) hto

theorem sameButKeys (hepoch : getCurrentEpoch s.toBeaconState = getCurrentEpoch s₀.toBeaconState) :
    SameButKeys s₀.epochCtx s.epochCtx := by
  induction h with
  | refl => exact SameButKeys.refl _
  | @slot turns s s' hpath hslot ih =>
    have hle := hpath.epoch_le
    rcases advanceSlot_cases hslot (hpath.fresh hfresh) with hwithin | hcrosses
    · rw [hwithin.epochCtx]
      exact ih (hwithin.epoch.symm.trans hepoch)
    · have := hcrosses.epoch
      omega
  | @block turns s s' block hpath hblock ih =>
    obtain ⟨hkeeps, -⟩ := processBlockByFork_keeps hblock (hpath.fresh hfresh).currentEpoch
    have hsame : getCurrentEpoch s'.toBeaconState = getCurrentEpoch s.toBeaconState := by
      unfold getCurrentEpoch
      rw [hkeeps.slot]
    exact (ih (hsame.symm.trans hepoch)).trans hkeeps.epochCtx

theorem registry_evolves :
    Evolves (Aged (getCurrentEpoch s₀.toBeaconState)) (Dormant (getCurrentEpoch s₀.toBeaconState)) s₀.validators s.validators := by
  induction h with
  | refl => exact .refl (Aged.refl _) _
  | slot hpath hslot ih =>
    rcases advanceSlot_cases hslot (hpath.fresh hfresh) with hwithin | hcrosses
    · rwa [hwithin.validators]
    · refine ih.trans (fun _ _ _ => Aged.trans) (fun _ _ => Dormant.aged) (hcrosses.validators.mono (fun _ _ h => ?_) fun _ h => h.elim)
      exact h.mono hpath.epoch_le
  | block hpath hblock ih =>
    obtain ⟨hkeeps, -⟩ := processBlockByFork_keeps hblock (hpath.fresh hfresh).currentEpoch
    refine ih.trans (fun _ _ _ => Aged.trans) (fun _ _ => Dormant.aged) (hkeeps.validators.mono (fun _ _ h => ?_) fun _ h => ?_)
    · exact h.toAged.mono hpath.epoch_le
    · exact h.1.mono hpath.epoch_le

end

/-- **What a run keeps of a registry**, from any of its states on: the validators stay at their places with their keys, an
activation or an exit that is set stays as it is, and who is active up to the next epoch is settled. -/
theorem registry_run {st₀ : BeaconState P} (h₀ : createCachedBeaconState env cfg st₀ noOpts = .ok s₀)
    (hr : Path env cfg s₀ turns r) (h : Path env cfg r turns' s) :
    (∀ (i : Nat) v, r.validators[i]? = some v → ∃ v', s.validators[i]? = some v' ∧ v'.pubkey = v.pubkey ∧
      (v.activationEpoch ≠ FAR_FUTURE_EPOCH → v'.activationEpoch = v.activationEpoch) ∧
      (v.exitEpoch ≠ FAR_FUTURE_EPOCH → v'.exitEpoch = v.exitEpoch)) ∧
    ∀ epoch ≤ getCurrentEpoch r.toBeaconState + 1,
      getActiveValidatorIndices s.toBeaconState epoch = getActiveValidatorIndices r.toBeaconState epoch := by
  have hevolves := h.registry_evolves (hr.fresh (createCachedBeaconState_fresh h₀))
  refine ⟨fun i v hv => ?_, fun epoch hepoch => active_of_evolves hevolves (fun _ h => h) hepoch⟩
  obtain ⟨v', hv', haged⟩ := hevolves.old i v hv
  exact ⟨v', hv', haged.pubkey, fun hset => haged.activationEpoch.resolve_right fun h => hset h.1,
    fun hset => haged.exitEpoch.resolve_right fun h => hset h.1⟩

end Path

section

variable (h : Fresh env cfg s) (hnext : e ≤ getCurrentEpoch s.toBeaconState + 1)
  (hprevious : getCurrentEpoch s.toBeaconState ≤ e + 1)
include h hnext hprevious

theorem Fresh.getShufflingAtEpoch_eq :
    s.epochCtx.getShufflingAtEpoch e = computeEpochShuffling env s.toBeaconState (indicesBounded s.validators) e := by
  obtain ⟨-, hcurrent, hpreviousShuffling, hnextShuffling, -, -⟩ := h
  have hcurrentEpoch := computeEpochShuffling_epoch hcurrent
  have hnextEpoch := computeEpochShuffling_epoch hnextShuffling
  unfold EpochContext.getShufflingAtEpoch
  by_cases hgenesis : getCurrentEpoch s.toBeaconState = 0
  · -- at genesis the previous shuffling is the current one
    have hsame : previousEpochOf (getCurrentEpoch s.toBeaconState) = getCurrentEpoch s.toBeaconState := by
      rw [hgenesis]
      rfl
    rw [if_pos hsame, pure_eq_ok] at hpreviousShuffling
    rw [← hpreviousShuffling, hcurrentEpoch, hnextEpoch]
    by_cases he : e = getCurrentEpoch s.toBeaconState
    · rw [if_pos he, he]
      exact hcurrent.symm
    · have he' : e = getCurrentEpoch s.toBeaconState + 1 := by omega
      rw [if_neg he, if_neg he, if_pos he', he']
      exact hnextShuffling.symm
  · have hbefore : previousEpochOf (getCurrentEpoch s.toBeaconState) = getCurrentEpoch s.toBeaconState - 1 := if_neg hgenesis
    rw [hbefore, if_neg (by omega)] at hpreviousShuffling
    rw [computeEpochShuffling_epoch hpreviousShuffling, hcurrentEpoch, hnextEpoch]
    by_cases he : e = getCurrentEpoch s.toBeaconState - 1
    · rw [if_pos he, he]
      exact hpreviousShuffling.symm
    · rw [if_neg he]
      by_cases he' : e = getCurrentEpoch s.toBeaconState
      · rw [if_pos he', he']
        exact hcurrent.symm
      · have hnext' : e = getCurrentEpoch s.toBeaconState + 1 := by omega
        rw [if_neg he', if_pos hnext', hnext']
        exact hnextShuffling.symm

theorem Fresh.getShufflingAtEpoch_ok : ∃ shuffling, s.epochCtx.getShufflingAtEpoch e = .ok shuffling := by
  rw [h.getShufflingAtEpoch_eq hnext hprevious]
  obtain ⟨-, hcurrent, hpreviousShuffling, hnextShuffling, -, -⟩ := h
  by_cases hcur : e = getCurrentEpoch s.toBeaconState
  · exact ⟨_, hcur ▸ hcurrent⟩
  · by_cases hnxt : e = getCurrentEpoch s.toBeaconState + 1
    · exact ⟨_, hnxt ▸ hnextShuffling⟩
    · have hbefore : previousEpochOf (getCurrentEpoch s.toBeaconState) = e :=
        (if_neg (by unfold GENESIS_EPOCH; omega)).trans (by omega)
      rw [hbefore, if_neg hcur] at hpreviousShuffling
      exact ⟨_, hpreviousShuffling⟩

end

/-! ## Two runs -/

theorem createCachedBeaconState_slots {st : BeaconState P} (h : createCachedBeaconState env cfg st noOpts = .ok s) :
    s.slot = st.slot ∧ s.latestBlockHeader = st.latestBlockHeader := by
  obtain ⟨-, _, _, _, hst⟩ := createCachedBeaconState_ok h
  exact ⟨congrArg (·.slot) hst, congrArg (·.latestBlockHeader) hst⟩

variable {a b : CachedBeaconState P} {turnsA turnsB : List Turn}

theorem Path.meet (hslot₀ : s₀.slot = 0) (hheader₀ : s₀.latestBlockHeader.slot = 0) (ha : Path env cfg s₀ turnsA a)
    (hb : Path env cfg s₀ turnsB b) (hfree : CollisionFree env cfg (turnsA ++ turnsB))
    (hrootA : getBlockRootAtSlot a.toBeaconState k = .ok root) (hrootB : getBlockRootAtSlot b.toBeaconState k = .ok root) :
    ∃ turns turnsA' turnsB' m, Path env cfg s₀ turns m ∧ m.slot = k + 1 ∧ Path env cfg m turnsA' a ∧
      Path env cfg m turnsB' b := by
  obtain ⟨turns, turnsA', r, m, hr, hrslot, hm, hA, rfl, hroot⟩ := ha.getBlockRootAtSlot_path (by omega) hrootA
  obtain ⟨turns', turnsB', r', m', hr', hrslot', hm', hB, rfl, hroot'⟩ := hb.getBlockRootAtSlot_path (by omega) hrootB
  obtain rfl : r = r' := Path.eq_of_root hslot₀ hheader₀ hr hr' hfree (hrslot.trans hrslot'.symm) (hroot.symm.trans hroot')
  obtain rfl : m' = m := Except.ok.inj (hm'.symm.trans hm)
  exact ⟨_, turnsA', turnsB', m', hr.slot hm, by rw [advanceSlot_slot hm, hrslot], hA, hB⟩

theorem getCurrentEpoch_behind {m : BeaconState P} (hc : 0 < c) (hslot : m.slot = computeStartSlotAtEpoch P c - 1 + 1) :
    getCurrentEpoch m = c := by
  have hstart : 0 < computeStartSlotAtEpoch P c := Nat.mul_pos hc P.slotsPerEpoch_pos
  unfold getCurrentEpoch computeEpochAtSlot
  rw [hslot, Nat.sub_add_cancel hstart]
  exact Nat.mul_div_cancel c P.slotsPerEpoch_pos

theorem Path.meet_before (hslot₀ : s₀.slot = 0) (hheader₀ : s₀.latestBlockHeader.slot = 0) (ha : Path env cfg s₀ turnsA a)
    (hb : Path env cfg s₀ turnsB b) (hfree : CollisionFree env cfg (turnsA ++ turnsB))
    (hrootA : getBlockRootAtSlot a.toBeaconState (computeStartSlotAtEpoch P c - 1) = .ok root)
    (hrootB : getBlockRootAtSlot b.toBeaconState (computeStartSlotAtEpoch P c - 1) = .ok root) :
    ∃ turns turnsA' turnsB' m, Path env cfg s₀ turns m ∧ getCurrentEpoch m.toBeaconState = c ∧ Path env cfg m turnsA' a ∧
      Path env cfg m turnsB' b := by
  rcases Nat.eq_zero_or_pos c with rfl | hc
  · refine ⟨[], turnsA, turnsB, s₀, .refl, ?_, ha, hb⟩
    unfold getCurrentEpoch computeEpochAtSlot
    rw [hslot₀, Nat.zero_div]
  · obtain ⟨turns, turnsA', turnsB', m, hm, hslot, hA, hB⟩ := Path.meet hslot₀ hheader₀ ha hb hfree hrootA hrootB
    exact ⟨turns, turnsA', turnsB', m, hm, getCurrentEpoch_behind hc hslot, hA, hB⟩

/-- **One decision root, one shuffling**: what two runs from genesis do behind it does not matter. -/
theorem decisionRoots_decide {st₀ : BeaconState P} (h₀ : createCachedBeaconState env cfg st₀ noOpts = .ok s₀)
    (hslot₀ : st₀.slot = GENESIS_SLOT) (hheader₀ : st₀.latestBlockHeader.slot = GENESIS_SLOT)
    (ha : Path env cfg s₀ turnsA a) (hb : Path env cfg s₀ turnsB b) (hfree : CollisionFree env cfg (turnsA ++ turnsB)) :
    (∀ e root, attesterShufflingDecisionRoot a.toBeaconState e = .ok (some root) →
      attesterShufflingDecisionRoot b.toBeaconState e = .ok (some root) →
      (∃ shuffling, a.epochCtx.getShufflingAtEpoch e = .ok shuffling ∧ b.epochCtx.getShufflingAtEpoch e = .ok shuffling) ∧
      ∀ slot index, computeEpochAtSlot P slot = e →
        a.epochCtx.getBeaconCommittee P slot index = b.epochCtx.getBeaconCommittee P slot index) ∧
    (∀ root, getCurrentEpoch a.toBeaconState = getCurrentEpoch b.toBeaconState →
      proposerShufflingDecisionRoot a.toBeaconState = .ok (some root) →
      proposerShufflingDecisionRoot b.toBeaconState = .ok (some root) →
      ∀ slot, a.epochCtx.getBeaconProposer P slot = b.epochCtx.getBeaconProposer P slot) := by
  have hfresh₀ := createCachedBeaconState_fresh h₀
  obtain ⟨hslot, hheader⟩ := createCachedBeaconState_slots h₀
  rw [hslot₀] at hslot
  rw [← hheader] at hheader₀
  refine ⟨fun e root hrootA hrootB => ?_, fun root hepoch hrootA hrootB slot => ?_⟩
  · obtain ⟨hnextA, hpreviousA, hrootA⟩ := attesterShufflingDecisionRoot_eq_ok hrootA
    obtain ⟨hnextB, hpreviousB, hrootB⟩ := attesterShufflingDecisionRoot_eq_ok hrootB
    obtain ⟨_, _, _, m, hm, hepoch, hA, hB⟩ := Path.meet_before hslot hheader₀ ha hb hfree hrootA hrootB
    have hfresh := hm.fresh hfresh₀
    have hsame : ∀ {turns x}, Path env cfg m turns x → e ≤ getCurrentEpoch x.toBeaconState + 1 →
        getCurrentEpoch x.toBeaconState ≤ e + 1 → x.epochCtx.getShufflingAtEpoch e =
          computeEpochShuffling env m.toBeaconState (indicesBounded m.validators) e := fun hx hnext hprevious => by
      rw [(hx.fresh hfresh).getShufflingAtEpoch_eq hnext hprevious]
      exact hx.computeEpochShuffling_eq hfresh (by omega) hprevious
    have hshuffling : a.epochCtx.getShufflingAtEpoch e = b.epochCtx.getShufflingAtEpoch e :=
      (hsame hA hnextA hpreviousA).trans (hsame hB hnextB hpreviousB).symm
    refine ⟨?_, fun slot index hslot => ?_⟩
    · obtain ⟨shuffling, hok⟩ := (ha.fresh hfresh₀).getShufflingAtEpoch_ok hnextA hpreviousA
      exact ⟨shuffling, hok, hshuffling ▸ hok⟩
    · unfold EpochContext.getBeaconCommittee
      rw [hslot, hshuffling]
  · have hrootA := proposerShufflingDecisionRoot_eq_ok hrootA
    have hrootB := proposerShufflingDecisionRoot_eq_ok hrootB
    rw [← hepoch] at hrootB
    obtain ⟨_, _, _, m, hm, hmepoch, hA, hB⟩ := Path.meet_before hslot hheader₀ ha hb hfree hrootA hrootB
    have hfresh := hm.fresh hfresh₀
    obtain ⟨_, _, hctxA⟩ := hA.sameButKeys hfresh hmepoch.symm
    obtain ⟨_, _, hctxB⟩ := hB.sameButKeys hfresh (hepoch.symm.trans hmepoch.symm)
    rw [hctxA, hctxB]
    rfl

def slotEnv : Env minimal :=
  { plainEnv minimal with headerRoot := fun header => Vector.replicate 32 (UInt8.ofNat header.slot) }

def lateBlocks : BeaconBlock × BeaconBlock :=
  let block := depositBlock.message
  ({ block with slot := 9 }, { block with slot := 10, body := { block.body with graffiti := Vector.replicate 32 1 } })

/-- Both states are in epoch 1, and slot 7 decided their duties. -/
def sameDecisions (a b : CachedBeaconState minimal) : Bool :=
  decide (attesterShufflingDecisionRoot a.toBeaconState 2 = .ok (some zeroRoot)) &&
  decide (attesterShufflingDecisionRoot b.toBeaconState 2 = .ok (some zeroRoot)) &&
  decide (proposerShufflingDecisionRoot a.toBeaconState = .ok (some zeroRoot)) &&
  decide (proposerShufflingDecisionRoot b.toBeaconState = .ok (some zeroRoot)) &&
  decide (getCurrentEpoch a.toBeaconState = getCurrentEpoch b.toBeaconState)

theorem decisionRoots_decide_late : ∃ s₀ a b turnsA turnsB,
    createCachedBeaconState slotEnv (minimalConfig ⊤) awaitingDepositAtGenesis noOpts = .ok s₀ ∧
    Path slotEnv (minimalConfig ⊤) s₀ turnsA a ∧ Path slotEnv (minimalConfig ⊤) s₀ turnsB b ∧
    a.latestBlockHeader.slot = 9 ∧ b.latestBlockHeader.slot = 10 ∧
    (∃ shuffling, a.epochCtx.getShufflingAtEpoch 2 = .ok shuffling ∧ b.epochCtx.getShufflingAtEpoch 2 = .ok shuffling) ∧
    ∀ slot, a.epochCtx.getBeaconProposer minimal slot = b.epochCtx.getBeaconProposer minimal slot := by
  have heval : ((createCachedBeaconState slotEnv (minimalConfig ⊤) awaitingDepositAtGenesis noOpts) >>= fun s₀ =>
      walk slotEnv (minimalConfig ⊤) (List.replicate 9 none ++ [some lateBlocks.1, none]) s₀ >>= fun a =>
      (walk slotEnv (minimalConfig ⊤) (List.replicate 10 none ++ [some lateBlocks.2]) s₀).map fun b =>
        ((a.1 ++ b.1).filterMap Turn.header?, a.2.latestBlockHeader.slot, b.2.latestBlockHeader.slot, sameDecisions a.2 b.2)) =
      .ok (List.replicate 9 genesisHeader ++ { genesisHeader with slot := 9 } :: List.replicate 10 genesisHeader, 9, 10, true) := by
    decide +kernel
  obtain ⟨s₀, hs₀, heval⟩ := bind_eq_ok.1 heval
  obtain ⟨⟨turnsA, a⟩, hwalkA, heval⟩ := bind_eq_ok.1 heval
  obtain ⟨⟨turnsB, b⟩, hwalkB, heval⟩ := map_eq_ok.1 heval
  simp only [Prod.mk.injEq] at heval
  obtain ⟨hheaders, hslotA, hslotB, hsame⟩ := heval
  unfold sameDecisions at hsame
  simp only [Bool.and_eq_true, decide_eq_true_eq] at hsame
  obtain ⟨⟨⟨⟨hattA, hattB⟩, hpropA⟩, hpropB⟩, hepoch⟩ := hsame
  obtain ⟨ha, hblocksA⟩ := walk_path _ _ _ _ hwalkA
  obtain ⟨hb, hblocksB⟩ := walk_path _ _ _ _ hwalkB
  have hmem : ∀ block, Turn.block block ∈ turnsA ++ turnsB → block = lateBlocks.1 ∨ block = lateBlocks.2 := by
    intro block hblock
    rcases List.mem_append.1 hblock with hblock | hblock
    · have := hblocksA block hblock
      simp at this
      exact .inl this
    · have := hblocksB block hblock
      simp at this
      exact .inr this
  have hclosed : ∀ header, Turn.slot header ∈ turnsA ++ turnsB →
      header = genesisHeader ∨ header = { genesisHeader with slot := 9 } := by
    intro header hslot
    have hheader : header ∈ (turnsA ++ turnsB).filterMap Turn.header? := List.mem_filterMap.2 ⟨_, hslot, rfl⟩
    rw [hheaders] at hheader
    simp at hheader
    rcases hheader with h | h | h
    · exact .inl h
    · exact .inr h
    · exact .inl h
  have hfree : CollisionFree slotEnv (minimalConfig ⊤) (turnsA ++ turnsB) := by
    refine ⟨fun header header' h h' hroot => ?_, fun block block' h h' hslot _ => ?_⟩
    · rcases hclosed header h with rfl | rfl <;> rcases hclosed header' h' with rfl | rfl
      · rfl
      · exact absurd hroot (by decide +kernel)
      · exact absurd hroot (by decide +kernel)
      · rfl
    · -- the two blocks are of different slots
      rcases hmem block h with rfl | rfl <;> rcases hmem block' h' with rfl | rfl
      · rfl
      · cases hslot
      · cases hslot
      · rfl
  obtain ⟨hshufflings, hproposers⟩ := decisionRoots_decide hs₀ rfl rfl ha hb hfree
  exact ⟨s₀, a, b, turnsA, turnsB, hs₀, ha, hb, hslotA, hslotB, (hshufflings 2 _ hattA hattB).1,
    hproposers _ hepoch hpropA hpropB⟩

/-- A deposit comes in between. -/
theorem Path.registry_run_deposit : ∃ s₀ r s turns turns',
    createCachedBeaconState (plainEnv minimal) (minimalConfig ⊤) awaitingDeposit noOpts = .ok s₀ ∧
    Path (plainEnv minimal) (minimalConfig ⊤) s₀ turns r ∧ Path (plainEnv minimal) (minimalConfig ⊤) r turns' s ∧
    s.validators.length = r.validators.length + 1 ∧
    getActiveValidatorIndices s.toBeaconState 3 = getActiveValidatorIndices r.toBeaconState 3 := by
  have heval : (createCachedBeaconState (plainEnv minimal) (minimalConfig ⊤) awaitingDeposit noOpts >>= fun s₀ =>
      walk (plainEnv minimal) (minimalConfig ⊤) [none, none, none] s₀ >>= fun r =>
      (walk (plainEnv minimal) (minimalConfig ⊤) (some depositBlock.message :: List.replicate 15 none) r.2).map fun s =>
        (r.2.slot, r.2.validators.length, s.2.validators.length)) = .ok (17, 2, 3) := by
    decide +kernel
  obtain ⟨s₀, h₀, heval⟩ := bind_eq_ok.1 heval
  obtain ⟨⟨turns, r⟩, hr, heval⟩ := bind_eq_ok.1 heval
  obtain ⟨⟨turns', s⟩, hs, heval⟩ := map_eq_ok.1 heval
  simp only [Prod.mk.injEq] at heval
  obtain ⟨hslot, hbefore, hafter⟩ := heval
  have hpath := (walk_path _ _ _ _ hr).1
  have hpath' := (walk_path _ _ _ _ hs).1
  refine ⟨s₀, r, s, turns, turns', h₀, hpath, hpath', by omega, (Path.registry_run h₀ hpath hpath').2 3 ?_⟩
  unfold getCurrentEpoch
  rw [hslot]
  decide

end Lodestar.StateTransition
