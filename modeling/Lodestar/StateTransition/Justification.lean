import Lodestar.StateTransition.EffectiveBalances
/-!
# Justification — what a run of epoch transitions makes of the finality fields

`processJustificationAndFinalization` reads and writes four fields of the state: the bits of the last four epochs and three
checkpoints.  Between two transitions the rest of the state is free.  A step of it is an `Advance`, and along a run from genesis
the fields stay `Sound`: the checkpoints are ordered, a set bit has a supermajority behind it, and what is finalized was
justified before.
-/
namespace Lodestar.StateTransition

open Lib

variable {P : Preset}

structure Finality where
  justificationBits : Vector Bool 4
  previousJustifiedCheckpoint : Checkpoint
  currentJustifiedCheckpoint : Checkpoint
  finalizedCheckpoint : Checkpoint
deriving DecidableEq

def CachedBeaconState.finality (s : CachedBeaconState P) : Finality where
  justificationBits := s.justificationBits
  previousJustifiedCheckpoint := s.previousJustifiedCheckpoint
  currentJustifiedCheckpoint := s.currentJustifiedCheckpoint
  finalizedCheckpoint := s.finalizedCheckpoint

def CachedBeaconState.withFinality (s : CachedBeaconState P) (f : Finality) : CachedBeaconState P :=
  { s with
    justificationBits := f.justificationBits
    previousJustifiedCheckpoint := f.previousJustifiedCheckpoint
    currentJustifiedCheckpoint := f.currentJustifiedCheckpoint
    finalizedCheckpoint := f.finalizedCheckpoint }

@[simp] theorem finality_withFinality (s : CachedBeaconState P) (f : Finality) : (s.withFinality f).finality = f := rfl

def defaultCheckpoint : Checkpoint := { epoch := 0, root := zeroRoot }

def genesisFinality : Finality where
  justificationBits := #v[false, false, false, false]
  previousJustifiedCheckpoint := defaultCheckpoint
  currentJustifiedCheckpoint := defaultCheckpoint
  finalizedCheckpoint := defaultCheckpoint

/-! ## One transition -/

/-- At least two thirds of the active stake attested the target of the current epoch. -/
def EpochProcess.CurrentSupermajority (process : EpochProcess) : Prop :=
  process.totalActiveStake * 2 ≤ process.currEpochUnslashedTargetStake * 3

/-- At least two thirds of the active stake attested the target of the previous epoch. -/
def EpochProcess.PreviousSupermajority (process : EpochProcess) : Prop :=
  process.totalActiveStake * 2 ≤ process.prevEpochUnslashedStake.targetStake * 3

theorem newestBit_lt : 0 < 4 := by decide

theorem secondBit_lt : 1 < 4 := by decide

theorem thirdBit_lt : 2 < 4 := by decide

theorem oldestBit_lt : 3 < 4 := by decide

/-- What a transition past the first two epochs does to the fields. -/
structure Advance (process : EpochProcess) (f f' : Finality) : Prop where
  previous : f'.previousJustifiedCheckpoint = f.currentJustifiedCheckpoint
  current : (process.CurrentSupermajority ∧ f'.currentJustifiedCheckpoint.epoch = process.currentEpoch) ∨
    (process.PreviousSupermajority ∧ f'.currentJustifiedCheckpoint.epoch = process.prevEpoch) ∨
    f'.currentJustifiedCheckpoint = f.currentJustifiedCheckpoint
  bit0 : getElem f'.justificationBits 0 newestBit_lt = true → process.CurrentSupermajority
  bit1 : getElem f'.justificationBits 1 secondBit_lt = true → process.PreviousSupermajority ∨ getElem f.justificationBits 0 newestBit_lt = true
  bit2 : getElem f'.justificationBits 2 thirdBit_lt = getElem f.justificationBits 1 secondBit_lt
  bit3 : getElem f'.justificationBits 3 oldestBit_lt = getElem f.justificationBits 2 thirdBit_lt
  finalized : f'.finalizedCheckpoint = f.finalizedCheckpoint ∨
    f'.finalizedCheckpoint = f.previousJustifiedCheckpoint ∨ f'.finalizedCheckpoint = f.currentJustifiedCheckpoint

theorem finalization_rules {rule₁ rule₂ rule₃ rule₄ : Bool} (finalized previous current : Checkpoint) :
    let finalized₁ := if rule₁ then previous else finalized
    let finalized₂ := if rule₂ then previous else finalized₁
    let finalized₃ := if rule₃ then current else finalized₂
    let finalized₄ := if rule₄ then current else finalized₃
    finalized₄ = finalized ∨ finalized₄ = previous ∨ finalized₄ = current := by
  cases rule₁ <;> cases rule₂ <;> cases rule₃ <;> cases rule₄ <;> simp

theorem processJustificationAndFinalization_advance {s s' : CachedBeaconState P} {process : EpochProcess}
    (h : processJustificationAndFinalization s process = .ok s') :
    (process.currentEpoch ≤ GENESIS_EPOCH + 1 → s' = s) ∧
      (GENESIS_EPOCH + 1 < process.currentEpoch → Advance process s.finality s'.finality) := by
  unfold processJustificationAndFinalization at h
  dsimp only at h
  split at h
  · rename_i hearly
    rw [pure_eq_ok] at h
    exact ⟨fun _ => h.symm, fun hlate => absurd hearly (Nat.not_le_of_lt hlate)⟩
  · rename_i hlate
    refine ⟨fun hearly => absurd hearly hlate, fun _ => ?_⟩
    simp only [bind_eq_ok, pure_eq_ok] at h
    obtain ⟨⟨s₁, bits₁⟩, h₁, ⟨s₂, bits₂⟩, h₂, rfl⟩ := h
    -- after the previous epoch was judged
    have hs₁ : s₁.previousJustifiedCheckpoint = s.currentJustifiedCheckpoint ∧
        s₁.finalizedCheckpoint = s.finalizedCheckpoint ∧
        ((process.PreviousSupermajority ∧ s₁.currentJustifiedCheckpoint.epoch = process.prevEpoch) ∨
          s₁.currentJustifiedCheckpoint = s.currentJustifiedCheckpoint) ∧
        bits₁[0] = false ∧ (bits₁[1] = true → process.PreviousSupermajority ∨ s.justificationBits[0] = true) ∧
        bits₁[2] = s.justificationBits[1] ∧ bits₁[3] = s.justificationBits[2] := by
      split at h₁
      · rename_i hprevious
        simp only [bind_eq_ok, pure_eq_ok, Prod.mk.injEq] at h₁
        obtain ⟨root, -, rfl, rfl⟩ := h₁
        exact ⟨rfl, rfl, .inl ⟨hprevious, rfl⟩, rfl, fun _ => .inl hprevious, rfl, rfl⟩
      · simp only [pure_eq_ok, Prod.mk.injEq] at h₁
        obtain ⟨rfl, rfl⟩ := h₁
        exact ⟨rfl, rfl, .inr rfl, rfl, fun hbit => .inr hbit, rfl, rfl⟩
    obtain ⟨hprevious₁, hfinalized₁, hcurrent₁, hbit0, hbit1, hbit2, hbit3⟩ := hs₁
    have hs₂ : s₂.previousJustifiedCheckpoint = s₁.previousJustifiedCheckpoint ∧
        s₂.finalizedCheckpoint = s₁.finalizedCheckpoint ∧
        ((process.CurrentSupermajority ∧ s₂.currentJustifiedCheckpoint.epoch = process.currentEpoch) ∨
          s₂.currentJustifiedCheckpoint = s₁.currentJustifiedCheckpoint) ∧
        (bits₂[0] = true → process.CurrentSupermajority) ∧ bits₂[1] = bits₁[1] ∧ bits₂[2] = bits₁[2] ∧
        bits₂[3] = bits₁[3] := by
      split at h₂
      · rename_i hcurrent
        simp only [bind_eq_ok, pure_eq_ok, Prod.mk.injEq] at h₂
        obtain ⟨root, -, rfl, rfl⟩ := h₂
        exact ⟨rfl, rfl, .inl ⟨hcurrent, rfl⟩, fun _ => hcurrent, by simp, by simp, by simp⟩
      · simp only [pure_eq_ok, Prod.mk.injEq] at h₂
        obtain ⟨rfl, rfl⟩ := h₂
        exact ⟨rfl, rfl, .inr rfl, fun hbit => absurd hbit (by rw [hbit0]; decide), rfl, rfl, rfl⟩
    obtain ⟨hprevious₂, hfinalized₂, hcurrent₂, hbit0', hbit1', hbit2', hbit3'⟩ := hs₂
    refine ⟨hprevious₂.trans hprevious₁, ?_, hbit0', fun hbit => hbit1 (hbit1'.symm.trans hbit), hbit2'.trans hbit2,
      hbit3'.trans hbit3, ?_⟩
    · rcases hcurrent₂ with hcurrent | hsame
      · exact .inl hcurrent
      · rcases hcurrent₁ with hcurrent | hsame'
        · exact .inr (.inl ⟨hcurrent.1, (congrArg Checkpoint.epoch hsame).trans hcurrent.2⟩)
        · exact .inr (.inr (hsame.trans hsame'))
    · show _ ∨ _ ∨ _
      rw [← show s₂.finalizedCheckpoint = s.finality.finalizedCheckpoint from hfinalized₂.trans hfinalized₁]
      exact finalization_rules _ _ _

/-! ## Runs from genesis -/

structure EpochInput (P : Preset) where
  state : CachedBeaconState P
  process : EpochProcess

def runTransition (f : Finality) (input : EpochInput P) : Except String Finality :=
  (processJustificationAndFinalization (input.state.withFinality f) input.process).map (·.finality)

section

variable (inputs : List (EpochInput P))

def runTransitions : Except String Finality := inputs.foldlM runTransition genesisFinality

def Consecutive : Prop :=
  ∀ n input, inputs[n]? = some input →
    input.process.currentEpoch = GENESIS_EPOCH + n ∧ input.process.prevEpoch = input.process.currentEpoch - 1

/-- The epoch had two thirds of the stake when it was the current or the previous one. -/
def Supermajority (epoch : Nat) : Prop :=
  ∃ input ∈ inputs, (input.process.currentEpoch = epoch ∧ input.process.CurrentSupermajority) ∨
    (input.process.prevEpoch = epoch ∧ input.process.PreviousSupermajority)

/-- The checkpoint became the current justified one in the course of the run: at genesis, or by a supermajority. -/
def WasJustified (c : Checkpoint) : Prop :=
  c = genesisFinality.currentJustifiedCheckpoint ∨
    ∃ before f, before <+: inputs ∧ runTransitions before = .ok f ∧ f.currentJustifiedCheckpoint = c ∧
      Supermajority before c.epoch

end

theorem runTransitions_concat (inputs : List (EpochInput P)) (input : EpochInput P) :
    runTransitions (inputs ++ [input]) = runTransitions inputs >>= fun f => runTransition f input :=
  foldlM_concat _ inputs input _

variable {inputs : List (EpochInput P)}

theorem WasJustified.mono {c : Checkpoint} (h : WasJustified inputs c) (input : EpochInput P) :
    WasJustified (inputs ++ [input]) c := by
  rcases h with hgenesis | ⟨before, f, hinit, hrun, hcurrent, hstake⟩
  · exact .inl hgenesis
  · exact .inr ⟨before, f, hinit.trans (List.prefix_append inputs [input]), hrun, hcurrent, hstake⟩

variable {input : EpochInput P}

theorem Consecutive.init (h : Consecutive (inputs ++ [input])) :
    Consecutive inputs := by
  intro n found hfound
  refine h n found ?_
  rw [List.getElem?_append_left (List.getElem?_eq_some_iff.1 hfound).1]
  exact hfound

theorem Consecutive.last (h : Consecutive (inputs ++ [input])) :
    input.process.currentEpoch = inputs.length ∧ input.process.prevEpoch = inputs.length - 1 := by
  obtain ⟨hcurrent, hprevious⟩ := h inputs.length input (by simp)
  unfold GENESIS_EPOCH at hcurrent
  omega

/-- What holds of the fields after the transitions of `inputs`. -/
structure Sound (inputs : List (EpochInput P)) (f : Finality) : Prop where
  finalized_le : f.finalizedCheckpoint.epoch ≤ f.previousJustifiedCheckpoint.epoch
  previous_le : f.previousJustifiedCheckpoint.epoch ≤ f.currentJustifiedCheckpoint.epoch
  current_le : f.currentJustifiedCheckpoint.epoch ≤ inputs.length - 1
  early : inputs.length ≤ 2 → f = genesisFinality
  bits : ∀ i, ∀ hi : i < 4, f.justificationBits[i] = true → ∃ epoch, epoch + i + 1 = inputs.length ∧ Supermajority inputs epoch
  previous : WasJustified inputs f.previousJustifiedCheckpoint
  current : WasJustified inputs f.currentJustifiedCheckpoint
  finalized : WasJustified inputs f.finalizedCheckpoint

theorem genesisFinality_bits : ∀ i, ∀ hi : i < 4, genesisFinality.justificationBits[i] = false
  | 0, _ | 1, _ | 2, _ | 3, _ => rfl

theorem sound_genesis : inputs.length ≤ 2 → Sound inputs genesisFinality := by
  intro _
  refine ⟨le_rfl, le_rfl, Nat.zero_le _, fun _ => rfl, fun i hi hbit => ?_, .inl rfl, .inl rfl, .inl rfl⟩
  rw [genesisFinality_bits i hi] at hbit
  cases hbit

variable {f f' : Finality}

theorem Sound.advance (h : Sound inputs f) (hepochs : Consecutive (inputs ++ [input]))
    (hrun : runTransitions (inputs ++ [input]) = .ok f') (hlate : 2 ≤ inputs.length) (hadvance : Advance input.process f f') :
    Sound (inputs ++ [input]) f' := by
  obtain ⟨hcurrentEpoch, hprevEpoch⟩ := hepochs.last
  have hsub : inputs ⊆ inputs ++ [input] := List.subset_append_left inputs [input]
  have hlast : input ∈ inputs ++ [input] := by simp
  have hlength : (inputs ++ [input]).length = inputs.length + 1 := by simp
  have hordered := h.finalized_le.trans h.previous_le
  have hbound := h.current_le
  refine ⟨?_, ?_, ?_, fun hshort => ?_, fun i hi hbit => ?_, ?_, ?_, ?_⟩
  · rw [hadvance.previous]
    rcases hadvance.finalized with heq | heq | heq <;> rw [heq]
    · exact hordered
    · exact h.previous_le
  · rw [hadvance.previous]
    rcases hadvance.current with ⟨-, heq⟩ | ⟨-, heq⟩ | heq <;> rw [heq]
    · omega
    · omega
  · rw [hlength]
    rcases hadvance.current with ⟨-, heq⟩ | ⟨-, heq⟩ | heq <;> rw [heq] <;> omega
  · omega
  · -- a bit is set now, or was set one place lower
    have hshifted : ∀ j, ∀ hj : j < 4, ∀ i, j + 1 = i → f.justificationBits[j] = true →
        ∃ epoch, epoch + i + 1 = (inputs ++ [input]).length ∧ Supermajority (inputs ++ [input]) epoch := by
      intro j hj i hji hold
      obtain ⟨epoch, heq, earlier, hmem, hstake⟩ := h.bits j hj hold
      exact ⟨epoch, by omega, earlier, hsub hmem, hstake⟩
    match i, hi, hbit with
    | 0, _, hbit => exact ⟨inputs.length, by omega, input, hlast, .inl ⟨hcurrentEpoch, hadvance.bit0 hbit⟩⟩
    | 1, _, hbit =>
      rcases hadvance.bit1 hbit with hprevious | hold
      · exact ⟨inputs.length - 1, by omega, input, hlast, .inr ⟨hprevEpoch, hprevious⟩⟩
      · exact hshifted 0 (by decide) 1 rfl hold
    | 2, _, hbit => exact hshifted 1 (by decide) 2 rfl (hadvance.bit2.symm.trans hbit)
    | 3, _, hbit => exact hshifted 2 (by decide) 3 rfl (hadvance.bit3.symm.trans hbit)
  · rw [hadvance.previous]
    exact h.current.mono input
  · rcases hadvance.current with ⟨hstake, heq⟩ | ⟨hstake, heq⟩ | heq
    · refine .inr ⟨_, f', List.prefix_rfl, hrun, rfl, input, hlast, .inl ⟨?_, hstake⟩⟩
      exact heq.symm
    · refine .inr ⟨_, f', List.prefix_rfl, hrun, rfl, input, hlast, .inr ⟨?_, hstake⟩⟩
      exact heq.symm
    · rw [heq]
      exact h.current.mono input
  · rcases hadvance.finalized with heq | heq | heq <;> rw [heq]
    · exact h.finalized.mono input
    · exact h.previous.mono input
    · exact h.current.mono input

theorem runTransition_cases (hepochs : Consecutive (inputs ++ [input])) (h : runTransition f input = .ok f') :
    (inputs.length ≤ 1 ∧ f' = f) ∨ (2 ≤ inputs.length ∧ Advance input.process f f') := by
  unfold runTransition at h
  cases hs : processJustificationAndFinalization (input.state.withFinality f) input.process with
  | error e =>
    rw [hs] at h
    cases h
  | ok s' =>
    rw [hs] at h
    obtain rfl : s'.finality = f' := Except.ok.inj h
    obtain ⟨hearly, hlate⟩ := processJustificationAndFinalization_advance hs
    rw [hepochs.last.1] at hearly hlate
    by_cases hlength : inputs.length ≤ 1
    · refine .inl ⟨hlength, ?_⟩
      rw [hearly hlength, finality_withFinality]
    · refine .inr ⟨by omega, ?_⟩
      have hadvance := hlate (by unfold GENESIS_EPOCH; omega)
      exact hadvance

theorem runTransitions_sound (inputs : List (EpochInput P)) (hepochs : Consecutive inputs) {f : Finality}
    (h : runTransitions inputs = .ok f) : Sound inputs f := by
  induction inputs using List.reverseRecOn generalizing f with
  | nil =>
    obtain rfl : genesisFinality = f := Except.ok.inj h
    exact sound_genesis (Nat.zero_le 2)
  | append_singleton inputs input ih =>
    have hrun := h
    rw [runTransitions_concat, bind_eq_ok] at h
    obtain ⟨f₀, h₀, h⟩ := h
    have hsound := ih hepochs.init h₀
    rcases runTransition_cases hepochs h with ⟨hlength, rfl⟩ | ⟨hlength, hadvance⟩
    · rw [hsound.early (by omega)]
      exact sound_genesis (by simp; omega)
    · exact hsound.advance hepochs hrun hlength hadvance

/-- **Justification and finalization over every run of epoch transitions**, whatever stake attests in each: the checkpoints are
ordered and never go back, a bit is set only for an epoch that two thirds of the stake attested while it was current or
previous, and the finalized checkpoint is one that had been justified before the transition. -/
theorem processJustificationAndFinalization_run (inputs : List (EpochInput P)) (input : EpochInput P) {f' : Finality}
    (hepochs : Consecutive (inputs ++ [input])) (h : runTransitions (inputs ++ [input]) = .ok f') :
    ∃ f, runTransitions inputs = .ok f ∧
      (f'.finalizedCheckpoint.epoch ≤ f'.previousJustifiedCheckpoint.epoch ∧
        f'.previousJustifiedCheckpoint.epoch ≤ f'.currentJustifiedCheckpoint.epoch ∧
        f'.currentJustifiedCheckpoint.epoch ≤ input.process.currentEpoch) ∧
      (f.finalizedCheckpoint.epoch ≤ f'.finalizedCheckpoint.epoch ∧
        f.previousJustifiedCheckpoint.epoch ≤ f'.previousJustifiedCheckpoint.epoch ∧
        f.currentJustifiedCheckpoint.epoch ≤ f'.currentJustifiedCheckpoint.epoch) ∧
      (∀ i, ∀ hi : i < 4, f'.justificationBits[i] = true →
        i ≤ input.process.currentEpoch ∧ Supermajority (inputs ++ [input]) (input.process.currentEpoch - i)) ∧
      WasJustified inputs f'.finalizedCheckpoint := by
  have hsound' := runTransitions_sound _ hepochs h
  have hcurrentEpoch := hepochs.last.1
  have hlength : (inputs ++ [input]).length = inputs.length + 1 := by simp
  rw [runTransitions_concat, bind_eq_ok] at h
  obtain ⟨f, h₀, h⟩ := h
  have hsound := runTransitions_sound inputs hepochs.init h₀
  refine ⟨f, h₀, ⟨hsound'.finalized_le, hsound'.previous_le, ?_⟩, ?_, fun i hi hbit => ?_, ?_⟩
  · have hle := hsound'.current_le
    omega
  · rcases runTransition_cases hepochs h with ⟨-, rfl⟩ | ⟨hlate, hadvance⟩
    · exact ⟨le_rfl, le_rfl, le_rfl⟩
    · refine ⟨?_, ?_, ?_⟩
      · rcases hadvance.finalized with heq | heq | heq <;> rw [heq]
        · exact hsound.finalized_le
        · exact hsound.finalized_le.trans hsound.previous_le
      · rw [hadvance.previous]
        exact hsound.previous_le
      · have hle := hsound.current_le
        obtain ⟨hcurrent, hprevious⟩ := hepochs.last
        rcases hadvance.current with ⟨-, heq⟩ | ⟨-, heq⟩ | heq <;> rw [heq] <;> omega
  · obtain ⟨epoch, heq, hstake⟩ := hsound'.bits i hi hbit
    have hepoch : epoch = input.process.currentEpoch - i := by omega
    exact ⟨by omega, hepoch ▸ hstake⟩
  · rcases runTransition_cases hepochs h with ⟨-, rfl⟩ | ⟨-, hadvance⟩
    · exact hsound.finalized
    · rcases hadvance.finalized with heq | heq | heq <;> rw [heq]
      · exact hsound.finalized
      · exact hsound.previous
      · exact hsound.current

/-! ## Four epochs -/

def epochInput (epoch previousStake currentStake : Nat) : EpochInput minimal where
  state := { slashedInEpoch8 0 with slot := epoch * 8 + 7 }
  process := {
    prevEpoch := epoch - 1, currentEpoch := epoch, totalActiveStake := 3, baseRewardPerIncrement := 0
    prevEpochUnslashedStake := { sourceStake := 0, targetStake := previousStake, headStake := 0 }
    currEpochUnslashedTargetStake := currentStake
    indicesToSlash := [], indicesToSetActivationEligibility := [], indicesToMaybeActivate := [], indicesToEject := []
    exitQueueEnd := 0, exitQueueEndChurn := 0, churnLimit := 0, statuses := [], validators := [], balances := none }

/-- Epoch 2 is justified when it is current, epoch 3 too, and epoch 2 is finalized. -/
theorem processJustificationAndFinalization_run_finalizes :
    ∃ f', runTransitions ([epochInput 0 0 0, epochInput 1 0 0, epochInput 2 0 2] ++ [epochInput 3 0 2]) = .ok f' ∧
      f'.finalizedCheckpoint.epoch = 2 ∧
      WasJustified [epochInput 0 0 0, epochInput 1 0 0, epochInput 2 0 2] f'.finalizedCheckpoint := by
  have hrun : (runTransitions ([epochInput 0 0 0, epochInput 1 0 0, epochInput 2 0 2] ++ [epochInput 3 0 2])).map
      (·.finalizedCheckpoint.epoch) = .ok 2 := by decide +kernel
  cases h : runTransitions ([epochInput 0 0 0, epochInput 1 0 0, epochInput 2 0 2] ++ [epochInput 3 0 2]) with
  | error e =>
    rw [h] at hrun
    cases hrun
  | ok f' =>
    rw [h] at hrun
    have hepochs : Consecutive ([epochInput 0 0 0, epochInput 1 0 0, epochInput 2 0 2] ++ [epochInput 3 0 2]) := by
      intro n input hinput
      match n, hinput with
      | 0, rfl | 1, rfl | 2, rfl | 3, rfl => exact ⟨rfl, rfl⟩
    obtain ⟨f, -, -, -, -, hjustified⟩ := processJustificationAndFinalization_run _ _ hepochs h
    exact ⟨f', rfl, Except.ok.inj hrun, hjustified⟩

end Lodestar.StateTransition
