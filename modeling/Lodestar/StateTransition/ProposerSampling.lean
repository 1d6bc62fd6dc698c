import Lodestar.StateTransition.Committees
import Lodestar.StateTransition.EpochCache
/-!
# ProposerSampling — one pass over the candidates

The specification samples candidates until one passes the test of its effective balance (`Samples`).  `computeProposerIndex`
makes the same steps and gives up with `-1` after as many candidates as there are indices, where the sampling of a sync committee
goes on.

The two agree when a candidate of the first pass is accepted, and only then: `proposes_iff`.
-/
namespace Lodestar.StateTransition

open Lib

variable {P : Preset} (env : Env P) (st : BeaconState P) (indices : List Nat) (seed : Root)

/-! ## The unbounded sampling -/

inductive Samples : Nat → Nat → Prop
  | accept {i candidate : Nat} : sampleCandidate env st indices seed i = .ok (candidate, true) → Samples i candidate
  | next {i rejected candidate : Nat} : sampleCandidate env st indices seed i = .ok (rejected, false) →
      Samples (i + 1) candidate → Samples i candidate

/-- The candidate at `i` passes the test of its effective balance. -/
def Accepted (i : Nat) : Prop := ∃ candidate, sampleCandidate env st indices seed i = .ok (candidate, true)

/-- What the code is asked for: the member of the list that the unbounded sampling ends with. -/
def Proposes : Prop :=
  ∃ candidate ∈ indices, computeProposerIndex env st indices seed = .ok (candidate : Int) ∧ Samples env st indices seed 0 candidate

variable {env st indices seed} {i remaining candidate : Nat}

theorem mem_of_sampleCandidate {accepted : Bool} (h : sampleCandidate env st indices seed i = .ok (candidate, accepted)) :
    candidate ∈ indices := by
  unfold sampleCandidate at h
  simp only [bind_eq_ok, pure_eq_ok, getAt_eq_ok, Prod.mk.injEq] at h
  obtain ⟨shuffledIndex, -, candidateIndex, hcandidate, validator, -, rfl, -⟩ := h
  exact List.mem_of_getElem? hcandidate

namespace Samples

theorem mem (h : Samples env st indices seed i candidate) : candidate ∈ indices := by
  induction h with
  | accept haccept => exact mem_of_sampleCandidate haccept
  | next _ _ ih => exact ih

/-! ## The bounded sampling -/

/-- **With an accepted candidate among those it may try, the bounded sampling ends as the unbounded one; else it gives up.** -/
theorem computeProposerIndexFrom_eq (h : Samples env st indices seed i candidate) (remaining : Nat) :
    ((∃ k < remaining, Accepted env st indices seed (i + k)) ∧
      computeProposerIndexFrom env st indices seed remaining i = .ok (candidate : Int)) ∨
    ((∀ k < remaining, ¬ Accepted env st indices seed (i + k)) ∧
      computeProposerIndexFrom env st indices seed remaining i = .ok (-1)) := by
  induction remaining generalizing i with
  | zero =>
    right
    exact ⟨by simp, rfl⟩
  | succ remaining ih =>
    cases h with
    | accept haccept =>
      left
      refine ⟨⟨0, Nat.succ_pos _, candidate, haccept⟩, ?_⟩
      unfold computeProposerIndexFrom
      rw [haccept]
      rfl
    | next hreject hrest =>
      have hstep : computeProposerIndexFrom env st indices seed (remaining + 1) i =
          computeProposerIndexFrom env st indices seed remaining (i + 1) := by
        rw [computeProposerIndexFrom, hreject]
        rfl
      rw [hstep]
      rcases ih hrest with ⟨⟨k, hk, haccepted⟩, hresult⟩ | ⟨hnone, hresult⟩
      · left
        refine ⟨⟨k + 1, Nat.succ_lt_succ hk, ?_⟩, hresult⟩
        rwa [Nat.add_comm k 1, ← Nat.add_assoc]
      · right
        refine ⟨?_, hresult⟩
        intro k hk
        cases k with
        | zero =>
          rintro ⟨other, hother⟩
          simp [hreject] at hother
        | succ k =>
          rw [Nat.add_comm k 1, ← Nat.add_assoc]
          exact hnone k (Nat.lt_of_succ_lt_succ hk)

end Samples

theorem computeProposerIndex_eq_from (hne : indices ≠ []) :
    computeProposerIndex env st indices seed = computeProposerIndexFrom env st indices seed indices.length 0 := by
  have hpos : 0 < indices.length := List.length_pos_of_ne_nil hne
  unfold computeProposerIndex
  rw [check, if_pos (decide_eq_true hpos)]
  rfl

/-- **Where the specification finds a proposer, the code finds it exactly when a candidate of the first pass is accepted**, and
gives up with `-1` when none is. -/
theorem proposes_iff (env : Env P) (st : BeaconState P) (indices : List Nat) (seed : Root) (hne : indices ≠ [])
    (hterminates : ∃ candidate, Samples env st indices seed 0 candidate) :
    (Proposes env st indices seed ↔ ∃ i < indices.length, Accepted env st indices seed i) ∧
      (¬ Proposes env st indices seed ↔ computeProposerIndex env st indices seed = .ok (-1)) := by
  obtain ⟨candidate, hsamples⟩ := hterminates
  have hcases := hsamples.computeProposerIndexFrom_eq indices.length
  simp only [Nat.zero_add] at hcases
  have heq : computeProposerIndex env st indices seed = computeProposerIndexFrom env st indices seed indices.length 0 :=
    computeProposerIndex_eq_from hne
  rcases hcases with ⟨hfound, hresult⟩ | ⟨hnone, hresult⟩
  · have hproposes : Proposes env st indices seed := ⟨candidate, hsamples.mem, heq.trans hresult, hsamples⟩
    refine ⟨⟨fun _ => hfound, fun _ => hproposes⟩, ⟨fun hnot => absurd hproposes hnot, ?_⟩⟩
    intro hgiven
    rw [heq, hresult] at hgiven
    exact absurd (Except.ok.inj hgiven) (by omega)
  · have hgiven : computeProposerIndex env st indices seed = .ok (-1) := heq.trans hresult
    have hnot : ¬ Proposes env st indices seed := by
      rintro ⟨other, -, hother, -⟩
      rw [hgiven] at hother
      exact absurd (Except.ok.inj hother) (by omega)
    refine ⟨⟨fun hproposes => absurd hproposes hnot, ?_⟩, fun _ => hgiven, fun _ => hnot⟩
    rintro ⟨i, hi, haccepted⟩
    exact absurd haccepted (hnone i hi)

/-! ## One validator -/

def highFirstByte : Env minimal :=
  { plainEnv minimal with hash := fun _ => Vector.ofFn fun i => if i.val = 0 then 255 else 0 }

def oneIncrement : BeaconState minimal :=
  { awaitingDeposit with
    validators := [{
      pubkey := pubkeyOf 1, withdrawalCredentials := zeroRoot, effectiveBalance := 1000000000, slashed := false
      activationEligibilityEpoch := 0, activationEpoch := 0, exitEpoch := ⊤, withdrawableEpoch := ⊤ }]
    balances := [1000000000] }

theorem samples_oneIncrement : Samples highFirstByte oneIncrement [0] zeroRoot 0 0 := by
  have hfirst : sampleCandidate highFirstByte oneIncrement [0] zeroRoot 0 = .ok (0, false) := by decide +kernel
  have hsecond : sampleCandidate highFirstByte oneIncrement [0] zeroRoot 1 = .ok (0, true) := by decide +kernel
  exact Samples.next hfirst (Samples.accept hsecond)

/-- The specification proposes the only active validator, and the code gives up before it. -/
theorem proposes_fails : getActiveValidatorIndices oneIncrement 1 = [0] ∧
    (∀ validator ∈ oneIncrement.validators, 0 < validator.effectiveBalance) ∧
    Samples highFirstByte oneIncrement [0] zeroRoot 0 0 ∧ ¬ Proposes highFirstByte oneIncrement [0] zeroRoot := by
  refine ⟨by decide +kernel, by decide +kernel, samples_oneIncrement, ?_⟩
  rintro ⟨candidate, -, hresult, -⟩
  have hgiven : computeProposerIndex highFirstByte oneIncrement [0] zeroRoot = .ok (-1) := by decide +kernel
  rw [hgiven] at hresult
  exact absurd (Except.ok.inj hresult) (by omega)

theorem proposes_iff_oneIncrement : computeProposerIndex highFirstByte oneIncrement [0] zeroRoot = .ok (-1) ∧
    ∀ i < 1, ¬ Accepted highFirstByte oneIncrement [0] zeroRoot i := by
  obtain ⟨hproposes, hgives⟩ := proposes_iff highFirstByte oneIncrement [0] zeroRoot (by simp) ⟨0, samples_oneIncrement⟩
  have hgiven : computeProposerIndex highFirstByte oneIncrement [0] zeroRoot = .ok (-1) := by decide +kernel
  refine ⟨hgiven, ?_⟩
  intro i hi haccepted
  exact hgives.2 hgiven (hproposes.2 ⟨i, hi, haccepted⟩)

end Lodestar.StateTransition
