import Lodestar.ForkChoice.Justified
/-!
# FailedBlocks — what a refused block leaves behind

`onBlock` refuses a block at the top before it has touched anything, but two steps further down can still throw: the question
whether the justified checkpoint should follow, asked when the best justified one is already replaced, and the ancestor and
the balances that a newly finalized checkpoint asks for, when that checkpoint is already set.  `refusesWhole_iff`: a refused
block leaves everything as it was unless the call gets that far (`FailsHalfway`).
-/
namespace Lodestar

open Lib

namespace ForkChoice

/-- The checkpoints, balances, votes and blocks are as they were. -/
structure Untouched (fc fc' : ForkChoice) : Prop where
  fcStore : fc'.fcStore = fc.fcStore
  justifiedBalances : fc'.justifiedBalances = fc.justifiedBalances
  bestJustifiedBalances : fc'.bestJustifiedBalances = fc.bestJustifiedBalances
  votes : fc'.votes = fc.votes
  protoArray : fc'.protoArray = fc.protoArray

theorem Untouched.refl (fc : ForkChoice) : Untouched fc fc := ⟨rfl, rfl, rfl, rfl, rfl⟩

variable (P : Preset)

def RefusesWhole (fc : ForkChoice) (block : ForkBlock) (state : ForkState) (justifiedBalances : Option (List Nat)) : Prop :=
  ∀ e fc', fc.onBlock P block state justifiedBalances = (.error e, fc') → Untouched fc fc'

/-- The justified checkpoint should follow only under conditions that cannot be decided: it is late in the epoch, and the
state is not after the justified slot, or its justified block has no ancestor at that slot. -/
def CannotDecide (fc : ForkChoice) (state : ForkState) : Prop :=
  P.SAFE_SLOTS_TO_UPDATE_JUSTIFIED ≤ computeSlotsSinceEpochStart P fc.fcStore.currentSlot ∧
    (state.slot ≤ computeStartSlotAtEpoch P fc.fcStore.justifiedCheckpoint.epoch ∨
      (computeEpochAtSlot P fc.fcStore.currentSlot ≤ computeEpochAtSlot P state.slot ∧
        ∃ e, fc.getAncestor state.currentJustifiedCheckpoint.root
          (computeStartSlotAtEpoch P fc.fcStore.justifiedCheckpoint.epoch) = .error e))

/-- An accepted block after which the call throws though a checkpoint is already replaced. -/
inductive FailsHalfway (fc : ForkChoice) (block : ForkBlock) (state : ForkState) (justifiedBalances : Option (List Nat)) : Prop
  | justified (accepted : fc.checkBlock P block = .ok ()) (balances : justifiedBalances.isSome = true)
      (later : fc.fcStore.justifiedCheckpoint.epoch < state.currentJustifiedCheckpoint.epoch)
      (best : fc.fcStore.bestJustifiedCheckpoint.epoch < state.currentJustifiedCheckpoint.epoch)
      (undecided : fc.CannotDecide P state)
  | ancestor (accepted : fc.checkBlock P block = .ok ())
      (notLater : state.currentJustifiedCheckpoint.epoch ≤ fc.fcStore.justifiedCheckpoint.epoch)
      (finalizes : fc.fcStore.finalizedCheckpoint.epoch < state.finalizedCheckpoint.epoch)
      (missing : ∃ e, fc.getAncestor fc.fcStore.justifiedCheckpoint.root
        (computeStartSlotAtEpoch P fc.fcStore.finalizedCheckpoint.epoch) = .error e)
  | balances (accepted : fc.checkBlock P block = .ok ()) (noBalances : justifiedBalances = none)
      (notLater : state.currentJustifiedCheckpoint.epoch ≤ fc.fcStore.justifiedCheckpoint.epoch)
      (finalizes : fc.fcStore.finalizedCheckpoint.epoch < state.finalizedCheckpoint.epoch)
      (other : ∃ root, fc.getAncestor fc.fcStore.justifiedCheckpoint.root
        (computeStartSlotAtEpoch P fc.fcStore.finalizedCheckpoint.epoch) = .ok root ∧ root ≠ state.finalizedCheckpoint.root)

variable {P}

theorem shouldUpdateJustifiedCheckpoint_error_iff (fc : ForkChoice) (state : ForkState) :
    (∃ e, fc.shouldUpdateJustifiedCheckpoint P state = .error e) ↔ fc.CannotDecide P state := by
  unfold shouldUpdateJustifiedCheckpoint CannotDecide
  by_cases hearly : computeSlotsSinceEpochStart P fc.fcStore.currentSlot < P.SAFE_SLOTS_TO_UPDATE_JUSTIFIED
  · rw [if_pos hearly]
    simp [hearly]
  rw [if_neg hearly]
  by_cases hrevert : computeStartSlotAtEpoch P fc.fcStore.justifiedCheckpoint.epoch ≥ state.slot
  · rw [if_pos hrevert]
    exact ⟨fun _ => ⟨Nat.le_of_not_lt hearly, .inl hrevert⟩, fun _ => ⟨_, rfl⟩⟩
  rw [if_neg hrevert]
  by_cases hold : computeEpochAtSlot P state.slot < computeEpochAtSlot P fc.fcStore.currentSlot
  · rw [if_pos hold]
    simp [hrevert, hold]
  rw [if_neg hold]
  have hepoch := Nat.le_of_not_lt hold
  cases hanc : fc.getAncestor state.currentJustifiedCheckpoint.root
      (computeStartSlotAtEpoch P fc.fcStore.justifiedCheckpoint.epoch) with
  | error e => exact ⟨fun _ => ⟨Nat.le_of_not_lt hearly, .inr ⟨hepoch, e, rfl⟩⟩, fun _ => ⟨e, rfl⟩⟩
  | ok root => simp [hrevert]

def noteBest (fc : ForkChoice) (state : ForkState) (balances : List Nat) : ForkChoice :=
  if state.currentJustifiedCheckpoint.epoch > fc.fcStore.bestJustifiedCheckpoint.epoch then
    fc.updateBestJustified state.currentJustifiedCheckpoint balances else fc

section

variable (fc : ForkChoice) (state : ForkState) (balances : List Nat)

theorem noteBest_frame : (fc.noteBest state balances).protoArray = fc.protoArray ∧
    (fc.noteBest state balances).fcStore.currentSlot = fc.fcStore.currentSlot ∧
    (fc.noteBest state balances).fcStore.justifiedCheckpoint = fc.fcStore.justifiedCheckpoint := by
  unfold noteBest
  split <;> exact ⟨rfl, rfl, rfl⟩

theorem noteBest_untouched_iff : Untouched fc (fc.noteBest state balances) ↔
      state.currentJustifiedCheckpoint.epoch ≤ fc.fcStore.bestJustifiedCheckpoint.epoch := by
  unfold noteBest
  by_cases hbest : state.currentJustifiedCheckpoint.epoch > fc.fcStore.bestJustifiedCheckpoint.epoch
  · rw [if_pos hbest]
    constructor
    · intro h
      have hsame := congrArg (·.bestJustifiedCheckpoint.epoch) h.fcStore
      exact Nat.le_of_eq hsame
    · intro h
      omega
  · rw [if_neg hbest]
    exact ⟨fun _ => Nat.le_of_not_lt hbest, fun _ => .refl fc⟩

theorem cannotDecide_noteBest : (fc.noteBest state balances).CannotDecide P state ↔ fc.CannotDecide P state := by
  obtain ⟨hpa, hslot, hj⟩ := noteBest_frame fc state balances
  unfold CannotDecide
  rw [hslot, hj, getAncestor_congr hpa]

end

variable {fc : ForkChoice} {state : ForkState}

theorem noteJustified_later (balances : List Nat)
    (hlater : fc.fcStore.justifiedCheckpoint.epoch < state.currentJustifiedCheckpoint.epoch) :
    fc.noteJustified P state (some balances) =
      ((fc.noteBest state balances).shouldUpdateJustifiedCheckpoint P state, fc.noteBest state balances) := by
  unfold noteJustified noteBest
  rw [if_pos hlater]

theorem noteFinalized_later (slot : Nat) (flag : Bool)
    (hlater : fc.fcStore.justifiedCheckpoint.epoch < state.currentJustifiedCheckpoint.epoch) :
    ∃ flag' fc', fc.noteFinalized state slot flag = (.ok flag', fc') ∧ fc'.protoArray = fc.protoArray := by
  have hne : fc.fcStore.justifiedCheckpoint ≠ state.currentJustifiedCheckpoint := by
    intro hsame
    rw [hsame] at hlater
    exact Nat.lt_irrefl _ hlater
  unfold noteFinalized
  by_cases hadv : state.finalizedCheckpoint.epoch > fc.fcStore.finalizedCheckpoint.epoch
  · rw [if_pos hadv]
    rw [if_pos ⟨hne, hlater⟩]
    exact ⟨true, _, rfl, rfl⟩
  · rw [if_neg hadv]
    exact ⟨flag, fc, rfl, rfl⟩

theorem noteFinalized_notLater (slot : Nat) (hnot : state.currentJustifiedCheckpoint.epoch ≤ fc.fcStore.justifiedCheckpoint.epoch)
    (hadv : fc.fcStore.finalizedCheckpoint.epoch < state.finalizedCheckpoint.epoch) :
    fc.noteFinalized state slot false = ((fc.getAncestor fc.fcStore.justifiedCheckpoint.root slot).map
      (fun root => decide (root ≠ state.finalizedCheckpoint.root)), fc.finalize state) := by
  have hsame := getAncestor_finalize fc state fc.fcStore.justifiedCheckpoint.root slot
  unfold noteFinalized
  rw [if_pos hadv]
  rw [if_neg (fun h => absurd h.2 (Nat.not_lt.2 hnot))]
  unfold finalize at hsame ⊢
  rw [hsame]
  cases fc.getAncestor fc.fcStore.justifiedCheckpoint.root slot <;> simp [Except.map]

theorem not_untouched_finalize (hadv : fc.fcStore.finalizedCheckpoint.epoch < state.finalizedCheckpoint.epoch) :
    ¬ Untouched fc (fc.finalize state) := by
  intro h
  have hsame := congrArg (·.finalizedCheckpoint.epoch) h.fcStore
  exact Nat.ne_of_gt hadv hsame

section Cases

variable {fc : ForkChoice} (h : fc.protoArray.WellFormed) {block : ForkBlock} {state : ForkState}
  (hcheck : fc.checkBlock P block = .ok ())

include h hcheck

theorem refusesWhole_later (balances : List Nat)
    (hlater : fc.fcStore.justifiedCheckpoint.epoch < state.currentJustifiedCheckpoint.epoch) :
    fc.RefusesWhole P block state (some balances) ↔
      (fc.CannotDecide P state → state.currentJustifiedCheckpoint.epoch ≤ fc.fcStore.bestJustifiedCheckpoint.epoch) := by
  rw [← noteBest_untouched_iff fc state balances, ← cannotDecide_noteBest fc state balances,
    ← shouldUpdateJustifiedCheckpoint_error_iff]
  obtain ⟨hpa, -, hj⟩ := noteBest_frame fc state balances
  unfold RefusesWhole onBlock
  rw [hcheck, noteJustified_later balances hlater]
  cases hshould : (fc.noteBest state balances).shouldUpdateJustifiedCheckpoint P state with
  | error e =>
    constructor
    · intro hrefuse _
      exact hrefuse e _ rfl
    · rintro huntouched e' fc' hrun
      cases hrun
      exact huntouched ⟨e, rfl⟩
  | ok flag =>
    rw [← hj] at hlater
    obtain ⟨flag', fc₂, hrun, hpa₂⟩ := noteFinalized_later
      (computeStartSlotAtEpoch P fc.fcStore.finalizedCheckpoint.epoch) flag hlater
    dsimp only
    rw [hrun]
    have hwf : fc₂.protoArray.WellFormed := by
      rw [hpa₂, hpa]
      exact h
    refine ⟨fun _ herr => absurd herr (by simp), fun _ e fc' heq => ?_⟩
    cases flag' with
    | false =>
      have hok := registerBlock_ok hwf block state (P := P)
      rw [show fc₂.registerBlock P block state = (.error e, fc') from heq] at hok
      cases hok
    | true =>
      have hok := @registerBlock_ok P (fc₂.updateJustified state.currentJustifiedCheckpoint balances) hwf block state
      rw [show (fc₂.updateJustified state.currentJustifiedCheckpoint balances).registerBlock P block state = (.error e, fc')
        from heq] at hok
      cases hok

/-- **A newly finalized checkpoint with a justified one that is not later**: whatever throws from there on throws too late. -/
theorem refusesWhole_finalizes (balances : Option (List Nat))
    (hnot : state.currentJustifiedCheckpoint.epoch ≤ fc.fcStore.justifiedCheckpoint.epoch)
    (hadv : fc.fcStore.finalizedCheckpoint.epoch < state.finalizedCheckpoint.epoch) :
    fc.RefusesWhole P block state balances ↔ ∃ root, fc.getAncestor fc.fcStore.justifiedCheckpoint.root
      (computeStartSlotAtEpoch P fc.fcStore.finalizedCheckpoint.epoch) = .ok root ∧
        (root = state.finalizedCheckpoint.root ∨ balances.isSome = true) := by
  obtain ⟨-, -, -, hno⟩ := noteJustified_cases (P := P) fc state balances
  have hbad := not_untouched_finalize hadv
  unfold RefusesWhole onBlock
  rw [hcheck, hno hnot]
  dsimp only
  rw [noteFinalized_notLater _ hnot hadv]
  cases fc.getAncestor fc.fcStore.justifiedCheckpoint.root
      (computeStartSlotAtEpoch P fc.fcStore.finalizedCheckpoint.epoch) with
  | error e =>
    constructor
    · intro hrefuse
      exact absurd (hrefuse e _ rfl) hbad
    · rintro ⟨root, hroot, -⟩
      cases hroot
  | ok root =>
    simp only [Except.map]
    by_cases hroot : root = state.finalizedCheckpoint.root
    · refine ⟨fun _ => ⟨root, rfl, .inl hroot⟩, fun _ e fc' heq => ?_⟩
      have hok := @registerBlock_ok P (fc.finalize state) h block state
      simp only [hroot, ne_eq, not_true_eq_false, decide_false] at heq
      rw [heq] at hok
      cases hok
    · simp only [hroot, ne_eq, not_false_eq_true, decide_true]
      cases balances with
      | none =>
        constructor
        · intro hrefuse
          exact absurd (hrefuse _ _ rfl) hbad
        · rintro ⟨root', hroot', hsame | hsome⟩
          · cases hroot'
            exact absurd hsame hroot
          · cases hsome
      | some bs =>
        refine ⟨fun _ => ⟨root, rfl, .inr rfl⟩, fun _ e fc' heq => ?_⟩
        have hok := @registerBlock_ok P ((fc.finalize state).updateJustified state.currentJustifiedCheckpoint bs) h block state
        dsimp only at heq
        rw [heq] at hok
        cases hok

end Cases

/-- **When a refused block changes nothing**: exactly when the call does not fail halfway. -/
theorem refusesWhole_iff {fc : ForkChoice} (h : fc.protoArray.WellFormed) (block : ForkBlock) (state : ForkState)
    (balances : Option (List Nat)) : fc.RefusesWhole P block state balances ↔ ¬ fc.FailsHalfway P block state balances := by
  cases hcheck : fc.checkBlock P block with
  | error e =>
    constructor
    · intro _ hfails
      cases hfails with
      | justified accepted => rw [hcheck] at accepted; cases accepted
      | ancestor accepted => rw [hcheck] at accepted; cases accepted
      | balances accepted => rw [hcheck] at accepted; cases accepted
    · intro _ e' fc' hrun
      unfold onBlock at hrun
      rw [hcheck] at hrun
      cases hrun
      exact .refl fc
  | ok u =>
    by_cases hlater : fc.fcStore.justifiedCheckpoint.epoch < state.currentJustifiedCheckpoint.epoch
    · cases balances with
      | none =>
        constructor
        · intro _ hfails
          cases hfails with
          | justified _ hsome => cases hsome
          | ancestor _ hnot => omega
          | balances _ _ hnot => omega
        · intro _ e' fc' hrun
          unfold onBlock noteJustified at hrun
          rw [hcheck, if_pos hlater] at hrun
          cases hrun
          exact .refl fc
      | some bs =>
        rw [refusesWhole_later h hcheck bs hlater]
        constructor
        · intro hkeeps hfails
          cases hfails with
          | justified _ _ _ hbest hundecided =>
            have := hkeeps hundecided
            omega
          | ancestor _ hnot => omega
          | balances _ _ hnot => omega
        · intro hno hundecided
          by_contra hbest
          exact hno (.justified hcheck rfl hlater (Nat.lt_of_not_le hbest) hundecided)
    · have hnot := Nat.le_of_not_lt hlater
      by_cases hadv : fc.fcStore.finalizedCheckpoint.epoch < state.finalizedCheckpoint.epoch
      · rw [refusesWhole_finalizes h hcheck balances hnot hadv]
        constructor
        · rintro ⟨root, hroot, hfine⟩ hfails
          cases hfails with
          | justified _ _ hlater' => omega
          | ancestor _ _ _ hmissing =>
            obtain ⟨e, he⟩ := hmissing
            rw [hroot] at he
            cases he
          | balances _ hnone _ _ hother =>
            obtain ⟨root', hroot', hne⟩ := hother
            rw [hroot] at hroot'
            cases hroot'
            rcases hfine with hsame | hsome
            · exact hne hsame
            · rw [hnone] at hsome
              cases hsome
        · intro hno
          cases hanc : fc.getAncestor fc.fcStore.justifiedCheckpoint.root
              (computeStartSlotAtEpoch P fc.fcStore.finalizedCheckpoint.epoch) with
          | error e => exact absurd (.ancestor hcheck hnot hadv ⟨e, hanc⟩) hno
          | ok root =>
            refine ⟨root, rfl, ?_⟩
            by_contra hbad
            rw [not_or] at hbad
            have hnone : balances = none := Option.not_isSome_iff_eq_none.1 hbad.2
            exact hno (.balances hcheck hnone hnot hadv ⟨root, hanc, hbad.1⟩)
      · constructor
        · intro _ hfails
          cases hfails with
          | justified _ _ hlater' => omega
          | ancestor _ _ hadv' => omega
          | balances _ _ _ hadv' => omega
        · intro _ e fc' hrun
          obtain ⟨-, -, -, hno⟩ := noteJustified_cases (P := P) fc state balances
          have hok := registerBlock_ok h block state (P := P)
          unfold onBlock noteFinalized at hrun
          rw [hcheck, hno hnot] at hrun
          dsimp only at hrun
          rw [if_neg hadv] at hrun
          dsimp only at hrun
          rw [hrun] at hok
          cases hok

/-- A block on top of genesis justifies another epoch, and no balances come with it. -/
theorem refusesWhole_unbalanced :
    ((runOps minimal atGenesis [.updateTime 40]).onBlock minimal ⟨33, "a", "f", "f"⟩ (stateAt 33 ⟨2, "a"⟩ ⟨0, "a"⟩) none).1 =
      .error noBalances ∧
    (runOps minimal atGenesis [.updateTime 40]).RefusesWhole minimal ⟨33, "a", "f", "f"⟩ (stateAt 33 ⟨2, "a"⟩ ⟨0, "a"⟩) none := by
  have hwf : (runOps minimal atGenesis [.updateTime 40]).protoArray.WellFormed :=
    ProtoArray.WellFormed.op (ProtoArray.WellFormed.new 0 0 0) (.onBlock ⟨0, "a", "z", "a", "a", 0, 0⟩)
  refine ⟨by decide, (refusesWhole_iff hwf _ _ _).2 (fun hfails => ?_)⟩
  cases hfails with
  | justified _ hsome => cases hsome
  | ancestor _ hnot => exact absurd hnot (by decide)
  | balances _ _ hnot => exact absurd hnot (by decide)

/-- **The finalized checkpoint is replaced although the block is refused**: the state finalizes "b" and justifies nothing later,
and the call asks for balances when the checkpoint is already set. -/
theorem onBlock_fails_halfway :
    let fc := runOps minimal atGenesis branches
    let result := fc.onBlock minimal ⟨33, "e", "f", "f"⟩ (stateAt 33 ⟨2, "e"⟩ ⟨1, "b"⟩) none
    result.1 = .error noBalances ∧ fc.fcStore.finalizedCheckpoint = ⟨0, "a"⟩ ∧
      result.2.fcStore.finalizedCheckpoint = ⟨1, "b"⟩ ∧
      ¬ fc.RefusesWhole minimal ⟨33, "e", "f", "f"⟩ (stateAt 33 ⟨2, "e"⟩ ⟨1, "b"⟩) none := by
  intro fc result
  have hrun : result.1 = .error noBalances := by decide
  have hbefore : fc.fcStore.finalizedCheckpoint = ⟨0, "a"⟩ := by decide
  have hafter : result.2.fcStore.finalizedCheckpoint = ⟨1, "b"⟩ := by decide
  refine ⟨hrun, hbefore, hafter, fun hrefuses => ?_⟩
  have hsame := congrArg (·.finalizedCheckpoint) (hrefuses noBalances result.2 (Prod.ext hrun rfl)).fcStore
  cases hsame

end ForkChoice

end Lodestar
