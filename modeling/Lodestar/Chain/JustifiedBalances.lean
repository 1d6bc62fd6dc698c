import Lodestar.StateTransition.Histories
import Lodestar.ForkChoice.Justified
import Lodestar.Chain.CheckpointEvents
/-!
# JustifiedBalances — the balances that go with the justified checkpoint

`runStateTransition` hands over the balances of the state's justified checkpoint when it is later than the store's, and none
otherwise.  `onBlock` also takes over a checkpoint that is not later, when finality advances and the ancestor of the justified
block at the old finalized slot is not the newly finalized block; the balances it installs then are none (`InstallsNone`).
-/
namespace Lodestar

open Lib
open Lodestar.StateTransition (CachedBeaconState getEffectiveBalances)

variable {P : Preset}

namespace ForkChoice

/-- An accepted block that does not justify more and finalizes more, where the ancestor of the justified block at the old
finalized slot is not the newly finalized block. -/
structure InstallsNone (P : Preset) (fc : ForkChoice) (block : ForkBlock) (state : ForkState) : Prop where
  accepted : fc.checkBlock P block = .ok ()
  notLater : state.currentJustifiedCheckpoint.epoch ≤ fc.fcStore.justifiedCheckpoint.epoch
  finalizes : fc.fcStore.finalizedCheckpoint.epoch < state.finalizedCheckpoint.epoch
  oldAncestor : ∃ root, fc.getAncestor fc.fcStore.justifiedCheckpoint.root
    (computeStartSlotAtEpoch P fc.fcStore.finalizedCheckpoint.epoch) = .ok root ∧ root ≠ state.finalizedCheckpoint.root

/-- The balances are those of the two checkpoints, as `balancesOf` has them. -/
structure BalancesMatch (balancesOf : CheckpointHex → List Nat) (fc : ForkChoice) : Prop where
  justified : fc.justifiedBalances = balancesOf fc.fcStore.justifiedCheckpoint
  bestJustified : fc.bestJustifiedBalances = balancesOf fc.fcStore.bestJustifiedCheckpoint

variable {balancesOf : CheckpointHex → List Nat}

theorem BalancesMatch.of_eq {fc fc' : ForkChoice} (h : BalancesMatch balancesOf fc) (hstore : fc'.fcStore = fc.fcStore)
    (hjustified : fc'.justifiedBalances = fc.justifiedBalances)
    (hbest : fc'.bestJustifiedBalances = fc.bestJustifiedBalances) : BalancesMatch balancesOf fc' := by
  constructor
  · rw [hjustified, hstore, h.justified]
  · rw [hbest, hstore, h.bestJustified]

/-! ## Blocks -/

theorem noteJustified_balances (fc : ForkChoice) (state : ForkState) (balances : List Nat) :
    (fc.noteJustified P state (some balances)).2 = fc ∨
    (fc.fcStore.justifiedCheckpoint.epoch < state.currentJustifiedCheckpoint.epoch ∧
      (fc.noteJustified P state (some balances)).2 = fc.updateBestJustified state.currentJustifiedCheckpoint balances) := by
  unfold noteJustified
  split
  · rename_i hlater
    dsimp only
    split
    · exact .inr ⟨hlater, rfl⟩
    · exact .inl rfl
  · exact .inl rfl

variable {fc : ForkChoice}

theorem BalancesMatch.finalize (h : BalancesMatch balancesOf fc) (state : ForkState) :
    BalancesMatch balancesOf (fc.finalize state) := ⟨h.justified, h.bestJustified⟩

theorem BalancesMatch.updateJustified (h : BalancesMatch balancesOf fc) {checkpoint : CheckpointHex} {balances : List Nat}
    (hbalances : balances = balancesOf checkpoint) :
    BalancesMatch balancesOf (fc.updateJustified checkpoint balances) := ⟨hbalances, h.bestJustified⟩

theorem BalancesMatch.registerBlock (h : BalancesMatch balancesOf fc) (block : ForkBlock) (state : ForkState) :
    BalancesMatch balancesOf (fc.registerBlock P block state).2 := by
  rw [registerBlock_eq]
  exact ⟨h.justified, h.bestJustified⟩

variable {block : ForkBlock} {state : ForkState}

theorem BalancesMatch.onBlock (h : BalancesMatch balancesOf fc) {balances : List Nat}
    (hlater : fc.fcStore.justifiedCheckpoint.epoch < state.currentJustifiedCheckpoint.epoch →
      balances = balancesOf state.currentJustifiedCheckpoint)
    (hinstalls : InstallsNone P fc block state → balances = balancesOf state.currentJustifiedCheckpoint) :
    BalancesMatch balancesOf (fc.onBlock P block state (some balances)).2 := by
  obtain ⟨hpa, hj, hf, hno⟩ := noteJustified_cases (P := P) fc state (some balances)
  have hnoted := noteJustified_balances (P := P) fc state balances
  unfold ForkChoice.onBlock
  cases hcheck : fc.checkBlock P block with
  | error e => exact h
  | ok u =>
    rcases hn : fc.noteJustified P state (some balances) with ⟨r, fc₁⟩
    rw [hn] at hpa hj hf hno hnoted
    have h₁ : BalancesMatch balancesOf fc₁ := by
      rcases hnoted with rfl | ⟨hlt, rfl⟩
      · exact h
      · exact ⟨h.justified, hlater hlt⟩
    cases r with
    | error e => exact h₁
    | ok flag =>
      have hflag : flag = true → fc.fcStore.justifiedCheckpoint.epoch < state.currentJustifiedCheckpoint.epoch := by
        rintro rfl
        by_contra hle
        cases hno (Nat.le_of_not_lt hle)
      dsimp only
      rcases noteFinalized_cases fc₁ state (computeStartSlotAtEpoch P fc.fcStore.finalizedCheckpoint.epoch) flag with
        ⟨-, hrun⟩ | ⟨hadv, r, hrun, hwhy⟩
      · rw [hrun]
        cases flag with
        | false => exact h₁.registerBlock block state
        | true => exact (h₁.updateJustified (hlater (hflag rfl))).registerBlock block state
      · rw [hf] at hadv
        rw [hj, getAncestor_congr hpa] at hwhy
        rw [hrun]
        rcases r with e | _ | _
        · exact h₁.finalize state
        · exact (h₁.finalize state).registerBlock block state
        · have hbalances : balances = balancesOf state.currentJustifiedCheckpoint := by
            by_cases hlt : fc.fcStore.justifiedCheckpoint.epoch < state.currentJustifiedCheckpoint.epoch
            · exact hlater hlt
            · rcases hwhy rfl with hlt' | htrue | hother
              · exact absurd hlt' hlt
              · exact absurd (hflag htrue) hlt
              · exact hinstalls ⟨hcheck, Nat.le_of_not_lt hlt, hadv, hother⟩
          exact ((h₁.finalize state).updateJustified hbalances).registerBlock block state

theorem InstallsNone.balances (h : InstallsNone P fc block state) (balances : List Nat) :
    (fc.onBlock P block state (some balances)).2.justifiedBalances = balances ∧
    (fc.onBlock P block state (some balances)).2.fcStore.justifiedCheckpoint = state.currentJustifiedCheckpoint := by
  obtain ⟨root, hanc, hne⟩ := h.oldAncestor
  rw [onBlock_finalizesOther h.accepted h.notLater h.finalizes hanc hne balances, registerBlock_eq]
  exact ⟨rfl, rfl⟩

/-! ## Other calls -/

theorem BalancesMatch.processAttestationQueue (h : BalancesMatch balancesOf fc) :
    BalancesMatch balancesOf fc.processAttestationQueue := by
  unfold ForkChoice.processAttestationQueue
  obtain ⟨votes, synced, heq⟩ := noteQueue_frame _ _
  rw [heq]
  exact ⟨h.justified, h.bestJustified⟩

theorem BalancesMatch.onAttestation (h : BalancesMatch balancesOf fc) (attestation : IndexedAttestation) :
    BalancesMatch balancesOf (fc.onAttestation P attestation).2 := by
  unfold ForkChoice.onAttestation
  split
  · exact h
  · split
    · exact h
    · split
      · obtain ⟨votes, synced, heq⟩ := addLatestMessages_frame attestation.target.epoch attestation.beaconBlockRoot
          attestation.attestingIndices fc
        rw [heq]
        exact ⟨h.justified, h.bestJustified⟩
      · exact ⟨h.justified, h.bestJustified⟩

theorem BalancesMatch.onTick (h : BalancesMatch balancesOf fc) (time : Nat) :
    BalancesMatch balancesOf (fc.onTick P time).2 := by
  unfold ForkChoice.onTick
  split
  · exact h
  · dsimp only
    split
    · exact ⟨h.justified, h.bestJustified⟩
    · split
      · exact ⟨h.bestJustified, h.bestJustified⟩
      · exact ⟨h.justified, h.bestJustified⟩

theorem BalancesMatch.updateTime (h : BalancesMatch balancesOf fc) (slot : Nat) :
    BalancesMatch balancesOf (fc.updateTime P slot).2 :=
  ForkChoice.updateTime_keeps (fun _ time h => h.onTick time) (fun _ h => h.processAttestationQueue) h slot

theorem sync_best (fc : ForkChoice) : fc.sync.2.bestJustifiedBalances = fc.bestJustifiedBalances := by
  unfold sync
  split
  · rfl
  · split
    · rfl
    · split <;> rfl

theorem updateHead_best (fc : ForkChoice) : fc.updateHead.2.bestJustifiedBalances = fc.bestJustifiedBalances := by
  obtain ⟨head, heq⟩ := updateHead_eq fc
  rw [heq]
  exact sync_best fc

end ForkChoice

open ForkChoice

variable {balancesOf : CheckpointHex → List Nat}

theorem OtherCall.balancesMatch (call : OtherCall) {fc : ForkChoice} (h : BalancesMatch balancesOf fc) :
    BalancesMatch balancesOf (call.op.run P fc) := by
  cases call with
  | onAttestation attestation => exact h.onAttestation attestation
  | updateTime currentSlot => exact h.updateTime currentSlot
  | prune finalizedRoot =>
    simp only [OtherCall.op, ForkChoice.Op.run]
    rw [prune_eq]
    exact ⟨h.justified, h.bestJustified⟩
  | updateHead => exact h.of_eq (updateHead_frame fc).1 (updateHead_frame fc).2 (updateHead_best fc)

theorem OtherCall.balancesMatch_all : ∀ (calls : List OtherCall) {fc : ForkChoice}, BalancesMatch balancesOf fc →
    BalancesMatch balancesOf (ForkChoice.runOps P fc (calls.map OtherCall.op))
  | [], _, h => h
  | call :: calls, _, h => OtherCall.balancesMatch_all calls (call.balancesMatch h)

/-! ## The import of a block -/

section Chain

variable {SignatureSet : Type}

def ForgetsBalances (m : Modules (CachedBeaconState P) SignatureSet) (stateOf : CheckpointHex → CachedBeaconState P)
    (job : IProcessBlock) (block : SignedBeaconBlock) (preState : CachedBeaconState P) (w : World) : Prop :=
  ∃ state w₁ postState, cacheCheckpointStates P m block preState w = (.ok state, w₁) ∧
    m.stateTransition state block (!job.validSignatures && !job.validProposerSignature) (!job.validSignatures) = .ok postState ∧
    InstallsNone P w₁.forkChoice block.message (m.view postState) ∧
    (stateOf (m.view postState).currentJustifiedCheckpoint).validators ≠ []

variable {m : Modules (CachedBeaconState P) SignatureSet}

variable {w : World}

theorem processSlotsToNearestCheckpoint_balancesMatch : ∀ (n slot : Nat) (state : CachedBeaconState P) (w : World),
    BalancesMatch balancesOf w.forkChoice →
    BalancesMatch balancesOf (processSlotsToNearestCheckpoint P m n slot state w).2.forkChoice
  | 0, _, _, _, h => h
  | n + 1, slot, state, w, h => by
    unfold processSlotsToNearestCheckpoint
    split
    · exact h
    · rename_i postState _
      have hemit : BalancesMatch balancesOf (emitCheckpointEvent P m postState w).2.forkChoice := by
        unfold emitCheckpointEvent
        dsimp only
        split
        · exact h
        · exact h
      split
      · rename_i heq
        rw [heq] at hemit
        exact hemit
      · rename_i heq
        rw [heq] at hemit
        exact processSlotsToNearestCheckpoint_balancesMatch n _ postState _ (OtherCall.balancesMatch_all _ hemit)

theorem cacheCheckpointStates_balancesMatch (block : SignedBeaconBlock) (preState : CachedBeaconState P)
    (h : BalancesMatch balancesOf w.forkChoice) :
    BalancesMatch balancesOf (cacheCheckpointStates P m block preState w).2.forkChoice := by
  unfold cacheCheckpointStates
  dsimp only
  split
  · exact processSlotsToNearestCheckpoint_balancesMatch _ _ preState w h
  · exact h

section

variable (job : IProcessBlock) (block : SignedBeaconBlock) (postState : CachedBeaconState P) (w : World)

theorem announceBlock_frame : (announceBlock P m job block postState w).2.forkChoice = w.forkChoice ∨
    (announceBlock P m job block postState w).2.forkChoice = w.forkChoice.updateHead.2 := by
  have hemit : (if block.message.slot % P.SLOTS_PER_EPOCH = 0 then emitCheckpointEvent P m postState w
      else (.ok (), w)).2.forkChoice = w.forkChoice := by
    unfold emitCheckpointEvent
    dsimp only
    split
    · split
      · rfl
      · rfl
    · rfl
  unfold announceBlock
  dsimp only
  split
  · exact .inl rfl
  · split
    · rename_i heq
      rw [heq] at hemit
      exact .inl hemit
    · rename_i w₁ heq
      rw [heq] at hemit
      right
      have hhead : ((w₁.emit (.block block)).emit (.persisted block)).forkChoice.updateHead = w.forkChoice.updateHead := by
        rw [← hemit]
        rfl
      rw [hhead]
      split
      · rename_i hrun
        rw [hrun]
      · rename_i hrun
        rw [hrun]
        split <;> rfl

theorem announceBlock_store : (announceBlock P m job block postState w).2.forkChoice.fcStore = w.forkChoice.fcStore ∧
    (announceBlock P m job block postState w).2.forkChoice.justifiedBalances = w.forkChoice.justifiedBalances ∧
    (announceBlock P m job block postState w).2.forkChoice.bestJustifiedBalances = w.forkChoice.bestJustifiedBalances := by
  obtain ⟨hstore, hbalances⟩ := updateHead_frame w.forkChoice
  rcases announceBlock_frame (m := m) job block postState w with heq | heq
  · rw [heq]
    exact ⟨rfl, rfl, rfl⟩
  · rw [heq]
    exact ⟨hstore, hbalances, updateHead_best w.forkChoice⟩

end

variable {block : SignedBeaconBlock} {postState : CachedBeaconState P}

theorem registerBlock_forkChoice {balances : List Nat} (h : balancesFor m postState w = .ok balances) :
    (registerBlock P m block postState w).2.forkChoice =
      (w.forkChoice.onBlock P block.message (m.view postState) (some balances)).2 := by
  unfold registerBlock
  rw [h]
  dsimp only
  rcases w.forkChoice.onBlock P block.message (m.view postState) (some balances) with ⟨r, fc⟩
  cases r with
  | error e => rfl
  | ok u => rfl

variable {job : IProcessBlock}

theorem transitionBlock_eq {preState state postState : CachedBeaconState P} {w w₁ : World}
    (hcache : cacheCheckpointStates P m block preState w = (.ok state, w₁))
    (htransition : m.stateTransition state block (!job.validSignatures && !job.validProposerSignature) (!job.validSignatures) =
      .ok postState) :
    ∃ w₂, w₂.forkChoice = w₁.forkChoice ∧
      transitionBlock P m job block preState w = registerBlock P m block postState w₂ := by
  unfold transitionBlock
  rw [hcache]
  dsimp only
  rw [htransition]
  refine ⟨_, ?_, rfl⟩
  split <;> rfl

theorem runStateTransition_store (job : IProcessBlock) (block : SignedBeaconBlock) (preState : CachedBeaconState P) (w : World) :
    (runStateTransition P m job block preState w).2.forkChoice.fcStore =
      (transitionBlock P m job block preState w).2.forkChoice.fcStore ∧
    (runStateTransition P m job block preState w).2.forkChoice.justifiedBalances =
      (transitionBlock P m job block preState w).2.forkChoice.justifiedBalances ∧
    (runStateTransition P m job block preState w).2.forkChoice.bestJustifiedBalances =
      (transitionBlock P m job block preState w).2.forkChoice.bestJustifiedBalances := by
  unfold runStateTransition
  split
  · rename_i heq
    rw [heq]
    exact ⟨rfl, rfl, rfl⟩
  · rename_i postState w' heq
    rw [heq]
    have hframe := announceBlock_store (m := m) job block postState w'
    split
    · rename_i hann
      rw [hann] at hframe
      exact hframe
    · rename_i hann
      rw [hann] at hframe
      exact hframe

/-- The checkpoint state cache maps a checkpoint to its state or to nothing. -/
def CacheAnswers (m : Modules (CachedBeaconState P) SignatureSet) (stateOf : CheckpointHex → CachedBeaconState P) : Prop :=
  ∀ effects checkpoint balances, m.justifiedBalances effects checkpoint = some balances →
    balances = getEffectiveBalances (stateOf checkpoint)

variable {stateOf : CheckpointHex → CachedBeaconState P}

def effectiveOf (stateOf : CheckpointHex → CachedBeaconState P) (checkpoint : CheckpointHex) : List Nat :=
  getEffectiveBalances (stateOf checkpoint)

theorem effectiveOf_eq_nil {checkpoint : CheckpointHex} :
    effectiveOf stateOf checkpoint = [] ↔ (stateOf checkpoint).validators = [] := List.map_eq_nil_iff

theorem balancesFor_later (hcache : CacheAnswers m stateOf) {balances : List Nat} (h : balancesFor m postState w = .ok balances)
    (hlater : w.forkChoice.fcStore.justifiedCheckpoint.epoch < (m.view postState).currentJustifiedCheckpoint.epoch) :
    balances = effectiveOf stateOf (m.view postState).currentJustifiedCheckpoint := by
  unfold balancesFor at h
  rw [if_pos hlater] at h
  split at h
  · cases h
  · rename_i hfound
    cases h
    exact hcache _ _ _ hfound

theorem balancesFor_notLater (postState : CachedBeaconState P)
    (hle : (m.view postState).currentJustifiedCheckpoint.epoch ≤ w.forkChoice.fcStore.justifiedCheckpoint.epoch) :
    balancesFor m postState w = .ok [] := by
  exact if_neg (Nat.not_lt.2 hle)

variable {preState : CachedBeaconState P}

theorem runStateTransition_balancesMatch (hcache : CacheAnswers m stateOf) (h : BalancesMatch (effectiveOf stateOf) w.forkChoice)
    (hkeeps : ¬ ForgetsBalances m stateOf job block preState w) :
    BalancesMatch (effectiveOf stateOf) (runStateTransition P m job block preState w).2.forkChoice := by
  have h₁ := cacheCheckpointStates_balancesMatch (m := m) block preState h
  suffices htransition : BalancesMatch (effectiveOf stateOf) (transitionBlock P m job block preState w).2.forkChoice by
    obtain ⟨hstore, hjustified, hbest⟩ := runStateTransition_store (m := m) job block preState w
    exact htransition.of_eq hstore hjustified hbest
  rcases hstates : cacheCheckpointStates P m block preState w with ⟨r, w₁⟩
  rw [hstates] at h₁
  cases r with
  | error e =>
    unfold transitionBlock
    rw [hstates]
    exact h₁
  | ok state =>
    cases hpost : m.stateTransition state block (!job.validSignatures && !job.validProposerSignature) (!job.validSignatures) with
    | error e =>
      unfold transitionBlock
      rw [hstates]
      dsimp only
      rw [hpost]
      exact h₁
    | ok postState =>
      obtain ⟨w₂, hsame, heq⟩ := transitionBlock_eq hstates hpost
      rw [heq]
      cases hbalances : balancesFor m postState w₂ with
      | error e =>
        unfold registerBlock
        rw [hbalances]
        rw [hsame]
        exact h₁
      | ok balances =>
        rw [registerBlock_forkChoice hbalances, hsame]
        apply h₁.onBlock
        · intro hlater
          exact balancesFor_later hcache hbalances (by rw [hsame]; exact hlater)
        · intro hinstalls
          have hnone := balancesFor_notLater (m := m) postState (w := w₂) (by rw [hsame]; exact hinstalls.notLater)
          rw [hnone] at hbalances
          cases hbalances
          by_contra hne
          exact hkeeps ⟨state, w₁, postState, hstates, hpost, hinstalls, fun hnil => hne (effectiveOf_eq_nil.2 hnil).symm⟩

theorem ForgetsBalances.mismatch (h : ForgetsBalances m stateOf job block preState w) :
    (runStateTransition P m job block preState w).2.forkChoice.justifiedBalances ≠
      effectiveOf stateOf (runStateTransition P m job block preState w).2.forkChoice.fcStore.justifiedCheckpoint := by
  obtain ⟨state, w₁, postState, hstates, hpost, hinstalls, hvalidators⟩ := h
  obtain ⟨hstore, hjustified, -⟩ := runStateTransition_store (m := m) job block preState w
  obtain ⟨w₂, hsame, heq⟩ := transitionBlock_eq hstates hpost
  have hnone := balancesFor_notLater (m := m) postState (w := w₂) (by rw [hsame]; exact hinstalls.notLater)
  obtain ⟨hbalances, hcheckpoint⟩ := hinstalls.balances []
  rw [hstore, hjustified, heq, registerBlock_forkChoice hnone, hsame, hbalances, hcheckpoint]
  exact fun hnil => hvalidators (effectiveOf_eq_nil.1 hnil.symm)

/-! ## Runs -/

inductive ChainStep (P : Preset)
  | runStateTransition (job : IProcessBlock) (block : SignedBeaconBlock) (preState : CachedBeaconState P)
  | other (call : OtherCall)

def ChainStep.run (m : Modules (CachedBeaconState P) SignatureSet) (w : World) : ChainStep P → World
  | .runStateTransition job block preState => (Lodestar.runStateTransition P m job block preState w).2
  | .other call => { w with forkChoice := call.op.run P w.forkChoice }

def runSteps (m : Modules (CachedBeaconState P) SignatureSet) (w : World) (steps : List (ChainStep P)) : World :=
  steps.foldl (ChainStep.run m) w

def ChainStep.KeepsBalances (m : Modules (CachedBeaconState P) SignatureSet) (stateOf : CheckpointHex → CachedBeaconState P)
    (w : World) : ChainStep P → Prop
  | .runStateTransition job block preState => ¬ ForgetsBalances m stateOf job block preState w
  | .other _ => True

def AllKeepBalances (m : Modules (CachedBeaconState P) SignatureSet) (stateOf : CheckpointHex → CachedBeaconState P) :
    World → List (ChainStep P) → Prop
  | _, [] => True
  | w, step :: steps => step.KeepsBalances m stateOf w ∧ AllKeepBalances m stateOf (step.run m w) steps

theorem runSteps_balancesMatch (hcache : CacheAnswers m stateOf) : ∀ (steps : List (ChainStep P)) (w : World),
    BalancesMatch (effectiveOf stateOf) w.forkChoice → AllKeepBalances m stateOf w steps →
    BalancesMatch (effectiveOf stateOf) (runSteps m w steps).forkChoice
  | [], _, h, _ => h
  | step :: steps, w, h, ⟨hstep, hsteps⟩ => by
    apply runSteps_balancesMatch hcache steps (step.run m w) _ hsteps
    cases step with
    | runStateTransition job block preState => exact runStateTransition_balancesMatch hcache h hstep
    | other call => exact call.balancesMatch h

/-- **The balances of the justified checkpoint**: an import that finds them right leaves them right exactly when it does not
forget them, and in every run from a fork choice as it is constructed in which no step forgets them they are those of the
justified checkpoint's state. -/
theorem runSteps_justifiedBalances (hcache : CacheAnswers m stateOf) :
    (∀ job block preState w, BalancesMatch (effectiveOf stateOf) w.forkChoice →
      ((runStateTransition P m job block preState w).2.forkChoice.justifiedBalances =
          effectiveOf stateOf (runStateTransition P m job block preState w).2.forkChoice.fcStore.justifiedCheckpoint ↔
        ¬ ForgetsBalances m stateOf job block preState w)) ∧
    ∀ (fcStore : ForkChoiceStore) (protoArray : ProtoArray) (queuedAttestations : List QueuedAttestation)
      (steps : List (ChainStep P)), fcStore.bestJustifiedCheckpoint = fcStore.justifiedCheckpoint →
      let w : World := ⟨construct fcStore protoArray queuedAttestations (effectiveOf stateOf fcStore.justifiedCheckpoint), []⟩
      AllKeepBalances m stateOf w steps → (runSteps m w steps).forkChoice.justifiedBalances =
        effectiveOf stateOf (runSteps m w steps).forkChoice.fcStore.justifiedCheckpoint := by
  constructor
  · intro job block preState w h
    constructor
    · intro hmatch hforgets
      exact hforgets.mismatch hmatch
    · intro hkeeps
      exact (runStateTransition_balancesMatch hcache h hkeeps).justified
  · intro fcStore protoArray queuedAttestations steps hbest w hsteps
    have hstart : BalancesMatch (effectiveOf stateOf) w.forkChoice := ⟨rfl, congrArg (effectiveOf stateOf) hbest.symm⟩
    exact (runSteps_balancesMatch hcache steps w hstart hsteps).justified

end Chain

/-! ## Two branches -/

open Lodestar.StateTransition (votingEnv minimalConfig votedBlock rootAt genesisOfThree noOpts createCachedBeaconState)

def hexAt (slot : Nat) : HexRoot := Hex.ofBytes (rootAt slot).toList

section Branches

variable (s₀ : CachedBeaconState minimal)

/-- The state after these blocks on the genesis state. -/
def afterBlocks (slots : List Nat) : CachedBeaconState minimal :=
  slots.foldl (fun s slot => (StateTransition.stateTransition votingEnv (minimalConfig ⊤) s
    ⟨votedBlock slot, Vector.replicate 96 0⟩
    { verifyStateRoot := true, verifyProposer := true, verifySignatures := true }).toOption.getD s) s₀

/-- The state of a checkpoint with the block of slot 16 or 22, or with the genesis block. -/
def checkpointStateOf (checkpoint : CheckpointHex) : CachedBeaconState minimal :=
  let s := afterBlocks s₀
    (if checkpoint.root = hexAt 16 then [16] else if checkpoint.root = hexAt 22 then [16, 22] else [])
  let slot := computeStartSlotAtEpoch minimal checkpoint.epoch
  if s.slot < slot then (StateTransition.processSlots votingEnv (minimalConfig ⊤) s slot).toOption.getD s else s

def votedModules : Modules (CachedBeaconState minimal) Unit :=
  withStateTransition votingEnv (minimalConfig ⊤) (fun root => Hex.ofBytes root.toList)
    (fun block => votedBlock block.message.slot)
    { idle with justifiedBalances := fun _ checkpoint => some (getEffectiveBalances (checkpointStateOf s₀ checkpoint)) }

/-- The block of the last of these slots is imported on the one before. -/
def importLast (parents : List Nat) (slot : Nat) : ChainStep minimal :=
  .runStateTransition ⟨false, false, false, false⟩
    ⟨⟨slot, hexAt (parents.getLastD 0), HEX_ZERO_HASH, hexAt slot⟩, Vector.replicate 96 0⟩ (afterBlocks s₀ parents)

def branchSteps : List (ChainStep minimal) :=
  [.other (.updateTime 41), importLast s₀ [] 16, importLast s₀ [16] 22, importLast s₀ [16, 22] 38,
    importLast s₀ [16, 22, 38] 40, importLast s₀ [16, 22] 30]

def atGenesisBlock : World :=
  ⟨construct ⟨0, ⟨0, hexAt 0⟩, ⟨0, hexAt 0⟩, ⟨0, hexAt 0⟩⟩
    (ProtoArray.initializeWith ⟨0, hexAt 0, HEX_ZERO_HASH, HEX_ZERO_HASH, hexAt 0, 0, 0⟩) []
    (effectiveOf (checkpointStateOf s₀) ⟨0, hexAt 0⟩), []⟩

/-- The post-state of an import finalizes no epoch. -/
def finalizesNone (m : Modules (CachedBeaconState minimal) Unit) (w : World) : ChainStep minimal → Bool
  | .runStateTransition job block preState =>
    (cacheCheckpointStates minimal m block preState w).1.toOption.all fun state =>
      (m.stateTransition state block (!job.validSignatures && !job.validProposerSignature) (!job.validSignatures)).toOption.all
        fun postState => (m.view postState).finalizedCheckpoint.epoch == 0
  | .other _ => true

def allFinalizeNone (m : Modules (CachedBeaconState minimal) Unit) : World → List (ChainStep minimal) → Bool
  | _, [] => true
  | w, step :: steps => finalizesNone m w step && allFinalizeNone m (step.run m w) steps

variable {m : Modules (CachedBeaconState minimal) Unit} {stateOf : CheckpointHex → CachedBeaconState minimal}

theorem finalizesNone_keeps {w : World} {step : ChainStep minimal} (h : finalizesNone m w step = true)
    : step.KeepsBalances m stateOf w := by
  cases step with
  | other call => trivial
  | runStateTransition job block preState =>
    rintro ⟨state, w₁, postState, hstate, hpost, hinstalls, -⟩
    simp only [finalizesNone, hstate, Except.toOption, Option.all_some, hpost, beq_iff_eq] at h
    have hlt := hinstalls.finalizes
    omega

theorem allFinalizeNone_keeps :
    ∀ {steps : List (ChainStep minimal)} {w : World}, allFinalizeNone m w steps = true → AllKeepBalances m stateOf w steps
  | [], _, _ => trivial
  | step :: steps, w, h => by
    unfold allFinalizeNone at h
    obtain ⟨hstep, hsteps⟩ := Bool.and_eq_true_iff.1 h
    exact ⟨finalizesNone_keeps hstep, allFinalizeNone_keeps hsteps⟩

end Branches

theorem runSteps_justifiedBalances_branches : ∃ s₀,
    createCachedBeaconState votingEnv (minimalConfig ⊤) genesisOfThree noOpts = .ok s₀ ∧
    let w := runSteps (votedModules s₀) (atGenesisBlock s₀) (branchSteps s₀)
    w.forkChoice.fcStore.justifiedCheckpoint = ⟨4, hexAt 22⟩ ∧
    w.forkChoice.justifiedBalances = effectiveOf (checkpointStateOf s₀) w.forkChoice.fcStore.justifiedCheckpoint := by
  have heval : (createCachedBeaconState votingEnv (minimalConfig ⊤) genesisOfThree noOpts).map (fun s₀ =>
      (allFinalizeNone (votedModules s₀) (atGenesisBlock s₀) (branchSteps s₀),
        (runSteps (votedModules s₀) (atGenesisBlock s₀) (branchSteps s₀)).forkChoice.fcStore.justifiedCheckpoint)) =
      .ok (true, ⟨4, hexAt 22⟩) := by
    decide +kernel
  obtain ⟨s₀, h₀, hfields⟩ := map_eq_ok.1 heval
  obtain ⟨hnone, hjustified⟩ := Prod.mk.inj hfields
  exact ⟨s₀, h₀, hjustified, (runSteps_justifiedBalances fun _ _ _ h => (Option.some.inj h).symm).2 _ _ _ _ rfl (allFinalizeNone_keeps hnone)⟩

/-- The block of slot 32 installs its justified checkpoint with no balances. -/
theorem runStateTransition_forgets_balances : ∃ s₀,
    createCachedBeaconState votingEnv (minimalConfig ⊤) genesisOfThree noOpts = .ok s₀ ∧
    let w := runSteps (votedModules s₀) (atGenesisBlock s₀) (branchSteps s₀ ++ [importLast s₀ [16, 22, 30] 32])
    w.forkChoice.fcStore.justifiedCheckpoint = ⟨3, hexAt 22⟩ ∧ w.forkChoice.fcStore.finalizedCheckpoint = ⟨2, hexAt 16⟩ ∧
    w.forkChoice.justifiedBalances = [] ∧
    effectiveOf (checkpointStateOf s₀) ⟨3, hexAt 22⟩ = [32000000000, 32000000000, 32000000000] ∧
    w.forkChoice.justifiedBalances ≠ effectiveOf (checkpointStateOf s₀) w.forkChoice.fcStore.justifiedCheckpoint := by
  have heval : (createCachedBeaconState votingEnv (minimalConfig ⊤) genesisOfThree noOpts).map (fun s₀ =>
      let w := runSteps (votedModules s₀) (atGenesisBlock s₀) (branchSteps s₀ ++ [importLast s₀ [16, 22, 30] 32])
      ((w.forkChoice.fcStore.justifiedCheckpoint, w.forkChoice.fcStore.finalizedCheckpoint),
        w.forkChoice.justifiedBalances, effectiveOf (checkpointStateOf s₀) ⟨3, hexAt 22⟩)) =
      .ok ((⟨3, hexAt 22⟩, ⟨2, hexAt 16⟩), [], [32000000000, 32000000000, 32000000000]) := by
    decide +kernel
  obtain ⟨s₀, h₀, hfields⟩ := map_eq_ok.1 heval
  simp only [Prod.mk.injEq] at hfields
  obtain ⟨⟨hjustified, hfinalized⟩, hbalances, heffective⟩ := hfields
  refine ⟨s₀, h₀, hjustified, hfinalized, hbalances, heffective, ?_⟩
  rw [hbalances, hjustified, heffective]
  exact (List.cons_ne_nil _ _).symm

end Lodestar
