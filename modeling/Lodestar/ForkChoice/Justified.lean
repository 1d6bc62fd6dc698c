import Lodestar.ForkChoice.ForkChoiceRuns
/-!
# Justified — when the store gives up its justified checkpoint

The store replaces its justified checkpoint by a later one, or, when finality advances, by the state's if its own block does
not descend from the newly finalized checkpoint.  `onBlock` asks for the ancestor at the start slot of the epoch finalized
before, so it replaces checkpoints whose block does descend (`ReplacesDescendant`); `onBlock_justified_iff` says that these
are the only calls that break the rule.
-/
namespace Lodestar

open Lib

namespace ForkChoice

variable (P : Preset)

/-- The store's justified block has the checkpoint's root as its ancestor at the start of the checkpoint's epoch. -/
def JustifiedDescends (fc : ForkChoice) (checkpoint : CheckpointHex) : Prop :=
  fc.getAncestor fc.fcStore.justifiedCheckpoint.root (computeStartSlotAtEpoch P checkpoint.epoch) = .ok checkpoint.root

instance (fc : ForkChoice) (checkpoint : CheckpointHex) : Decidable (fc.JustifiedDescends P checkpoint) :=
  inferInstanceAs (Decidable (_ = _))

/-- The rule of the specification for one call: when finality advances, the justified checkpoint is replaced only by a later
one, or when its block does not descend from the newly finalized checkpoint. -/
def JustifiedRule (fc : ForkChoice) (block : ForkBlock) (state : ForkState) (justifiedBalances : Option (List Nat)) : Prop :=
  fc.fcStore.finalizedCheckpoint.epoch < (fc.onBlock P block state justifiedBalances).2.fcStore.finalizedCheckpoint.epoch →
  (fc.onBlock P block state justifiedBalances).2.fcStore.justifiedCheckpoint ≠ fc.fcStore.justifiedCheckpoint →
  fc.fcStore.justifiedCheckpoint.epoch < state.currentJustifiedCheckpoint.epoch ∨
    ¬ fc.JustifiedDescends P (fc.onBlock P block state justifiedBalances).2.fcStore.finalizedCheckpoint

/-- An accepted block whose state finalizes more and justifies another checkpoint that is not later, though the store's
justified block descends from the newly finalized checkpoint; the ancestor at the old finalized slot is another block. -/
structure ReplacesDescendant (fc : ForkChoice) (block : ForkBlock) (state : ForkState)
    (justifiedBalances : Option (List Nat)) : Prop where
  accepted : fc.checkBlock P block = .ok ()
  balances : justifiedBalances.isSome
  finalizes : fc.fcStore.finalizedCheckpoint.epoch < state.finalizedCheckpoint.epoch
  notLater : state.currentJustifiedCheckpoint.epoch ≤ fc.fcStore.justifiedCheckpoint.epoch
  another : state.currentJustifiedCheckpoint ≠ fc.fcStore.justifiedCheckpoint
  descends : fc.JustifiedDescends P state.finalizedCheckpoint
  oldAncestor : ∃ root, fc.getAncestor fc.fcStore.justifiedCheckpoint.root
    (computeStartSlotAtEpoch P fc.fcStore.finalizedCheckpoint.epoch) = .ok root ∧ root ≠ state.finalizedCheckpoint.root

variable {P}

/-! ## One block -/

theorem getAncestor_congr {fc fc' : ForkChoice} (h : fc'.protoArray = fc.protoArray) (root : HexRoot) (slot : Nat) :
    fc'.getAncestor root slot = fc.getAncestor root slot := by
  unfold getAncestor
  rw [h]

section

variable (fc : ForkChoice) (state : ForkState)

theorem noteJustified_cases (balances : Option (List Nat)) : (fc.noteJustified P state balances).2.protoArray = fc.protoArray ∧
    (fc.noteJustified P state balances).2.fcStore.justifiedCheckpoint = fc.fcStore.justifiedCheckpoint ∧
    (fc.noteJustified P state balances).2.fcStore.finalizedCheckpoint = fc.fcStore.finalizedCheckpoint ∧
    (state.currentJustifiedCheckpoint.epoch ≤ fc.fcStore.justifiedCheckpoint.epoch →
      fc.noteJustified P state balances = (.ok false, fc)) := by
  unfold noteJustified
  split
  · rename_i hlt
    split
    · exact ⟨rfl, rfl, rfl, fun h => absurd hlt (Nat.not_lt.2 h)⟩
    · dsimp only
      split
      · exact ⟨rfl, rfl, rfl, fun h => absurd hlt (Nat.not_lt.2 h)⟩
      · exact ⟨rfl, rfl, rfl, fun h => absurd hlt (Nat.not_lt.2 h)⟩
  · exact ⟨rfl, rfl, rfl, fun _ => rfl⟩

def finalize (fc : ForkChoice) (state : ForkState) : ForkChoice :=
  { fc with fcStore := { fc.fcStore with finalizedCheckpoint := state.finalizedCheckpoint } }

theorem getAncestor_finalize (root : HexRoot) (slot : Nat) :
    (fc.finalize state).getAncestor root slot = fc.getAncestor root slot := getAncestor_congr rfl root slot

theorem noteFinalized_cases (slot : Nat) (flag : Bool) : (state.finalizedCheckpoint.epoch ≤ fc.fcStore.finalizedCheckpoint.epoch ∧
      fc.noteFinalized state slot flag = (.ok flag, fc)) ∨
    (fc.fcStore.finalizedCheckpoint.epoch < state.finalizedCheckpoint.epoch ∧
      ∃ r, fc.noteFinalized state slot flag = (r, fc.finalize state) ∧
        (r = .ok true → fc.fcStore.justifiedCheckpoint.epoch < state.currentJustifiedCheckpoint.epoch ∨ flag = true ∨
          ∃ root, fc.getAncestor fc.fcStore.justifiedCheckpoint.root slot = .ok root ∧
            root ≠ state.finalizedCheckpoint.root)) := by
  unfold noteFinalized
  by_cases hadv : state.finalizedCheckpoint.epoch > fc.fcStore.finalizedCheckpoint.epoch
  · refine .inr ⟨hadv, ?_⟩
    rw [if_pos hadv]
    dsimp only
    split
    · rename_i hlater
      exact ⟨_, rfl, fun _ => .inl hlater.2⟩
    · have hsame := getAncestor_finalize fc state fc.fcStore.justifiedCheckpoint.root slot
      unfold finalize at hsame ⊢
      rw [hsame]
      cases hanc : fc.getAncestor fc.fcStore.justifiedCheckpoint.root slot with
      | error e => exact ⟨.error e, rfl, fun h => by cases h⟩
      | ok root =>
        refine ⟨.ok (flag || decide (root ≠ state.finalizedCheckpoint.root)), rfl, fun h => ?_⟩
        right
        have hor : (flag || decide (root ≠ state.finalizedCheckpoint.root)) = true := by injection h
        rw [Bool.or_eq_true, decide_eq_true_eq] at hor
        exact hor.imp_right (fun hne => ⟨root, rfl, hne⟩)
  · exact .inl ⟨Nat.le_of_not_lt hadv, by rw [if_neg hadv]⟩

end

/-- **What a block can do to the two checkpoints.** -/
inductive StoreStep (fc : ForkChoice) (block : ForkBlock) (state : ForkState) (balances : Option (List Nat))
    (new : ForkChoiceStore) : Prop
  | keeps : new.justifiedCheckpoint = fc.fcStore.justifiedCheckpoint →
      new.finalizedCheckpoint = fc.fcStore.finalizedCheckpoint → StoreStep fc block state balances new
  | justifies : new.justifiedCheckpoint = state.currentJustifiedCheckpoint →
      new.finalizedCheckpoint = fc.fcStore.finalizedCheckpoint →
      fc.fcStore.justifiedCheckpoint.epoch < state.currentJustifiedCheckpoint.epoch → StoreStep fc block state balances new
  | finalizes : fc.fcStore.finalizedCheckpoint.epoch < state.finalizedCheckpoint.epoch →
      new.finalizedCheckpoint = state.finalizedCheckpoint →
      new.justifiedCheckpoint = fc.fcStore.justifiedCheckpoint → StoreStep fc block state balances new
  | finalizesLater : fc.fcStore.finalizedCheckpoint.epoch < state.finalizedCheckpoint.epoch →
      new.finalizedCheckpoint = state.finalizedCheckpoint →
      new.justifiedCheckpoint = state.currentJustifiedCheckpoint →
      fc.fcStore.justifiedCheckpoint.epoch < state.currentJustifiedCheckpoint.epoch → StoreStep fc block state balances new
  | finalizesOther (root : HexRoot) : fc.fcStore.finalizedCheckpoint.epoch < state.finalizedCheckpoint.epoch →
      new.finalizedCheckpoint = state.finalizedCheckpoint →
      new.justifiedCheckpoint = state.currentJustifiedCheckpoint →
      fc.checkBlock P block = .ok () → balances.isSome →
      fc.getAncestor fc.fcStore.justifiedCheckpoint.root
        (computeStartSlotAtEpoch P fc.fcStore.finalizedCheckpoint.epoch) = .ok root →
      root ≠ state.finalizedCheckpoint.root → StoreStep fc block state balances new

theorem onBlock_store (fc : ForkChoice) (block : ForkBlock) (state : ForkState) (balances : Option (List Nat)) :
    StoreStep (P := P) fc block state balances (fc.onBlock P block state balances).2.fcStore := by
  obtain ⟨hpa, hj, hf, hno⟩ := noteJustified_cases (P := P) fc state balances
  unfold onBlock
  cases hcheck : fc.checkBlock P block with
  | error e => exact .keeps rfl rfl
  | ok u =>
    rcases hn : fc.noteJustified P state balances with ⟨r, fc₁⟩
    rw [hn] at hpa hj hf hno
    cases r with
    | error e => exact .keeps hj hf
    | ok flag =>
      have hlater : flag = true → fc.fcStore.justifiedCheckpoint.epoch < state.currentJustifiedCheckpoint.epoch := by
        rintro rfl
        by_contra hle
        cases hno (Nat.le_of_not_lt hle)
      dsimp only
      rcases noteFinalized_cases fc₁ state (computeStartSlotAtEpoch P fc.fcStore.finalizedCheckpoint.epoch) flag with
        ⟨-, hrun⟩ | ⟨hadv, r, hrun, hwhy⟩
      · rw [hrun]
        cases flag with
        | false =>
          rw [registerBlock_eq]
          exact .keeps hj hf
        | true =>
          cases balances with
          | none => exact .keeps hj hf
          | some bs =>
            rw [registerBlock_eq]
            exact .justifies rfl hf (hlater rfl)
      · rw [hf] at hadv
        rw [hj, getAncestor_congr hpa] at hwhy
        rw [hrun]
        cases r with
        | error e => exact .finalizes hadv rfl hj
        | ok update =>
          cases update with
          | false =>
            rw [registerBlock_eq]
            exact .finalizes hadv rfl hj
          | true =>
            cases balances with
            | none => exact .finalizes hadv rfl hj
            | some bs =>
              rw [registerBlock_eq]
              rcases hwhy rfl with h | h | ⟨root, hanc, hne⟩
              · exact .finalizesLater hadv rfl rfl h
              · exact .finalizesLater hadv rfl rfl (hlater h)
              · exact .finalizesOther root hadv rfl rfl hcheck rfl hanc hne

variable {fc : ForkChoice} {block : ForkBlock} {state : ForkState}

/-- **A block that finalizes without justifying more** replaces the justified checkpoint when the ancestor at the old finalized
slot is not the newly finalized block. -/
theorem onBlock_finalizesOther {root : HexRoot} (hcheck : fc.checkBlock P block = .ok ())
    (hle : state.currentJustifiedCheckpoint.epoch ≤ fc.fcStore.justifiedCheckpoint.epoch)
    (hfinalizes : fc.fcStore.finalizedCheckpoint.epoch < state.finalizedCheckpoint.epoch)
    (hanc : fc.getAncestor fc.fcStore.justifiedCheckpoint.root
      (computeStartSlotAtEpoch P fc.fcStore.finalizedCheckpoint.epoch) = .ok root)
    (hne : root ≠ state.finalizedCheckpoint.root) (balances : List Nat) :
    fc.onBlock P block state (some balances) =
      ((fc.finalize state).updateJustified state.currentJustifiedCheckpoint balances).registerBlock P block state := by
  obtain ⟨-, -, -, hno⟩ := noteJustified_cases (P := P) fc state (some balances)
  have hfin : fc.noteFinalized state (computeStartSlotAtEpoch P fc.fcStore.finalizedCheckpoint.epoch) false =
      (.ok true, fc.finalize state) := by
    have hsame := getAncestor_finalize fc state fc.fcStore.justifiedCheckpoint.root
      (computeStartSlotAtEpoch P fc.fcStore.finalizedCheckpoint.epoch)
    unfold finalize at hsame ⊢
    unfold noteFinalized
    rw [if_pos hfinalizes]
    rw [if_neg (fun hc => absurd hc.2 (Nat.not_lt.2 hle)), hsame, hanc]
    simp only [Bool.false_or, hne, ne_eq, not_false_eq_true, decide_true]
  unfold onBlock
  rw [hcheck]
  rw [hno hle]
  dsimp only
  rw [hfin]

theorem ReplacesDescendant.replaces {balances : Option (List Nat)} (h : ReplacesDescendant P fc block state balances) :
    (fc.onBlock P block state balances).2.fcStore.justifiedCheckpoint = state.currentJustifiedCheckpoint ∧
    (fc.onBlock P block state balances).2.fcStore.finalizedCheckpoint = state.finalizedCheckpoint := by
  obtain ⟨root, hanc, hne⟩ := h.oldAncestor
  obtain ⟨bs, rfl⟩ := Option.isSome_iff_exists.1 h.balances
  rw [onBlock_finalizesOther h.accepted h.notLater h.finalizes hanc hne bs, registerBlock_eq]
  exact ⟨rfl, rfl⟩

theorem justifiedRule_iff (fc : ForkChoice) (block : ForkBlock) (state : ForkState) (balances : Option (List Nat)) :
    JustifiedRule P fc block state balances ↔ ¬ ReplacesDescendant P fc block state balances := by
  constructor
  · intro hrule hbad
    obtain ⟨hj, hf⟩ := hbad.replaces
    unfold JustifiedRule at hrule
    rw [hj, hf] at hrule
    rcases hrule hbad.finalizes hbad.another with h | h
    · exact absurd h (Nat.not_lt.2 hbad.notLater)
    · exact h hbad.descends
  · intro hgood hadv hrep
    cases onBlock_store (P := P) fc block state balances with
    | keeps _ hf => rw [hf] at hadv; omega
    | justifies _ hf _ => rw [hf] at hadv; omega
    | finalizes _ _ hj => exact absurd hj hrep
    | finalizesLater _ _ _ hlater => exact .inl hlater
    | finalizesOther root hfin hf hj hcheck hbal hanc hne =>
      by_cases hlater : fc.fcStore.justifiedCheckpoint.epoch < state.currentJustifiedCheckpoint.epoch
      · exact .inl hlater
      · right
        rw [hf]
        intro hdesc
        rw [hj] at hrep
        exact hgood ⟨hcheck, hbal, hfin, Nat.le_of_not_lt hlater, hrep, hdesc, root, hanc, hne⟩

/-! ## Runs -/

def Op.FollowsRule (P : Preset) (fc : ForkChoice) : Op → Prop
  | .onBlock block state justifiedBalances => ¬ ReplacesDescendant P fc block state justifiedBalances
  | _ => True

/-- The justified block from before the call descends from the finalized checkpoint after it. -/
def Op.KeepsDescent (P : Preset) (fc : ForkChoice) (op : Op) : Prop :=
  fc.JustifiedDescends P (op.run P fc).fcStore.finalizedCheckpoint

instance (P : Preset) (fc : ForkChoice) (op : Op) : Decidable (op.KeepsDescent P fc) :=
  inferInstanceAs (Decidable (fc.JustifiedDescends P _))

theorem onTick_justified (fc : ForkChoice) (time : Nat) :
    fc.fcStore.justifiedCheckpoint.epoch ≤ (fc.onTick P time).2.fcStore.justifiedCheckpoint.epoch := by
  unfold onTick
  split
  · exact Nat.le_refl _
  · dsimp only
    split
    · exact Nat.le_refl _
    · split
      · rename_i hlt
        exact Nat.le_of_lt hlt
      · exact Nat.le_refl _

theorem updateTime_justified (fc : ForkChoice) (slot : Nat) :
    fc.fcStore.justifiedCheckpoint.epoch ≤ (fc.updateTime P slot).2.fcStore.justifiedCheckpoint.epoch := by
  refine updateTime_keeps (Q := fun fc' => fc.fcStore.justifiedCheckpoint.epoch ≤ fc'.fcStore.justifiedCheckpoint.epoch)
    (fun fc' slot hle => hle.trans (onTick_justified fc' slot)) (fun fc' hle => ?_) (Nat.le_refl _) slot
  rw [(processAttestationQueue_onlyVotes fc').fcStore]
  exact hle

theorem Op.justified_mono (fc : ForkChoice) (op : Op) (hrule : op.FollowsRule P fc) (hdesc : op.KeepsDescent P fc) :
    fc.fcStore.justifiedCheckpoint.epoch ≤ (op.run P fc).fcStore.justifiedCheckpoint.epoch := by
  cases op with
  | onBlock block state balances =>
    have hr := (justifiedRule_iff fc block state balances).2 hrule
    simp only [Op.run] at hdesc ⊢
    by_cases hrep : (fc.onBlock P block state balances).2.fcStore.justifiedCheckpoint = fc.fcStore.justifiedCheckpoint
    · rw [hrep]
    cases onBlock_store (P := P) fc block state balances with
    | keeps hj _ => exact absurd hj hrep
    | justifies hj _ hlater => rw [hj]; omega
    | finalizes _ _ hj => exact absurd hj hrep
    | finalizesLater _ _ hj hlater => rw [hj]; omega
    | finalizesOther root hfin hf hj _ _ _ _ =>
      rcases hr (by rw [hf]; exact hfin) hrep with hlater | hno
      · rw [hj]; omega
      · exact absurd hdesc hno
  | onAttestation attestation =>
    simp only [Op.run]
    rw [(onAttestation_onlyVotes P fc attestation).fcStore]
  | updateTime slot => exact updateTime_justified fc slot
  | prune root =>
    simp only [Op.run]
    rw [prune_eq]
  | updateHead =>
    simp only [Op.run]
    rw [(updateHead_frame fc).1]

theorem justified_mono_along : ∀ (ops : List Op) (fc : ForkChoice),
    Along P (fun fc op => op.FollowsRule P fc ∧ op.KeepsDescent P fc) fc ops →
    fc.fcStore.justifiedCheckpoint.epoch ≤ (runOps P fc ops).fcStore.justifiedCheckpoint.epoch
  | [], _, _ => Nat.le_refl _
  | op :: ops, fc, ⟨hop, hrest⟩ =>
    Nat.le_trans (Op.justified_mono fc op hop.1 hop.2) (justified_mono_along ops (op.run P fc) hrest)

/-- **The rule for the justified checkpoint**: a call of `onBlock` follows it exactly when it is not one that replaces a
descendant, and along every run of calls that follow it the justified epoch never decreases while the justified block
descends from the finalized checkpoint. -/
theorem onBlock_justified_iff (P : Preset) : (∀ fc block state balances,
      JustifiedRule P fc block state balances ↔ ¬ ReplacesDescendant P fc block state balances) ∧
    ∀ fc ops, Along P (fun fc op => op.FollowsRule P fc ∧ op.KeepsDescent P fc) fc ops →
      fc.fcStore.justifiedCheckpoint.epoch ≤ (runOps P fc ops).fcStore.justifiedCheckpoint.epoch :=
  ⟨justifiedRule_iff, fun fc ops h => justified_mono_along ops fc h⟩

/-- Two branches above "b": "d" and "g" justify epoch 3, "e" waits for its child. -/
def branches : List Op :=
  [.updateTime 40,
   .onBlock ⟨8, "a", "b", "b"⟩ (stateAt 8 ⟨0, "a"⟩ ⟨0, "a"⟩) none,
   .onBlock ⟨24, "b", "d", "d"⟩ (stateAt 24 ⟨0, "a"⟩ ⟨0, "a"⟩) none,
   .onBlock ⟨16, "b", "e", "e"⟩ (stateAt 16 ⟨0, "a"⟩ ⟨0, "a"⟩) none,
   .onBlock ⟨32, "d", "g", "g"⟩ (stateAt 32 ⟨3, "d"⟩ ⟨0, "a"⟩) (some [1])]

theorem onBlock_justified_branches :
    (atGenesis.fcStore.justifiedCheckpoint.epoch ≤ (runOps minimal atGenesis branches).fcStore.justifiedCheckpoint.epoch) ∧
    (runOps minimal atGenesis branches).fcStore.justifiedCheckpoint = ⟨3, "d"⟩ :=
  ⟨(onBlock_justified_iff minimal).2 atGenesis branches
    ⟨⟨trivial, by decide⟩, ⟨fun h => absurd h.finalizes (by decide), by decide⟩,
      ⟨fun h => absurd h.finalizes (by decide), by decide⟩, ⟨fun h => absurd h.finalizes (by decide), by decide⟩,
      ⟨fun h => absurd h.finalizes (by decide), by decide⟩, trivial⟩, by decide⟩

/-- Block "f" finalizes "b", of which the justified block "d" is a descendant, and justifies "e" of an older epoch. -/
theorem onBlock_replaces_descendant :
    let fc := runOps minimal atGenesis branches
    let fc' := (fc.onBlock minimal ⟨33, "e", "f", "f"⟩ (stateAt 33 ⟨2, "e"⟩ ⟨1, "b"⟩) (some [1])).2
    fc.JustifiedDescends minimal ⟨1, "b"⟩ ∧ fc'.fcStore.finalizedCheckpoint = ⟨1, "b"⟩ ∧
      fc.fcStore.justifiedCheckpoint = ⟨3, "d"⟩ ∧ fc'.fcStore.justifiedCheckpoint = ⟨2, "e"⟩ ∧
      ¬ JustifiedRule minimal fc ⟨33, "e", "f", "f"⟩ (stateAt 33 ⟨2, "e"⟩ ⟨1, "b"⟩) (some [1]) := by
  unfold JustifiedRule JustifiedDescends
  decide

end ForkChoice

end Lodestar
