import Lodestar.ForkChoice.ForkChoiceRuns
/-!
# HeadEpochs — the epochs the head is found for

The block tree keeps its own copy of the two epochs.  The flag `synced` and the guard in `applyScoreChanges` decide when it
is refreshed: a change of the justified epoch always gets through (`Synced`), a change of the finalized epoch alone never
does, since the guard compares that epoch with itself.  `updateHead_epochs_iff` says what that leaves.
-/
namespace Lodestar

open Lib

namespace ForkChoice

def ViableFor (justifiedEpoch finalizedEpoch : Nat) (block : ProtoBlock) : Prop :=
  (block.justifiedEpoch = justifiedEpoch ∨ justifiedEpoch = GENESIS_EPOCH) ∧
  (block.finalizedEpoch = finalizedEpoch ∨ finalizedEpoch = GENESIS_EPOCH)

/-- The epochs of the block tree are those of the store, and the head is viable for them. -/
structure HeadInStep (fc : ForkChoice) (head : ProtoBlock) : Prop where
  justified : fc.protoArray.justifiedEpoch = fc.fcStore.justifiedCheckpoint.epoch
  finalized : fc.protoArray.finalizedEpoch = fc.fcStore.finalizedCheckpoint.epoch
  viable : ViableFor fc.fcStore.justifiedCheckpoint.epoch fc.fcStore.finalizedCheckpoint.epoch head

/-! ## The flag -/

/-- What the flag promises: the justified epoch of the block tree is that of the store. -/
structure Synced (fc : ForkChoice) : Prop where
  wellFormed : fc.protoArray.WellFormed
  justified : fc.synced = true → fc.protoArray.justifiedEpoch = fc.fcStore.justifiedCheckpoint.epoch

namespace Synced

variable {fc fc' : ForkChoice} (h : Synced fc)

include h

theorem onlyVotes (hv : OnlyVotes fc fc') : Synced fc' := by
  refine ⟨by rw [hv.protoArray]; exact h.wellFormed, fun hs => ?_⟩
  rw [hv.protoArray, hv.fcStore]
  exact h.justified (hv.synced hs)

theorem onlyStore (hst : OnlyStore fc fc') : Synced fc' := by
  refine ⟨by rw [hst.protoArray]; exact h.wellFormed, fun hs => ?_⟩
  rcases hst.justified with ⟨hj, -, hsame⟩ | hno
  · rw [hst.protoArray, hj]
    exact h.justified (hsame ▸ hs)
  · rw [hno] at hs
    cases hs

theorem setTree {s : ProtoArray} (hwf : s.WellFormed) (hj : s.justifiedEpoch = fc.protoArray.justifiedEpoch) :
    Synced { fc with protoArray := s } :=
  ⟨hwf, fun hs => hj.trans (h.justified hs)⟩

theorem registerBlock (P : Preset) (block : ForkBlock) (state : ForkState) :
    Synced (fc.registerBlock P block state).2 := by
  obtain ⟨s, hrun, hwf, hj, -⟩ := ProtoArray.onBlock_run h.wellFormed (toProtoBlock P block state)
  rw [registerBlock_eq, hrun]
  exact h.setTree hwf hj

theorem prune (root : HexRoot) : Synced (fc.prune root).2 := by
  rw [prune_eq]
  rcases ProtoArray.maybePrune_cuts h.wellFormed root with heq | ⟨f, -, hcut⟩
  · rw [heq]
    exact h
  · exact h.setTree (hcut.wellFormed h.wellFormed) hcut.justifiedEpoch

theorem sync_run : ∃ fc', fc.sync = (.ok (), fc') ∧ Synced fc' ∧ fc'.fcStore = fc.fcStore ∧
    fc'.protoArray.justifiedEpoch = fc.fcStore.justifiedCheckpoint.epoch ∧
    fc'.protoArray.finalizedEpoch = if fc.protoArray.justifiedEpoch = fc.fcStore.justifiedCheckpoint.epoch
      then fc.protoArray.finalizedEpoch else fc.fcStore.finalizedCheckpoint.epoch := by
  cases hs : fc.synced with
  | true =>
    have hj := h.justified hs
    refine ⟨fc, ?_, h, rfl, hj, by rw [if_pos hj]⟩
    unfold ForkChoice.sync
    rw [hs]
    rfl
  | false =>
    obtain ⟨votes, s', hrun, hwf, -, hj, hf, -⟩ := ForkChoice.sync_run h.wellFormed hs
    unfold ProtoArray.withEpochs at hj hf
    by_cases heq : fc.protoArray.justifiedEpoch = fc.fcStore.justifiedCheckpoint.epoch
    · rw [if_neg (by simpa using heq.symm)] at hj hf
      exact ⟨_, hrun, ⟨hwf, fun _ => hj.trans heq⟩, rfl, hj.trans heq, by rw [if_pos heq]; exact hf⟩
    · rw [if_pos (.inl (Ne.symm heq))] at hj hf
      exact ⟨_, hrun, ⟨hwf, fun _ => hj⟩, rfl, hj, by rw [if_neg heq]; exact hf⟩

theorem updateHead : Synced fc.updateHead.2 := by
  obtain ⟨fc₁, hrun, hs, -⟩ := h.sync_run
  obtain ⟨head, heq⟩ := updateHead_eq fc
  rw [heq, hrun]
  exact ⟨hs.wellFormed, hs.justified⟩

theorem op (P : Preset) (op : Op) : Synced (op.run P fc) := by
  cases op with
  | onBlock block state balances =>
    obtain ⟨fc₁, hst, ⟨e, heq⟩ | heq⟩ := onBlock_parts (P := P) fc block state balances
    · simp only [Op.run]
      rw [heq]
      exact h.onlyStore hst
    · simp only [Op.run]
      rw [heq]
      exact (h.onlyStore hst).registerBlock P block state
  | onAttestation attestation => exact h.onlyVotes (onAttestation_onlyVotes P fc attestation)
  | updateTime slot =>
    obtain ⟨fc₁, hst, hv⟩ := updateTime_parts (P := P) fc slot
    exact (h.onlyStore hst).onlyVotes hv
  | prune root => exact h.prune root
  | updateHead => exact h.updateHead

end Synced

variable {s : ProtoArray}

/-- A fork choice that a run of the methods reaches from its construction, whatever block tree it was given. -/
def Reachable (P : Preset) (fc : ForkChoice) : Prop :=
  ∃ (pruneThreshold justifiedEpoch finalizedEpoch : Nat) (blocks : List ProtoArray.Op) (fcStore : ForkChoiceStore)
    (queue : List QueuedAttestation) (balances : List Nat) (ops : List Op),
    fc = runOps P (construct fcStore (ProtoArray.runOps (ProtoArray.new pruneThreshold justifiedEpoch finalizedEpoch) blocks)
      queue balances) ops

theorem Reachable.synced {P : Preset} {fc : ForkChoice} (h : Reachable P fc) : Synced fc := by
  obtain ⟨pruneThreshold, justifiedEpoch, finalizedEpoch, blocks, fcStore, queue, balances, ops, rfl⟩ := h
  have htree := ProtoArray.WellFormed.runOps blocks (ProtoArray.WellFormed.new pruneThreshold justifiedEpoch finalizedEpoch)
  exact List.foldlRecOn ops _ ⟨htree, fun hs => by cases hs⟩ fun _ h op _ => h.op P op

/-! ## The head -/

theorem viableFor_iff {node : ProtoNode} :
    s.nodeIsViableForHead node = true ↔ ViableFor s.justifiedEpoch s.finalizedEpoch node.toProtoBlock := by
  unfold ProtoArray.nodeIsViableForHead ViableFor GENESIS_EPOCH
  simp only [Bool.and_eq_true, Bool.or_eq_true, beq_iff_eq]

theorem findHead_viable {root headRoot : HexRoot} (h : s.findHead root = .ok headRoot) :
    ∃ (i : Nat) (node : ProtoNode), s.nodes[i]? = some node ∧ node.blockRoot = headRoot ∧
      ViableFor s.justifiedEpoch s.finalizedEpoch node.toProtoBlock := by
  unfold ProtoArray.findHead at h
  split at h
  · cases h
  · split at h
    · cases h
    · dsimp only at h
      split at h
      · cases h
      · rename_i justifiedNode _ bestNode hbest
        split at h
        · cases h
        · rename_i hviable
          injection h with hroot
          exact ⟨_, bestNode, hbest, hroot, viableFor_iff.1 (by simpa using hviable)⟩

theorem updateHead_viable {fc fc₁ fc' : ForkChoice} {head : ProtoBlock} (hwf : fc₁.protoArray.WellFormed)
    (hsync : fc.sync = (.ok (), fc₁)) (hrun : fc.updateHead = (.ok head, fc')) :
    fc'.protoArray = fc₁.protoArray ∧ fc'.fcStore = fc₁.fcStore ∧
      ViableFor fc₁.protoArray.justifiedEpoch fc₁.protoArray.finalizedEpoch head := by
  unfold updateHead at hrun
  rw [hsync] at hrun
  dsimp only at hrun
  split at hrun
  · cases hrun
  · rename_i headRoot hfind
    split at hrun
    · cases hrun
    · rename_i i hi
      split at hrun
      · cases hrun
      · rename_i headNode hnode
        cases hrun
        obtain ⟨j, node, hj, hroot, hviable⟩ := findHead_viable hfind
        -- the index of the root is the place of the node that was found
        have hij := hwf.get?_iff.2 ⟨node, hj, hroot⟩
        rw [hi] at hij
        cases hij
        rw [hnode] at hj
        cases hj
        exact ⟨rfl, rfl, hviable⟩

/-- **When the head is found for the epochs of the store**: on every fork choice that a run reaches, and for every call that
returns, exactly when the block tree already has the finalized epoch or the justified epoch differs as well. -/
theorem updateHead_epochs_iff (P : Preset) (fc : ForkChoice) (hfc : Reachable P fc) (head : ProtoBlock) (fc' : ForkChoice)
    (hrun : fc.updateHead = (.ok head, fc')) :
    HeadInStep fc' head ↔ fc.protoArray.finalizedEpoch = fc.fcStore.finalizedCheckpoint.epoch ∨
      fc.protoArray.justifiedEpoch ≠ fc.fcStore.justifiedCheckpoint.epoch := by
  have hs := hfc.synced
  obtain ⟨fc₁, hsync, hs₁, hstore, hj, hf⟩ := hs.sync_run
  obtain ⟨htree', hstore', hviable⟩ := updateHead_viable hs₁.wellFormed hsync hrun
  constructor
  · intro hin
    have hfin := hin.finalized
    rw [htree', hstore', hstore, hf] at hfin
    by_cases heq : fc.protoArray.justifiedEpoch = fc.fcStore.justifiedCheckpoint.epoch
    · rw [if_pos heq] at hfin
      exact .inl hfin
    · exact .inr heq
  · intro hcond
    have hfin : fc₁.protoArray.finalizedEpoch = fc.fcStore.finalizedCheckpoint.epoch := by
      rw [hf]
      split
      · rename_i heq
        exact hcond.resolve_right (fun hne => hne heq)
      · rfl
    rw [hj, hfin] at hviable
    refine ⟨?_, ?_, ?_⟩
    · rw [htree', hstore', hstore, hj]
    · rw [htree', hstore', hstore, hfin]
    · rw [hstore', hstore]
      exact hviable

def justifiedC (last : List Op) : ForkChoice :=
  runOps minimal atGenesis
    ([.updateTime 40, .onBlock ⟨8, "a", "b", "b"⟩ (stateAt 8 ⟨0, "a"⟩ ⟨0, "a"⟩) none,
      .onBlock ⟨16, "b", "c", "c"⟩ (stateAt 16 ⟨0, "a"⟩ ⟨0, "a"⟩) none,
      .onBlock ⟨24, "c", "x", "x"⟩ (stateAt 24 ⟨2, "c"⟩ ⟨0, "a"⟩) (some [1])] ++ last)

theorem updateHead_epochs_justified : ∃ head fc', (justifiedC []).updateHead = (.ok head, fc') ∧ HeadInStep fc' head := by
  obtain ⟨head, hok⟩ : ∃ head, (justifiedC []).updateHead.1 = .ok head := ⟨_, rfl⟩
  have hrun : (justifiedC []).updateHead = (.ok head, (justifiedC []).updateHead.2) := Prod.ext hok rfl
  have hfc : Reachable minimal (justifiedC []) :=
    ⟨0, 0, 0, [.onBlock ⟨0, "a", "z", "a", "a", 0, 0⟩], _, _, _, _, rfl⟩
  exact ⟨head, _, hrun, (updateHead_epochs_iff minimal _ hfc head _ hrun).2 (.inr (by decide))⟩

/-- Block "d" finalizes "b" without a new justified epoch: the block tree keeps finalized epoch 0 and finds "x", which is not
viable for the finalized epoch 1 of the store. -/
theorem updateHead_misses_finalized :
    let fc := justifiedC [.updateHead, .onBlock ⟨32, "c", "d", "d"⟩ (stateAt 32 ⟨2, "c"⟩ ⟨1, "b"⟩) (some [1])]
    fc.updateHead.1.toOption.map (·.blockRoot) = some "x" ∧ fc.updateHead.2.protoArray.finalizedEpoch = 0 ∧
      fc.updateHead.2.fcStore.finalizedCheckpoint.epoch = 1 ∧
      ∀ head, fc.updateHead.1 = .ok head → ¬ HeadInStep fc.updateHead.2 head ∧ ¬ ViableFor 2 1 head := by
  intro fc
  have hx : fc.updateHead.1 = .ok ⟨24, "x", "c", "x", "x", 2, 0⟩ := by decide
  refine ⟨by decide, by decide, by decide, fun head hhead => ⟨fun h => ?_, ?_⟩⟩
  · have := h.finalized
    revert this
    decide
  · rw [hx] at hhead
    cases hhead
    unfold ViableFor
    decide

end ForkChoice

end Lodestar
