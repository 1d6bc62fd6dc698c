import Lodestar.Chain.RegenAgrees
/-!
# SeedStates — where the search for a seed ends

`getState` looks for a seed among the ancestors of the block, with the blocks that `iterateBlockSummaries` returns.  These are the
ancestors in the tree without the last one, the anchor, so that the state of the anchor is never a seed.
-/
namespace Lodestar

open Lib Forest

variable {State SignatureSet : Type} {P : Preset}

namespace ForkChoice

def ancestors (fc : ForkChoice) (block : ProtoBlock) : List ProtoBlock :=
  match fc.protoArray.indices.get? block.parentRoot with
  | none => []
  | some parent => (fc.protoArray.nodesAt (path fc.protoArray.parentOf parent)).map (·.toProtoBlock)

def belowAnchor (fc : ForkChoice) (block : ProtoBlock) : List ProtoBlock := (fc.ancestors block).dropLast

variable {fc : ForkChoice}

theorem iterateBlocks_parentRoot (h : fc.protoArray.WellFormed) (block : ProtoBlock) :
    fc.iterateBlocks block.parentRoot = .ok (fc.belowAnchor block) := by
  unfold iterateBlocks belowAnchor ancestors
  cases hparent : fc.protoArray.indices.get? block.parentRoot with
  | none =>
    have hnone : fc.protoArray.iterateNodes block.parentRoot = .ok [] := by
      unfold ProtoArray.iterateNodes
      rw [hparent]
    rw [hnone]
    rfl
  | some parent =>
    rw [ProtoArray.iterateNodes_eq h hparent]
    exact congrArg Except.ok List.dropLast_eq_take.symm

def OnlyOfStateRoot (fc : ForkChoice) (block : ProtoBlock) : Prop :=
  ∀ other ∈ fc.forwardIterateBlocks, other.stateRoot = block.stateRoot → other = block

theorem OnlyOfStateRoot.find?_eq {block : ProtoBlock} (h : fc.OnlyOfStateRoot block) (hmem : block ∈ fc.forwardIterateBlocks) :
    (fc.forwardIterateBlocks.find? fun summary => summary.stateRoot = block.stateRoot) = some block := by
  cases hfind : fc.forwardIterateBlocks.find? fun summary => summary.stateRoot = block.stateRoot with
  | none =>
    have hnot := List.find?_eq_none.1 hfind block hmem
    rw [decide_eq_true_eq] at hnot
    exact absurd rfl hnot
  | some other =>
    have hroot := List.find?_some hfind
    rw [decide_eq_true_eq] at hroot
    rw [h other (List.mem_of_find?_eq_some hfind) hroot]

end ForkChoice

namespace StateRegenerator

/-! ## The search -/

/-- One of the caches has a seed: the state of the ancestor, or one of its checkpoint states from before the child. -/
def HasSeed (P : Preset) (caches : StateCaches State) (child ancestor : ProtoBlock) : Prop :=
  caches.stateCache.get ancestor.stateRoot ≠ none ∨
    caches.checkpointStateCache.getLatest ancestor.blockRoot (computeEpochAtSlotInt P ((child.slot : Int) - 1)) ≠ none

theorem findSeed_eq_none_iff {caches : StateCaches State} : ∀ (ancestors : List ProtoBlock) (last : ProtoBlock) (later : List ProtoBlock),
    findSeed P caches last later ancestors = none ↔ ∀ step ∈ (last :: ancestors).zip ancestors, ¬ HasSeed P caches step.1 step.2
  | [], _, _ => iff_of_true rfl fun _ hstep => absurd hstep List.not_mem_nil
  | b :: ancestors, last, later => by
    rw [List.zip_cons_cons, List.forall_mem_cons]
    unfold findSeed HasSeed
    cases hstate : caches.stateCache.get b.stateRoot with
    | some state => exact iff_of_false (Option.some_ne_none _) fun h => h.1 (.inl (Option.some_ne_none state))
    | none =>
      cases hcheckpoint : caches.checkpointStateCache.getLatest b.blockRoot (computeEpochAtSlotInt P ((last.slot : Int) - 1)) with
      | some state => exact iff_of_false (Option.some_ne_none _) fun h => h.1 (.inr (Option.some_ne_none state))
      | none =>
        rw [findSeed_eq_none_iff ancestors b (last :: later)]
        refine (and_iff_right ?_).symm
        rintro (h | h)
        · exact h rfl
        · exact h rfl

theorem replay_seed (regen : StateRegenerator State SignatureSet) : ∀ (blocks : List ProtoBlock) (state : State) (w : World),
    (regen.replay P blocks state w).1 ≠ .error (.regenError .NO_SEED_STATE)
  | [], _, _ => by
    intro h
    cases h
  | b :: blocks, state, w => by
    unfold replay
    dsimp only
    split
    · intro h
      cases h
    · split
      · intro h
        cases h
      · exact replay_seed regen blocks _ _

/-! ## getState -/

variable {regen : StateRegenerator State SignatureSet} {now : Moment State} {block : ProtoBlock}

/-- **`getState` of a block of the tree finds a seed** exactly where its own state is cached, or an ancestor other than the anchor
has a seed in one of the caches. -/
theorem getState_seed_iff (hreachable : ForkChoice.Reachable P now.world.forkChoice) (hblock : block ∈ now.world.forkChoice.forwardIterateBlocks)
    (honly : now.world.forkChoice.OnlyOfStateRoot block) :
    (regen.getState P now block.stateRoot).1 ≠ .error (.regenError .NO_SEED_STATE) ↔
      now.caches.stateCache.get block.stateRoot ≠ none ∨
        ∃ step ∈ (block :: now.world.forkChoice.belowAnchor block).zip (now.world.forkChoice.belowAnchor block),
          HasSeed P now.caches step.1 step.2 := by
  unfold getState
  dsimp only
  cases hcached : now.caches.stateCache.get block.stateRoot with
  | some state => exact iff_of_true nofun (.inl (Option.some_ne_none state))
  | none =>
    rw [honly.find?_eq hblock]
    dsimp only
    rw [ForkChoice.iterateBlocks_parentRoot hreachable.synced.wellFormed]
    dsimp only
    rw [or_iff_right fun h => h rfl]
    cases hseed : findSeed P now.caches block [] (now.world.forkChoice.belowAnchor block) with
    | none =>
      refine iff_of_false (fun h => h rfl) ?_
      rintro ⟨step, hstep, hhas⟩
      exact (findSeed_eq_none_iff _ block []).1 hseed step hstep hhas
    | some seed =>
      have hsome : ∃ step ∈ (block :: now.world.forkChoice.belowAnchor block).zip (now.world.forkChoice.belowAnchor block),
          HasSeed P now.caches step.1 step.2 := by
        by_contra hnot
        have hnone := (findSeed_eq_none_iff _ block []).2 fun step hstep hhas => hnot ⟨step, hstep, hhas⟩
        rw [hseed] at hnone
        cases hnone
      refine iff_of_true ?_ hsome
      dsimp only
      split
      · nofun
      · exact replay_seed regen _ _ _

/-- The tree of "a", "b" and "c", and a checkpoint state of "b" is a seed for "c". -/
theorem getState_seed_checkpoint :
    (threeRegen.getState minimal withCheckpoint "sc").1 ≠ .error (.regenError .NO_SEED_STATE) := by
  have hbelow : withCheckpoint.world.forkChoice.belowAnchor ⟨20, "c", "b", "sc", "c", 0, 0⟩ = [⟨3, "b", "a", "sb", "b", 0, 0⟩] := by
    decide +kernel
  have hmem : (⟨20, "c", "b", "sc", "c", 0, 0⟩ : ProtoBlock) ∈ withCheckpoint.world.forkChoice.forwardIterateBlocks := by
    decide
  have honly : withCheckpoint.world.forkChoice.OnlyOfStateRoot ⟨20, "c", "b", "sc", "c", 0, 0⟩ := by
    unfold ForkChoice.OnlyOfStateRoot
    decide
  refine (@getState_seed_iff _ _ minimal threeRegen withCheckpoint ⟨20, "c", "b", "sc", "c", 0, 0⟩ threeWorld_reachable hmem honly).2
    (.inr ⟨(⟨20, "c", "b", "sc", "c", 0, 0⟩, ⟨3, "b", "a", "sb", "b", 0, 0⟩), ?_, .inr ?_⟩)
  · rw [hbelow]
    exact List.mem_cons_self
  · decide +kernel

/-! ## Only the anchor's state -/

def withAnchor : Moment (Nat × List HexRoot) where
  caches := { stateCache := ⟨OrderedMap.empty.set "sa" (0, [])⟩, checkpointStateCache := ⟨.empty, .empty⟩ }
  world := threeWorld

def blocksBetween (fc : ForkChoice) (block ancestor : ProtoBlock) : List ProtoBlock :=
  block :: (fc.ancestors block).takeWhile fun between => decide (between ≠ ancestor)

/-- The state of "a" is cached, "b" is its child, and there is no seed for "b". -/
theorem anchor_no_seed : ¬ ∀ (P : Preset) (regen : StateRegenerator (Nat × List HexRoot) Unit) (now : Moment (Nat × List HexRoot))
    (block ancestor : ProtoBlock), ForkChoice.Reachable P now.world.forkChoice → block ∈ now.world.forkChoice.forwardIterateBlocks →
    now.world.forkChoice.OnlyOfStateRoot block → ancestor ∈ now.world.forkChoice.ancestors block →
    now.caches.stateCache.get ancestor.stateRoot ≠ none →
    (∀ between ∈ blocksBetween now.world.forkChoice block ancestor, ∀ w, regen.getBlock w between.blockRoot ≠ none) →
    (blocksBetween now.world.forkChoice block ancestor).length ≤ MAX_EPOCH_TO_PROCESS * P.SLOTS_PER_EPOCH →
    (regen.getState P now block.stateRoot).1 ≠ .error (.regenError .NO_SEED_STATE) := by
  intro h
  have hnodes : withAnchor.world.forkChoice.forwardIterateBlocks = _ := threeWorld_blocks
  have hancestors : withAnchor.world.forkChoice.ancestors ⟨3, "b", "a", "sb", "b", 0, 0⟩ = [⟨0, "a", "z", "sa", "a", 0, 0⟩] := by
    decide +kernel
  have hbetween : blocksBetween withAnchor.world.forkChoice ⟨3, "b", "a", "sb", "b", 0, 0⟩ ⟨0, "a", "z", "sa", "a", 0, 0⟩ =
      [⟨3, "b", "a", "sb", "b", 0, 0⟩] := by
    rfl
  have hthrows : (threeRegen.getState minimal withAnchor "sb").1 = .error (.regenError .NO_SEED_STATE) := by decide +kernel
  refine h minimal threeRegen withAnchor ⟨3, "b", "a", "sb", "b", 0, 0⟩ ⟨0, "a", "z", "sa", "a", 0, 0⟩ threeWorld_reachable ?_ ?_ ?_ ?_
    ?_ ?_ hthrows
  · rw [hnodes]
    exact List.mem_cons_of_mem _ List.mem_cons_self
  · unfold ForkChoice.OnlyOfStateRoot
    decide
  · rw [hancestors]
    exact List.mem_cons_self
  · decide +kernel
  · rw [hbetween]
    intro between hmem w
    rw [List.mem_singleton.1 hmem]
    exact Option.some_ne_none _
  · rw [hbetween]
    decide

end StateRegenerator

end Lodestar
