import Lodestar.ForkChoice.ParentRoots
import Lodestar.Chain.Replayed
/-!
# RegenAgrees — regenerated states are the replayed ones

A seed from a cache is the state of an ancestor, at its own slot or at an epoch start before the next block.  The slots up to
that block are processed anyway, so the replay goes on as it would from the ancestor itself, whichever seed it was.
-/
namespace Lodestar

open Lib

variable {State SignatureSet : Type} {P : Preset} {m : Modules State SignatureSet}

/-! ## True caches, known trees -/

/-- Every entry of the caches is true. -/
structure StateCaches.Truthful (P : Preset) (hist : History m) (caches : StateCaches State) : Prop where
  state : ∀ stateRoot state, caches.stateCache.get stateRoot = some state → StateOfRoot hist stateRoot state
  checkpointState : ∀ cp state, caches.checkpointStateCache.get cp = some state →
    StateAtSlot hist cp.root (computeStartSlotAtEpoch P cp.epoch) state ∧
      ∀ block, hist.block cp.root = some block → block.message.slot ≤ computeStartSlotAtEpoch P cp.epoch

def KnownBlock (hist : History m) (b : ProtoBlock) : Prop :=
  ∃ block, hist.block b.blockRoot = some block ∧ block.message = ⟨b.slot, b.parentRoot, b.stateRoot, b.blockRoot⟩

/-- What a call finds is true: the fork choice is one that its methods reach, of blocks of the history. -/
structure Moment.Truthful (P : Preset) (hist : History m) (now : Moment State) : Prop where
  caches : now.caches.Truthful P hist
  reachable : ForkChoice.Reachable P now.world.forkChoice
  known : ∀ b ∈ now.world.forkChoice.forwardIterateBlocks, KnownBlock hist b

def StoresHistory (regen : StateRegenerator State SignatureSet) (hist : History regen.modules) : Prop :=
  ∀ w root block b, hist.block root = some block → regen.getBlock w root = some b → b = block

variable {hist : History m} {state : State}

theorem StateOfRoot.replayed {b : ProtoBlock} (hknown : KnownBlock hist b) (h : StateOfRoot hist b.stateRoot state) :
    Replayed hist b.blockRoot state := by
  obtain ⟨root, block, hblock, hroot, hreplayed⟩ := h
  obtain ⟨own, hown, hmessage⟩ := hknown
  have hsame : b.blockRoot = root := hist.stateRoot_inj _ _ own block hown hblock (by rw [hmessage, hroot])
  rw [hsame]
  exact hreplayed

theorem StateCaches.Truthful.getLatest {caches : StateCaches State} (h : caches.Truthful P hist) {root : HexRoot} {epoch : Int}
    (hget : caches.checkpointStateCache.getLatest root epoch = some state) {bound : Nat}
    (hbound : ∀ e : Nat, (e : Int) ≤ epoch → computeStartSlotAtEpoch P e ≤ bound) : StateBefore hist root bound state := by
  obtain ⟨e, hle, hentry⟩ := CheckpointStateCache.getLatest_some hget
  obtain ⟨⟨postState, hreplayed, hslots⟩, -⟩ := h.checkpointState ⟨e, root⟩ state hentry
  exact ⟨postState, hreplayed, .inr ⟨_, hbound e hle, hslots⟩⟩

/-! ## Seeds and replay -/

structure Replayable (hist : History m) (target : ProtoBlock) (blocks : List ProtoBlock) : Prop where
  chain : blocks.IsChain fun b b' => b'.parentRoot = b.blockRoot
  known : ∀ b ∈ blocks, KnownBlock hist b
  last : blocks.getLast? = some target

variable {slot e : Nat}

theorem start_le_of_le_before (h : (e : Int) ≤ computeEpochAtSlotInt P ((slot : Int) - 1)) :
    computeStartSlotAtEpoch P e ≤ slot := by
  have hpos : (0 : Int) < P.SLOTS_PER_EPOCH := by exact_mod_cast P.slotsPerEpoch_pos
  have hmul := (Int.le_ediv_iff_mul_le hpos).1 h
  unfold computeStartSlotAtEpoch
  omega

theorem start_le_of_le (h : (e : Int) ≤ (computeEpochAtSlot P slot : Nat)) : computeStartSlotAtEpoch P e ≤ slot := by
  have hle : e ≤ computeEpochAtSlot P slot := by exact_mod_cast h
  exact Nat.le_trans (Nat.mul_le_mul_right _ hle) (Nat.div_mul_le_self _ _)

section Regen

variable {regen : StateRegenerator State SignatureSet} {hist : History regen.modules}

theorem findSeed_before {caches : StateCaches State} (hcaches : caches.Truthful P hist) {target : ProtoBlock} {state : State} :
    ∀ (ancestors : List ProtoBlock) (last : ProtoBlock) (later blocks : List ProtoBlock),
      ProtoArray.Linked last.parentRoot ancestors → (∀ b ∈ ancestors, KnownBlock hist b) →
      Replayable hist target (last :: later) →
      StateRegenerator.findSeed P caches last later ancestors = some (state, blocks) →
      ∃ b rest, blocks = b :: rest ∧ Replayable hist target (b :: rest) ∧ StateBefore hist b.parentRoot b.slot state
  | [], _, _, _, _, _, _, h => by cases h
  | b :: ancestors, last, later, blocks, hlinked, hknown, hreplay, h => by
    obtain ⟨hparent, hrest⟩ := hlinked
    have hb := hknown b List.mem_cons_self
    unfold StateRegenerator.findSeed at h
    split at h
    · rename_i seed hseed
      cases h
      refine ⟨last, later, rfl, hreplay, ?_⟩
      rw [← hparent]
      exact ⟨state, (hcaches.state _ _ hseed).replayed hb, .inl rfl⟩
    · split at h
      · rename_i seed hseed
        cases h
        refine ⟨last, later, rfl, hreplay, ?_⟩
        rw [← hparent]
        exact hcaches.getLatest hseed fun e he => start_le_of_le_before he
      · refine findSeed_before hcaches ancestors b (last :: later) blocks hrest
          (fun c hc => hknown c (List.mem_cons_of_mem _ hc)) ⟨?_, ?_, ?_⟩ h
        · exact List.isChain_cons_cons.2 ⟨hparent.symm, hreplay.chain⟩
        · intro c hc
          rcases List.mem_cons.1 hc with rfl | hc
          · exact hb
          · exact hreplay.known c hc
        · rw [List.getLast?_cons_cons]
          exact hreplay.last

theorem replay_cons {b : ProtoBlock} {blocks : List ProtoBlock} {state result : State} {w w' : World}
    (h : regen.replay P (b :: blocks) state w = (.ok result, w')) :
    ∃ block postState w₁ w₂ w₃, regen.getBlock w₁ b.blockRoot = some block ∧
      runStateTransition P regen.modules StateRegenerator.replayJob block state w₁ = (.ok postState, w₂) ∧
      regen.replay P blocks postState w₃ = (.ok result, w') := by
  rw [StateRegenerator.replay] at h
  split at h
  · cases h
  · rename_i block hblock
    split at h
    · cases h
    · rename_i postState w₂ hrun
      exact ⟨block, postState, _, w₂, _, hblock, hrun, h⟩

section Answers

variable (hlaws : Composes regen.modules) (hdb : StoresHistory regen hist)

include hlaws hdb

theorem runStateTransition_replayed {b : ProtoBlock} (hknown : KnownBlock hist b) {state postState : State}
    (hbefore : StateBefore hist b.parentRoot b.slot state) {block : SignedBeaconBlock} {w w₁ w₂ : World}
    (hget : regen.getBlock w b.blockRoot = some block)
    (hrun : runStateTransition P regen.modules StateRegenerator.replayJob block state w₁ = (.ok postState, w₂)) :
    Replayed hist b.blockRoot postState := by
  obtain ⟨own, hown, hmessage⟩ := hknown
  obtain rfl : block = own := hdb w b.blockRoot own block hown hget
  have htransition := runStateTransition_eq hlaws hrun
  have hparent : block.message.parentRoot = b.parentRoot := by rw [hmessage]
  have hslot : block.message.slot = b.slot := by rw [hmessage]
  obtain ⟨parentState, hreplayed, rfl | ⟨a, ha, hslots⟩⟩ := hbefore
  · exact .step hown (hparent ▸ hreplayed) htransition
  · rw [hlaws.stateTransition_trans hslots (hslot ▸ ha)] at htransition
    exact .step hown (hparent ▸ hreplayed) htransition

theorem replay_replayed {target : ProtoBlock} : ∀ (rest : List ProtoBlock) (b : ProtoBlock) (state result : State) (w w' : World),
    Replayable hist target (b :: rest) → StateBefore hist b.parentRoot b.slot state →
    regen.replay P (b :: rest) state w = (.ok result, w') → Replayed hist target.blockRoot result
  | [], b, state, result, w, w', hreplay, hbefore, h => by
    obtain ⟨block, postState, w₁, w₂, w₃, hget, hrun, hrest⟩ := replay_cons h
    obtain rfl : b = target := Option.some.inj hreplay.last
    cases hrest
    exact runStateTransition_replayed hlaws hdb (hreplay.known b List.mem_cons_self) hbefore hget hrun
  | next :: rest, b, state, result, w, w', hreplay, hbefore, h => by
    obtain ⟨block, postState, w₁, w₂, w₃, hget, hrun, hrest⟩ := replay_cons h
    obtain ⟨hparent, hchain⟩ := List.isChain_cons_cons.1 hreplay.chain
    have hpost := runStateTransition_replayed hlaws hdb (hreplay.known b List.mem_cons_self) hbefore hget hrun
    have hlast : (next :: rest).getLast? = some target := by
      exact hreplay.last
    refine replay_replayed rest next postState result w₃ w' ⟨hchain, fun c hc => hreplay.known c (List.mem_cons_of_mem _ hc), hlast⟩
      ⟨postState, ?_, .inl rfl⟩ hrest
    rw [hparent]
    exact hpost

variable {now : Moment State} (hnow : now.Truthful P hist)

include hnow

variable {state : State} {w' : World}

theorem getState_replayed {stateRoot : HexRoot} (h : regen.getState P now stateRoot = (.ok state, w')) :
    StateOfRoot hist stateRoot state := by
  unfold StateRegenerator.getState at h
  dsimp only at h
  split at h
  · rename_i cached hcached
    cases h
    exact hnow.caches.state _ _ hcached
  · split at h
    · cases h
    · rename_i block hfind
      split at h
      · cases h
      · rename_i ancestors hancestors
        split at h
        · cases h
        · rename_i seed blocksToReplay hseed
          split at h
          · cases h
          · have hwf := hnow.reachable.synced.wellFormed
            obtain ⟨hlinked, hmem⟩ := ForkChoice.iterateBlocks_linked hwf hnow.reachable.parentRoots hancestors
            have hblock := hnow.known block (List.mem_of_find?_eq_some hfind)
            have hsingle : Replayable hist block [block] :=
              ⟨List.isChain_singleton block, fun c hc => List.mem_singleton.1 hc ▸ hblock, rfl⟩
            obtain ⟨b, rest, rfl, hreplay, hbefore⟩ :=
              findSeed_before hnow.caches ancestors block [] _ hlinked (fun c hc => hnow.known c (hmem c hc)) hsingle hseed
            have hreplayed := replay_replayed hlaws hdb rest b seed state _ w' hreplay hbefore h
            obtain ⟨own, hown, hmessage⟩ := hblock
            have hroot : block.stateRoot = stateRoot := by simpa using List.find?_some hfind
            exact ⟨block.blockRoot, own, hown, by rw [hmessage, hroot], hreplayed⟩

theorem getBlockSlotState_replayed {blockRoot : HexRoot} {slot : Nat}
    (h : regen.getBlockSlotState P now blockRoot slot = (.ok state, w')) : StateAtSlot hist blockRoot slot state := by
  unfold StateRegenerator.getBlockSlotState at h
  dsimp only at h
  split at h
  · cases h
  · cases h
  · rename_i block hblock
    split at h
    · cases h
    · rename_i hslot
      obtain ⟨rfl, hmem⟩ := ForkChoice.getBlock_some hnow.reachable.synced.wellFormed hblock
      have hknown := hnow.known block hmem
      have hle : ∀ own, hist.block block.blockRoot = some own → own.message.slot ≤ slot := by
        intro own hown
        obtain ⟨own', hown', hmessage⟩ := hknown
        rw [hown] at hown'
        cases hown'
        rw [hmessage]
        exact Nat.le_of_not_lt hslot
      -- from either start the rest of the slots is processed
      have hfinish : ∀ start w, StateBefore hist block.blockRoot slot start →
          StateRegenerator.passOn (processSlotsByCheckpoint P regen.modules start slot w) = (.ok state, w') →
          StateAtSlot hist block.blockRoot slot state := by
        intro start w hbefore hrun
        have hrun' : ∃ w₁, processSlotsByCheckpoint P regen.modules start slot w = (.ok state, w₁) := by
          unfold StateRegenerator.passOn at hrun
          split at hrun
          · cases hrun
          · rename_i heq
            cases hrun
            exact ⟨_, heq⟩
        obtain ⟨w₁, hrun'⟩ := hrun'
        have hslots := processSlotsByCheckpoint_eq hlaws (hbefore.slot_le hlaws (Nat.le_refl slot) hle) hrun'
        obtain ⟨postState, hreplayed, hsame⟩ := hbefore.processSlots hlaws (Nat.le_refl slot)
        exact ⟨postState, hreplayed, hsame.symm.trans hslots⟩
      split at h
      · rename_i latest hlatest
        exact hfinish latest _ (hnow.caches.getLatest hlatest fun e he => start_le_of_le he) h
      · split at h
        · cases h
        · rename_i blockState w₁ hstate
          have hreplayed := (getState_replayed hlaws hdb hnow hstate).replayed hknown
          exact hfinish blockState w₁ ⟨blockState, hreplayed, .inl rfl⟩ h

variable {block : ForkBlock}

theorem getPreState_replayed (h : regen.getPreState P now block = (.ok state, w')) :
    ∃ parentState, Replayed hist block.parentRoot parentState ∧
      regen.modules.processSlots state block.slot = regen.modules.processSlots parentState block.slot := by
  unfold StateRegenerator.getPreState at h
  dsimp only at h
  split at h
  · cases h
  · cases h
  · rename_i parentBlock hparent
    obtain ⟨hroot, hmem⟩ := ForkChoice.getBlock_some hnow.reachable.synced.wellFormed hparent
    split at h
    · obtain ⟨parentState, hreplayed, hslots⟩ := getBlockSlotState_replayed hlaws hdb hnow h
      exact ⟨parentState, hreplayed, hlaws.processSlots_trans hslots (Nat.div_mul_le_self _ _)⟩
    · have hreplayed := (getState_replayed hlaws hdb hnow h).replayed (hnow.known parentBlock hmem)
      exact ⟨state, hroot ▸ hreplayed, rfl⟩

theorem queued_getPreState_replayed {turn : Except QueueErrorCode (Moment State)}
    (hturn : ∀ later, turn = .ok later → later.Truthful P hist)
    (h : QueuedStateRegenerator.getPreState P regen now turn block = (.ok state, w')) :
    ∃ parentState, Replayed hist block.parentRoot parentState ∧
      regen.modules.processSlots state block.slot = regen.modules.processSlots parentState block.slot := by
  unfold QueuedStateRegenerator.getPreState at h
  dsimp only at h
  split at h
  · cases h
  · cases h
  · rename_i parentBlock hparent
    obtain ⟨hroot, hmem⟩ := ForkChoice.getBlock_some hnow.reachable.synced.wellFormed hparent
    split at h
    · rename_i checkpointState hlatest
      cases h
      split at hlatest
      · exact (hnow.caches.getLatest hlatest fun e he => start_le_of_le he).processSlots hlaws (Nat.le_refl _)
      · cases hlatest
    · split at h
      · rename_i cached hcached
        cases h
        have hreplayed := (hnow.caches.state _ _ hcached).replayed (hnow.known parentBlock hmem)
        exact ⟨state, hroot ▸ hreplayed, rfl⟩
      · unfold QueuedStateRegenerator.push at h
        split at h
        · cases h
        · rename_i later
          exact getPreState_replayed hlaws hdb (hturn later rfl) h

end Answers

inductive PreState (P : Preset) (hist : History regen.modules) (block : ForkBlock) : State → Prop
  | direct {now state w'} (truthful : now.Truthful P hist) (run : regen.getPreState P now block = (.ok state, w')) :
      PreState P hist block state
  | queued {now turn state w'} (truthful : now.Truthful P hist) (later : ∀ later, turn = .ok later → later.Truthful P hist)
      (run : QueuedStateRegenerator.getPreState P regen now turn block = (.ok state, w')) : PreState P hist block state

/-- **Whatever true entries the caches have, what is returned is what a replay from the anchor gives**: the state of a state
root, the state of a block at a slot or at a checkpoint, and, once advanced to the slot of the block, its pre-state. -/
theorem regen_agrees (hlaws : Composes regen.modules) (hdb : StoresHistory regen hist) :
    (∀ now : Moment State, now.Truthful P hist →
      (∀ stateRoot state w', regen.getState P now stateRoot = (.ok state, w') →
        StateOfRoot hist stateRoot state ∧ ∀ other, StateOfRoot hist stateRoot other → other = state) ∧
      (∀ blockRoot slot state w', regen.getBlockSlotState P now blockRoot slot = (.ok state, w') →
        StateAtSlot hist blockRoot slot state ∧ ∀ other, StateAtSlot hist blockRoot slot other → other = state) ∧
      ∀ cp state w', regen.getCheckpointState P now cp = (.ok state, w') →
        StateAtSlot hist cp.root (computeStartSlotAtEpoch P cp.epoch) state ∧
          ∀ other, StateAtSlot hist cp.root (computeStartSlotAtEpoch P cp.epoch) other → other = state) ∧
    ∀ block : ForkBlock,
      (∀ state, PreState P hist block state → ∃ parentState, Replayed hist block.parentRoot parentState ∧
        regen.modules.processSlots state block.slot = regen.modules.processSlots parentState block.slot) ∧
      ∀ state state', PreState P hist block state → PreState P hist block state' →
        regen.modules.processSlots state block.slot = regen.modules.processSlots state' block.slot := by
  have hpre : ∀ (block : ForkBlock) state, PreState P hist block state → ∃ parentState,
      Replayed hist block.parentRoot parentState ∧
        regen.modules.processSlots state block.slot = regen.modules.processSlots parentState block.slot := by
    intro block state h
    cases h with
    | direct truthful run => exact getPreState_replayed hlaws hdb truthful run
    | queued truthful later run => exact queued_getPreState_replayed hlaws hdb truthful later run
  refine ⟨fun now hnow => ⟨fun stateRoot state w' h => ?_, fun blockRoot slot state w' h => ?_, fun cp state w' h => ?_⟩,
    fun block => ⟨hpre block, fun state state' h h' => ?_⟩⟩
  · have hstate := getState_replayed hlaws hdb hnow h
    exact ⟨hstate, fun other hother => hstate.unique hlaws hother⟩
  · have hstate := getBlockSlotState_replayed hlaws hdb hnow h
    exact ⟨hstate, fun other hother => hstate.unique hlaws hother⟩
  · have hstate := getBlockSlotState_replayed hlaws hdb hnow h
    exact ⟨hstate, fun other hother => hstate.unique hlaws hother⟩
  · obtain ⟨parentState, hreplayed, hsame⟩ := hpre block state h
    obtain ⟨parentState', hreplayed', hsame'⟩ := hpre block state' h'
    rw [hsame, hsame', hreplayed.unique hlaws hreplayed']

end Regen

/-! ## Three blocks -/

def logModules : Modules (Nat × List HexRoot) Unit where
  disableBlsBatchVerify := true
  getPreState _ := .error .regenError
  view state := ForkChoice.stateAt state.1 ⟨0, "a"⟩ ⟨0, "a"⟩
  currentShufflingEpoch state := computeEpochAtSlot minimal state.1
  latestBlockRoot state := state.2.getLastD "a"
  processSlots state slot := if state.1 ≤ slot then .ok (slot, state.2) else .error (.error (.message "Too old slot"))
  stateTransition state block _ _ :=
    if state.1 ≤ block.message.slot then .ok (block.message.slot, state.2 ++ [block.message.root])
    else .error (.error (.message "Too old slot"))
  justifiedBalances _ _ := none
  getAllBlockSignatureSets _ _ := .ok []
  getAllBlockSignatureSetsExceptProposer _ _ := .ok []
  verifySignatureSets _ := .ok true
  meanwhile _ := []

theorem logModules_processSlots {state state' : Nat × List HexRoot} {slot : Nat} :
    logModules.processSlots state slot = .ok state' ↔ state.1 ≤ slot ∧ state' = (slot, state.2) := by
  dsimp only [logModules]
  by_cases hle : state.1 ≤ slot
  · rw [if_pos hle]
    constructor
    · intro h
      exact ⟨hle, (Except.ok.inj h).symm⟩
    · rintro ⟨-, rfl⟩
      rfl
  · rw [if_neg hle]
    constructor
    · intro h
      cases h
    · intro h
      exact absurd h.1 hle

theorem logModules_composes : Composes logModules where
  processSlots_slot h := by
    obtain ⟨-, rfl⟩ := logModules_processSlots.1 h
    rfl
  processSlots_self state := logModules_processSlots.2 ⟨Nat.le_refl state.1, rfl⟩
  processSlots_trans {state state' a b} h hle := by
    obtain ⟨hstart, rfl⟩ := logModules_processSlots.1 h
    dsimp only [logModules]
    rw [if_pos hle, if_pos (Nat.le_trans hstart hle)]
  stateTransition_slot {state state' block v v'} h := by
    dsimp only [logModules] at h
    split at h
    · cases h
      rfl
    · cases h
  stateTransition_trans {state state' a block v v'} h hle := by
    obtain ⟨hstart, rfl⟩ := logModules_processSlots.1 h
    dsimp only [logModules]
    rw [if_pos hle, if_pos (Nat.le_trans hstart hle)]

def threeBlocks : List SignedBeaconBlock :=
  [⟨⟨0, "z", "sa", "a"⟩, Vector.replicate 96 0⟩, ⟨⟨3, "a", "sb", "b"⟩, Vector.replicate 96 0⟩,
    ⟨⟨20, "b", "sc", "c"⟩, Vector.replicate 96 0⟩]

def blockUnder (root : HexRoot) : Option SignedBeaconBlock := threeBlocks.find? fun block => block.message.root = root

def threeHistory : History logModules where
  block := blockUnder
  root_eq root b h := by simpa using List.find?_some h
  anchor := ⟨⟨0, "z", "sa", "a"⟩, Vector.replicate 96 0⟩
  anchorState := (0, [])
  anchor_known := by decide
  anchor_first := by decide
  anchorState_slot := rfl
  stateRoot_inj root root' b b' h h' heq := by
    have hroots : ∀ c ∈ threeBlocks, ∀ c' ∈ threeBlocks, c.message.stateRoot = c'.message.stateRoot →
        c.message.root = c'.message.root := by decide
    have hroot : b.message.root = root := by simpa using List.find?_some h
    have hroot' : b'.message.root = root' := by simpa using List.find?_some h'
    rw [← hroot, ← hroot']
    exact hroots b (List.mem_of_find?_eq_some h) b' (List.mem_of_find?_eq_some h') heq

def threeRegen : StateRegenerator (Nat × List HexRoot) Unit where
  modules := logModules
  getBlock _ root := blockUnder root
  meanwhile w := w

def threeOps : List ProtoArray.Op :=
  threeBlocks.map fun block => .onBlock ⟨block.message.slot, block.message.root, block.message.parentRoot, block.message.stateRoot,
    block.message.root, 0, 0⟩

def threeWorld : World :=
  ⟨ForkChoice.construct ⟨30, ⟨0, "a"⟩, ⟨0, "a"⟩, ⟨0, "a"⟩⟩ (ProtoArray.runOps (ProtoArray.new 0 0 0) threeOps) [] [], []⟩

theorem threeWorld_reachable : ForkChoice.Reachable minimal threeWorld.forkChoice :=
  ⟨0, 0, 0, threeOps, ⟨30, ⟨0, "a"⟩, ⟨0, "a"⟩, ⟨0, "a"⟩⟩, [], [], [], rfl⟩

theorem threeReplayed_b : Replayed threeHistory "b" (3, ["b"]) :=
  .step (show threeHistory.block "b" = some ⟨⟨3, "a", "sb", "b"⟩, Vector.replicate 96 0⟩ from rfl) .anchor rfl

theorem threeReplayed_c : Replayed threeHistory "c" (20, ["b", "c"]) :=
  .step (show threeHistory.block "c" = some ⟨⟨20, "b", "sc", "c"⟩, Vector.replicate 96 0⟩ from rfl) threeReplayed_b rfl

def withCheckpoint : Moment (Nat × List HexRoot) where
  caches := { stateCache := ⟨.empty⟩
              checkpointStateCache := ⟨OrderedMap.empty.set ⟨1, "b"⟩ (8, ["b"]), OrderedMap.empty.set 1 ["b"]⟩ }
  world := threeWorld

def withState : Moment (Nat × List HexRoot) where
  caches := { stateCache := ⟨OrderedMap.empty.set "sc" (20, ["b", "c"])⟩, checkpointStateCache := ⟨.empty, .empty⟩ }
  world := threeWorld

theorem threeWorld_blocks : threeWorld.forkChoice.forwardIterateBlocks =
    [⟨0, "a", "z", "sa", "a", 0, 0⟩, ⟨3, "b", "a", "sb", "b", 0, 0⟩, ⟨20, "c", "b", "sc", "c", 0, 0⟩] := by decide +kernel

theorem threeWorld_known : ∀ b ∈ threeWorld.forkChoice.forwardIterateBlocks, KnownBlock threeHistory b := by
  rw [threeWorld_blocks]
  intro b hb
  simp only [List.mem_cons, List.not_mem_nil, or_false] at hb
  rcases hb with rfl | rfl | rfl
  · exact ⟨_, rfl, rfl⟩
  · exact ⟨_, rfl, rfl⟩
  · exact ⟨_, rfl, rfl⟩

theorem withCheckpoint_truthful : withCheckpoint.Truthful minimal threeHistory where
  caches := {
    state := fun _ _ h => by cases h
    checkpointState := fun cp state h => by
      have hentry := OrderedMap.get?_eq_some_iff.1 h
      have hsame : (cp, state) = (⟨1, "b"⟩, (8, ["b"])) := List.mem_singleton.1 hentry
      cases hsame
      refine ⟨⟨_, threeReplayed_b, rfl⟩, fun block hblock => ?_⟩
      cases hblock
      decide }
  reachable := threeWorld_reachable
  known := threeWorld_known

theorem withState_truthful : withState.Truthful minimal threeHistory where
  caches := {
    state := fun stateRoot state h => by
      have hentry := OrderedMap.get?_eq_some_iff.1 h
      have hsame : (stateRoot, state) = ("sc", (20, ["b", "c"])) := List.mem_singleton.1 hentry
      cases hsame
      exact ⟨"c", _, rfl, rfl, threeReplayed_c⟩
    checkpointState := fun _ _ h => by cases h }
  reachable := threeWorld_reachable
  known := threeWorld_known

theorem regen_agrees_three :
    (threeRegen.getState minimal withCheckpoint "sc").1 = .ok (20, ["b", "c"]) ∧
    StateOfRoot threeHistory "sc" (20, ["b", "c"]) ∧
    (threeRegen.getBlockSlotState minimal withCheckpoint "c" 25).1 = .ok (25, ["b", "c"]) ∧
    StateAtSlot threeHistory "c" 25 (25, ["b", "c"]) ∧
    (threeRegen.getPreState minimal withCheckpoint ⟨25, "c", "sd", "d"⟩).1 = .ok (24, ["b", "c"]) ∧
    (QueuedStateRegenerator.getPreState minimal threeRegen withState (.error .QUEUE_ABORTED) ⟨25, "c", "sd", "d"⟩).1 =
      .ok (20, ["b", "c"]) ∧
    logModules.processSlots (24, ["b", "c"]) 25 = logModules.processSlots (20, ["b", "c"]) 25 := by
  have hdb : StoresHistory threeRegen threeHistory := fun _ _ _ _ h h' => Option.some.inj (h'.symm.trans h)
  obtain ⟨hstates, hpre⟩ := @regen_agrees _ _ minimal threeRegen threeHistory logModules_composes hdb
  have hstate : (threeRegen.getState minimal withCheckpoint "sc").1 = .ok (20, ["b", "c"]) := by decide +kernel
  have hslot : (threeRegen.getBlockSlotState minimal withCheckpoint "c" 25).1 = .ok (25, ["b", "c"]) := by decide +kernel
  have hdirect : (threeRegen.getPreState minimal withCheckpoint ⟨25, "c", "sd", "d"⟩).1 = .ok (24, ["b", "c"]) := by
    decide +kernel
  have hqueued : (QueuedStateRegenerator.getPreState minimal threeRegen withState (.error .QUEUE_ABORTED)
      ⟨25, "c", "sd", "d"⟩).1 = .ok (20, ["b", "c"]) := by decide +kernel
  obtain ⟨hget, hadvance, -⟩ := hstates withCheckpoint withCheckpoint_truthful
  refine ⟨hstate, (hget _ _ _ (Prod.ext hstate rfl)).1, hslot, (hadvance _ _ _ _ (Prod.ext hslot rfl)).1, hdirect, hqueued, ?_⟩
  exact (hpre ⟨25, "c", "sd", "d"⟩).2 _ _ (.direct withCheckpoint_truthful (Prod.ext hdirect rfl))
    (.queued withState_truthful (fun later h => by cases h) (Prod.ext hqueued rfl))

end Lodestar
