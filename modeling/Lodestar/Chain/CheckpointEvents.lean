import Lodestar.Lib.Numerals
import Lodestar.StateTransition.LatestHeader
import Lodestar.ForkChoice.ForkChoiceRuns
import Lodestar.Chain.ProcessBlocks
/-!
# CheckpointEvents — the checkpoint events a block leaves behind

The boundaries between the pre-state and the block are announced by two pieces of code: the loop of
`processSlotsToNearestCheckpoint`, taken unless the block is the first of its epoch, and the event for the block itself, when
it is.  A block that is the first of its epoch announces itself alone, so boundaries before it are missed.
-/
namespace Lodestar

open Lib
open Lodestar.StateTransition (Env ChainConfig CachedBeaconState)

variable {P : Preset} {SignatureSet : Type}

/-! ## The modules, with the state transition put in -/

def checkpointRoot (env : Env P) (cfg : ChainConfig) (checkpointState : CachedBeaconState P) : Root :=
  let blockHeader := checkpointState.latestBlockHeader
  let stateRoot := env.stateRoot (StateTransition.getForkName P cfg checkpointState.slot) checkpointState.toBeaconState
  env.headerRoot (if blockHeader.stateRoot = zeroRoot then { blockHeader with stateRoot := stateRoot } else blockHeader)

def toChainError {α : Type} : Except String α → Except Thrown α
  | .ok a => .ok a
  | .error text => .error (.error (.message text))

/-- The state transition as `runStateTransition` calls it.  `contents` has what the fork choice does not read of a block. -/
def withStateTransition (env : Env P) (cfg : ChainConfig) (toHexString : Root → HexRoot)
    (contents : SignedBeaconBlock → StateTransition.BeaconBlock) (rest : Modules (CachedBeaconState P) SignatureSet) :
    Modules (CachedBeaconState P) SignatureSet :=
  let toCheckpointHex := fun (checkpoint : Checkpoint) => (⟨checkpoint.epoch, toHexString checkpoint.root⟩ : CheckpointHex)
  { rest with
    view := fun state =>
      { slot := state.slot
        currentJustifiedCheckpoint := toCheckpointHex state.currentJustifiedCheckpoint
        finalizedCheckpoint := toCheckpointHex state.finalizedCheckpoint
        blockRoots := fun place => (state.blockRoots.toList[place]?).elim "" toHexString }
    currentShufflingEpoch := fun state => state.epochCtx.currentShuffling.epoch
    latestBlockRoot := fun state => toHexString (checkpointRoot env cfg state)
    processSlots := fun state slot => toChainError (StateTransition.processSlots env cfg state slot)
    stateTransition := fun state block verifyProposer verifySignatures =>
      let signedBlock := { message := { contents block with slot := block.message.slot }, signature := block.signature }
      toChainError (StateTransition.stateTransition env cfg state signedBlock
        { verifyStateRoot := true, verifyProposer := verifyProposer, verifySignatures := verifySignatures }) }

theorem toChainError_eq_ok {α : Type} {x : Except String α} {a : α} : toChainError x = .ok a ↔ x = .ok a := by
  cases x with
  | error e => simp [toChainError]
  | ok b => simp [toChainError]

/-! ## Events -/

def World.checkpointEvents (w : World) : List (CheckpointHex × Nat) :=
  w.effects.filterMap fun
    | .checkpoint checkpoint stateSlot => some (checkpoint, stateSlot)
    | _ => none

/-- Between two worlds each boundary after `preSlot` and up to `postSlot` was announced once, with a state at its slot. -/
def AnnouncesEach (P : Preset) (preSlot postSlot : Nat) (w w' : World) : Prop :=
  ∃ events, w'.checkpointEvents = w.checkpointEvents ++ events ∧
    ∀ slot, preSlot < slot → slot ≤ postSlot → slot % P.SLOTS_PER_EPOCH = 0 →
      ∃ root, events.filter (fun event => event.1.epoch = computeEpochAtSlot P slot) = [(⟨computeEpochAtSlot P slot, root⟩, slot)]

/-- The checkpoint events between two worlds are of these slots, in this order, each with the epoch that starts there. -/
def Emits (P : Preset) (slots : List Nat) (w w' : World) : Prop :=
  ∃ events, w'.checkpointEvents = w.checkpointEvents ++ events ∧ events.map Prod.snd = slots ∧
    ∀ event ∈ events, event.2 = computeStartSlotAtEpoch P event.1.epoch

variable {w w' : World}

theorem Emits.of_eq (h : w'.checkpointEvents = w.checkpointEvents) : Emits P [] w w' :=
  ⟨[], by rw [h, List.append_nil], rfl, fun _ hevent => absurd hevent List.not_mem_nil⟩

theorem Emits.trans {slots slots' : List Nat} {w w' w'' : World} (h : Emits P slots w w') (h' : Emits P slots' w' w'') :
    Emits P (slots ++ slots') w w'' := by
  obtain ⟨events, heq, hslots, hstart⟩ := h
  obtain ⟨events', heq', hslots', hstart'⟩ := h'
  refine ⟨events ++ events', ?_, ?_, ?_⟩
  · rw [heq', heq, List.append_assoc]
  · rw [List.map_append, hslots, hslots']
  · intro event hevent
    rcases List.mem_append.1 hevent with hmem | hmem
    · exact hstart event hmem
    · exact hstart' event hmem

theorem emitCheckpointEvent_emits {m : Modules (CachedBeaconState P) SignatureSet} {state : CachedBeaconState P}
    (h : emitCheckpointEvent P m state w = (.ok (), w')) : Emits P [(m.view state).slot] w w' := by
  unfold emitCheckpointEvent at h
  dsimp only at h
  split at h
  · cases h
  · rename_i hboundary
    simp only [Prod.mk.injEq, true_and] at h
    subst h
    refine ⟨[(⟨computeEpochAtSlot P (m.view state).slot, m.latestBlockRoot state⟩, (m.view state).slot)], ?_, rfl, ?_⟩
    · simp only [World.checkpointEvents, World.emit, List.filterMap_append]
      rfl
    · intro event hevent
      rw [List.mem_singleton] at hevent
      subst hevent
      have hmod : (m.view state).slot % P.SLOTS_PER_EPOCH = 0 := not_not.1 hboundary
      exact (Nat.div_mul_cancel (Nat.dvd_of_mod_eq_zero hmod)).symm

def boundariesFrom (P : Preset) (nextEpochSlot n : Nat) : List Nat :=
  (List.range n).map fun k => nextEpochSlot + k * P.SLOTS_PER_EPOCH

theorem boundariesFrom_succ (nextEpochSlot n : Nat) :
    boundariesFrom P nextEpochSlot (n + 1) = nextEpochSlot :: boundariesFrom P (nextEpochSlot + P.SLOTS_PER_EPOCH) n := by
  unfold boundariesFrom
  rw [List.range_succ_eq_map, List.map_cons, List.map_map]
  congr 1
  · omega
  · apply List.map_congr_left
    simp only [Function.comp_apply, Nat.succ_eq_add_one, Nat.add_mul]
    omega

section Transition

variable {env : Env P} {cfg : ChainConfig} {toHexString : Root → HexRoot}
  {contents : SignedBeaconBlock → StateTransition.BeaconBlock}
  {rest : Modules (CachedBeaconState P) SignatureSet}

theorem processSlotsToNearestCheckpoint_emits : ∀ (n nextEpochSlot : Nat) (state state' : CachedBeaconState P) (w w' : World),
    processSlotsToNearestCheckpoint P (withStateTransition env cfg toHexString contents rest) n nextEpochSlot state w =
      (.ok state', w') → Emits P (boundariesFrom P nextEpochSlot n) w w'
  | 0, nextEpochSlot, state, state', w, w', h => by
    simp only [processSlotsToNearestCheckpoint, Prod.mk.injEq] at h
    exact Emits.of_eq (congrArg World.checkpointEvents h.2.symm)
  | n + 1, nextEpochSlot, state, state', w, w', h => by
    rw [processSlotsToNearestCheckpoint] at h
    split at h
    · cases h
    · rename_i postState hslots
      split at h
      · cases h
      · rename_i w₁ hemit
        have hfirst := emitCheckpointEvent_emits hemit
        have hrest := processSlotsToNearestCheckpoint_emits n _ postState state' _ w' h
        have hslot : postState.slot = nextEpochSlot :=
          (StateTransition.processSlots_slot (toChainError_eq_ok.1 hslots)).2
        have hview : ((withStateTransition env cfg toHexString contents rest).view postState).slot = nextEpochSlot := hslot
        rw [hview] at hfirst
        rw [boundariesFrom_succ]
        exact hfirst.trans hrest

/-! ## A block -/

def announcedSlots (P : Preset) (preSlot postSlot : Nat) : List Nat :=
  if postSlot % P.SLOTS_PER_EPOCH = 0 then [postSlot]
  else boundariesFrom P (computeStartSlotAtEpoch P (computeEpochAtSlot P preSlot + 1))
    (computeEpochAtSlot P postSlot - computeEpochAtSlot P preSlot)

variable {slot preSlot postSlot first n k : Nat}

theorem start_eq_iff :
    slot = computeStartSlotAtEpoch P (computeEpochAtSlot P slot) ↔ slot % P.SLOTS_PER_EPOCH = 0 := by
  unfold computeStartSlotAtEpoch computeEpochAtSlot
  have hdiv := Nat.div_add_mod' slot P.SLOTS_PER_EPOCH
  omega

variable {block : SignedBeaconBlock} {w w' : World} {preState state postState : CachedBeaconState P}

theorem cacheCheckpointStates_emits (hepoch : preState.epochCtx.currentShuffling.epoch = computeEpochAtSlot P preState.slot)
    (h : cacheCheckpointStates P (withStateTransition env cfg toHexString contents rest) block preState w = (.ok state, w')) :
    Emits P (if block.message.slot % P.SLOTS_PER_EPOCH = 0 then []
      else announcedSlots P preState.slot block.message.slot) w w' := by
  have hshuffling : (withStateTransition env cfg toHexString contents rest).currentShufflingEpoch preState =
      computeEpochAtSlot P preState.slot := hepoch
  unfold cacheCheckpointStates at h
  dsimp only at h
  unfold announcedSlots
  split at h
  · rename_i hpass
    have hboundary : ¬ block.message.slot % P.SLOTS_PER_EPOCH = 0 := fun hmod => hpass.2 (start_eq_iff.2 hmod)
    rw [if_neg hboundary, if_neg hboundary]
    have hemits := processSlotsToNearestCheckpoint_emits _ _ _ _ _ _ h
    rw [Nat.add_sub_add_right] at hemits
    exact hemits
  · rename_i hpass
    obtain ⟨-, rfl⟩ := h
    split
    · exact Emits.of_eq rfl
    · rename_i hboundary
      have hle : computeEpochAtSlot P block.message.slot ≤ computeEpochAtSlot P preState.slot := by
        by_contra hlt
        exact hpass ⟨by omega, fun heq => hboundary (start_eq_iff.1 heq)⟩
      rw [Nat.sub_eq_zero_of_le hle]
      exact Emits.of_eq rfl

variable {m : Modules (CachedBeaconState P) SignatureSet}

theorem registerBlock_checkpointEvents (h : registerBlock P m block postState w = (.ok state, w')) :
    state = postState ∧ w'.checkpointEvents = w.checkpointEvents := by
  unfold registerBlock at h
  split at h
  · cases h
  · split at h
    · cases h
    · cases h
      simp only [World.checkpointEvents, World.emit, List.filterMap_append]
      exact ⟨trivial, List.append_nil _⟩

variable {job : IProcessBlock} {preState postState : CachedBeaconState P}

theorem transitionBlock_emits (hepoch : preState.epochCtx.currentShuffling.epoch = computeEpochAtSlot P preState.slot)
    (h : transitionBlock P (withStateTransition env cfg toHexString contents rest) job block preState w = (.ok postState, w')) :
    postState.slot = block.message.slot ∧
    Emits P (if block.message.slot % P.SLOTS_PER_EPOCH = 0 then []
      else announcedSlots P preState.slot block.message.slot) w w' := by
  unfold transitionBlock at h
  split at h
  · cases h
  · rename_i state w₁ hcache
    split at h
    · cases h
    · rename_i postState' htransition
      obtain ⟨rfl, hregister⟩ := registerBlock_checkpointEvents h
      have hslot := (StateTransition.stateTransition_slot (toChainError_eq_ok.1 htransition)).2
      refine ⟨hslot, ?_⟩
      have hsame : w'.checkpointEvents = w₁.checkpointEvents := by
        rw [hregister]
        split
        · rfl
        · simp [World.checkpointEvents, World.emit]
      have hemits := (cacheCheckpointStates_emits hepoch hcache).trans (Emits.of_eq (P := P) hsame)
      rw [List.append_nil] at hemits
      exact hemits

theorem announceBlock_emits (hreprocess : job.reprocess = false) (h : announceBlock P m job block postState w = (.ok (), w')) :
    Emits P (if block.message.slot % P.SLOTS_PER_EPOCH = 0 then [(m.view postState).slot] else []) w w' := by
  unfold announceBlock at h
  dsimp only at h
  rw [hreprocess, if_neg Bool.false_ne_true] at h
  split at h
  · cases h
  · rename_i w₁ hemit
    have hfirst : Emits P (if block.message.slot % P.SLOTS_PER_EPOCH = 0 then [(m.view postState).slot] else []) w w₁ := by
      split at hemit
      · rename_i hboundary
        rw [if_pos hboundary]
        exact emitCheckpointEvent_emits hemit
      · rename_i hboundary
        rw [if_neg hboundary]
        cases hemit
        exact Emits.of_eq rfl
    have hrest : w'.checkpointEvents = w₁.checkpointEvents := by
      split at h
      · cases h
      · split at h
        · cases h
          simp [World.checkpointEvents, World.emit]
        · cases h
          simp [World.checkpointEvents, World.emit]
    have hemits := hfirst.trans (Emits.of_eq (P := P) hrest)
    rw [List.append_nil] at hemits
    exact hemits

/-- **The events of a block**: the boundaries on the way, or the block's own slot when it is one. -/
theorem runStateTransition_emits (hepoch : preState.epochCtx.currentShuffling.epoch = computeEpochAtSlot P preState.slot)
    (hreprocess : job.reprocess = false)
    (h : runStateTransition P (withStateTransition env cfg toHexString contents rest) job block preState w =
      (.ok postState, w')) :
    Emits P (announcedSlots P preState.slot block.message.slot) w w' := by
  unfold runStateTransition at h
  split at h
  · cases h
  · rename_i postState' w₁ htransition
    obtain ⟨hslot, hbefore⟩ := transitionBlock_emits hepoch htransition
    split at h
    · cases h
    · rename_i w₂ hannounce
      cases h
      have hafter := announceBlock_emits hreprocess hannounce
      have hview : ((withStateTransition env cfg toHexString contents rest).view postState).slot = block.message.slot := hslot
      rw [hview] at hafter
      have hemits := hbefore.trans hafter
      by_cases hboundary : block.message.slot % P.SLOTS_PER_EPOCH = 0
      · rw [if_pos hboundary, if_pos hboundary, List.nil_append] at hemits
        unfold announcedSlots
        rw [if_pos hboundary]
        exact hemits
      · rw [if_neg hboundary, if_neg hboundary, List.append_nil] at hemits
        exact hemits

/-! ## Each boundary once -/

theorem Emits.announcesEach_iff {slots : List Nat} (h : Emits P slots w w') :
    AnnouncesEach P preSlot postSlot w w' ↔
      ∀ slot, preSlot < slot → slot ≤ postSlot → slot % P.SLOTS_PER_EPOCH = 0 → slots.count slot = 1 := by
  obtain ⟨events, heq, rfl, hstart⟩ := h
  have hsame : ∀ slot, slot % P.SLOTS_PER_EPOCH = 0 → ∀ event ∈ events,
      (event.1.epoch = computeEpochAtSlot P slot ↔ event.2 = slot) := by
    intro slot hboundary event hevent
    have hpos := P.slotsPerEpoch_pos
    rw [hstart event hevent]
    constructor
    · intro hepoch
      rw [hepoch]
      exact (start_eq_iff.2 hboundary).symm
    · intro hslot
      rw [← hslot]
      exact (Nat.mul_div_cancel _ hpos).symm
  have hfilter : ∀ slot, slot % P.SLOTS_PER_EPOCH = 0 →
      events.filter (fun event => event.1.epoch = computeEpochAtSlot P slot) = events.filter (fun event => event.2 == slot) := by
    intro slot hboundary
    apply List.filter_congr
    intro event hevent
    rw [decide_eq_decide.2 (hsame slot hboundary event hevent)]
    rfl
  have hcount : ∀ slot, (events.map Prod.snd).count slot = (events.filter fun event => event.2 == slot).length := by
    intro slot
    rw [List.count, List.countP_map, List.countP_eq_length_filter]
    rfl
  constructor
  · rintro ⟨events', heq', heach⟩ slot hpre hpost hboundary
    have hevents : events' = events := List.append_cancel_left (heq'.symm.trans heq)
    subst hevents
    obtain ⟨root, hone⟩ := heach slot hpre hpost hboundary
    rw [hcount, ← hfilter slot hboundary, hone, List.length_singleton]
  · intro hone
    refine ⟨events, heq, fun slot hpre hpost hboundary => ?_⟩
    have hlength := hone slot hpre hpost hboundary
    rw [hcount, List.length_eq_one_iff] at hlength
    obtain ⟨⟨⟨epoch, root⟩, stateSlot⟩, hevent⟩ := hlength
    have hmem : (⟨⟨epoch, root⟩, stateSlot⟩ : CheckpointHex × Nat) ∈ events.filter fun event => event.2 == slot := by
      rw [hevent]
      exact List.mem_singleton_self _
    obtain ⟨hmem, hslot⟩ := List.mem_filter.1 hmem
    have hslot : stateSlot = slot := beq_iff_eq.1 hslot
    have hepoch : epoch = computeEpochAtSlot P slot := (hsame slot hboundary _ hmem).2 hslot
    refine ⟨root, ?_⟩
    rw [hfilter slot hboundary, hevent, hslot, hepoch]

theorem boundariesFrom_count (hk : k < n) (hslot : slot = first + k * P.SLOTS_PER_EPOCH) :
    (boundariesFrom P first n).count slot = 1 := by
  have hpos := P.slotsPerEpoch_pos
  apply List.count_eq_one_of_mem
  · apply List.Nodup.map _ List.nodup_range
    intro i j hij
    have hmul : i * P.SLOTS_PER_EPOCH = j * P.SLOTS_PER_EPOCH := Nat.add_left_cancel hij
    exact Nat.eq_of_mul_eq_mul_right hpos hmul
  · exact List.mem_map.2 ⟨k, List.mem_range.2 hk, hslot.symm⟩

theorem announcedSlots_each (preSlot postSlot : Nat) :
    (∀ slot, preSlot < slot → slot ≤ postSlot → slot % P.SLOTS_PER_EPOCH = 0 →
      (announcedSlots P preSlot postSlot).count slot = 1) ↔
    postSlot % P.SLOTS_PER_EPOCH ≠ 0 ∨ postSlot ≤ preSlot + P.SLOTS_PER_EPOCH := by
  have hpos := P.slotsPerEpoch_pos
  unfold announcedSlots
  by_cases hboundary : postSlot % P.SLOTS_PER_EPOCH = 0
  · rw [if_pos hboundary]
    constructor
    · intro hone
      right
      by_contra hfar
      -- the boundary before the block
      have hmod : (postSlot - P.SLOTS_PER_EPOCH) % P.SLOTS_PER_EPOCH = 0 := by
        rw [← Nat.mod_eq_sub_mod (by omega)]
        exact hboundary
      have hcount := hone (postSlot - P.SLOTS_PER_EPOCH) (by omega) (by omega) hmod
      rw [List.count_eq_zero_of_not_mem] at hcount
      · cases hcount
      · rw [List.mem_singleton]
        omega
    · rintro (hnot | hnear) slot hpre hpost hslot
      · exact absurd hboundary hnot
      · obtain ⟨a, ha⟩ := Nat.dvd_of_mod_eq_zero hboundary
        obtain ⟨b, hb⟩ := Nat.dvd_of_mod_eq_zero hslot
        have hba : ¬ b + 1 ≤ a := by
          intro hlt
          have hmul := Nat.mul_le_mul_left P.SLOTS_PER_EPOCH hlt
          rw [Nat.mul_add, Nat.mul_one, ← ha, ← hb] at hmul
          omega
        have hab : b ≤ a := by
          by_contra hlt
          have hmul := Nat.mul_le_mul_left P.SLOTS_PER_EPOCH (by omega : a + 1 ≤ b)
          rw [Nat.mul_add, Nat.mul_one, ← ha, ← hb] at hmul
          omega
        have heq : slot = postSlot := by rw [ha, hb, (by omega : b = a)]
        rw [heq, List.count_singleton_self]
  · rw [if_neg hboundary]
    refine ⟨fun _ => .inl hboundary, fun _ slot hpre hpost hslot => ?_⟩
    obtain ⟨b, hb⟩ := Nat.dvd_of_mod_eq_zero hslot
    have hfirst : computeEpochAtSlot P preSlot + 1 ≤ b := by
      have hlt : preSlot < b * P.SLOTS_PER_EPOCH := by
        rw [Nat.mul_comm, ← hb]
        exact hpre
      exact (Nat.div_lt_iff_lt_mul hpos).2 hlt
    have hlast : b ≤ computeEpochAtSlot P postSlot := by
      apply (Nat.le_div_iff_mul_le hpos).2
      rw [Nat.mul_comm, ← hb]
      exact hpost
    apply boundariesFrom_count (k := b - (computeEpochAtSlot P preSlot + 1)) (by omega)
    unfold computeStartSlotAtEpoch
    rw [hb, ← Nat.add_mul, Nat.mul_comm, Nat.add_sub_cancel' hfirst]

/-- **When each boundary is announced**: a block whose pre-state was built by the state transition announces each boundary on
its way once exactly when it is not itself on a boundary, or no other boundary lies in between. -/
theorem runStateTransition_announcesEach {genesis : StateTransition.BeaconState P} {s₀ preState postState : CachedBeaconState P}
    {ops : List StateTransition.Op} {job : IProcessBlock} {block : SignedBeaconBlock} {w w' : World}
    (hcreate : StateTransition.createCachedBeaconState env cfg genesis StateTransition.noOpts = .ok s₀)
    (hpre : StateTransition.runOps env cfg s₀ ops = .ok preState) (hreprocess : job.reprocess = false)
    (h : runStateTransition P (withStateTransition env cfg toHexString contents rest) job block preState w =
      (.ok postState, w')) :
    AnnouncesEach P preState.slot block.message.slot w w' ↔
      block.message.slot % P.SLOTS_PER_EPOCH ≠ 0 ∨ block.message.slot ≤ preState.slot + P.SLOTS_PER_EPOCH := by
  have hfresh := StateTransition.runOps_fresh hpre (StateTransition.createCachedBeaconState_fresh hcreate)
  rw [(runStateTransition_emits hfresh.currentEpoch hreprocess h).announcesEach_iff]
  exact announcedSlots_each preState.slot block.message.slot

end Transition

/-! ## Blocks after a pre-state of slot 14 -/

def idle : Modules (CachedBeaconState minimal) Unit where
  disableBlsBatchVerify := true
  getPreState _ := .error .regenError
  view state := ⟨state.slot, ⟨0, ""⟩, ⟨0, ""⟩, fun _ => ""⟩
  currentShufflingEpoch state := state.epochCtx.currentShuffling.epoch
  latestBlockRoot _ := ""
  processSlots state _ := .ok state
  stateTransition state _ _ _ := .ok state
  justifiedBalances _ _ := none
  getAllBlockSignatureSets _ _ := .ok []
  getAllBlockSignatureSetsExceptProposer _ _ := .ok []
  verifySignatureSets _ := .ok true
  meanwhile _ := []

def plainModules : Modules (CachedBeaconState minimal) Unit :=
  withStateTransition (StateTransition.plainEnv minimal) (StateTransition.minimalConfig ⊤) (fun root => Hex.ofBytes root.toList)
    (fun _ => StateTransition.depositBlock.message) idle

def created : Except String (CachedBeaconState minimal) :=
  StateTransition.createCachedBeaconState (StateTransition.plainEnv minimal) (StateTransition.minimalConfig ⊤)
    StateTransition.awaitingDeposit StateTransition.noOpts

def inSlot40 : World := ⟨ForkChoice.runOps minimal ForkChoice.atGenesis [.updateTime 40], []⟩

def blockOf (slot : Nat) : SignedBeaconBlock := ⟨⟨slot, "a", "b", "b"⟩, Vector.replicate 96 0⟩

def importFrom (preState : CachedBeaconState minimal) (slot : Nat) : Except Thrown (CachedBeaconState minimal) × World :=
  runStateTransition minimal plainModules ⟨false, false, false, false⟩ (blockOf slot) preState inSlot40

theorem created_map {α : Type} {f : CachedBeaconState minimal → α} {a : α} (h : created.map f = .ok a) :
    ∃ preState, created = .ok preState ∧ f preState = a := by
  cases hpre : created with
  | error e =>
    rw [hpre] at h
    cases h
  | ok preState =>
    rw [hpre] at h
    exact ⟨preState, rfl, Except.ok.inj h⟩

/-- The block of slot 33 announces the boundaries 16, 24 and 32. -/
theorem runStateTransition_announcesEach_slot33 : ∃ preState, created = .ok preState ∧ preState.slot = 14 ∧
    AnnouncesEach minimal preState.slot 33 inSlot40 (importFrom preState 33).2 := by
  obtain ⟨preState, hcreate, hrun⟩ := created_map (a := (14, true))
    (f := fun preState => (preState.slot, (importFrom preState 33).1.isOk)) (by decide +kernel)
  obtain ⟨hslot, hok⟩ := Prod.mk.inj hrun
  refine ⟨preState, hcreate, hslot, ?_⟩
  rcases hpost : importFrom preState 33 with ⟨r, w'⟩
  rw [hpost] at hok
  cases r with
  | error e => cases hok
  | ok postState =>
    have hpre : StateTransition.runOps (StateTransition.plainEnv minimal) (StateTransition.minimalConfig ⊤) preState [] =
      .ok preState := rfl
    exact (runStateTransition_announcesEach hcreate hpre rfl hpost).2 (.inl (by decide))

/-- The block of slot 32 is imported, and the boundaries 16 and 24 are never announced. -/
theorem runStateTransition_misses_boundaries : ∃ preState, created = .ok preState ∧ preState.slot = 14 ∧
    (importFrom preState 32).1.isOk = true ∧ (importFrom preState 32).2.checkpointEvents = [(⟨4, HEX_ZERO_HASH⟩, 32)] ∧
    ¬ AnnouncesEach minimal preState.slot 32 inSlot40 (importFrom preState 32).2 := by
  obtain ⟨preState, hcreate, hrun⟩ := created_map (a := (14, true, [(⟨4, HEX_ZERO_HASH⟩, 32)]))
    (f := fun preState => (preState.slot, (importFrom preState 32).1.isOk, (importFrom preState 32).2.checkpointEvents))
    (by decide +kernel)
  obtain ⟨hslot, hparts⟩ := Prod.mk.inj hrun
  obtain ⟨hok, hevents⟩ := Prod.mk.inj hparts
  refine ⟨preState, hcreate, hslot, hok, hevents, ?_⟩
  rintro ⟨events, heq, heach⟩
  rw [hevents] at heq
  have hall : events = [(⟨4, HEX_ZERO_HASH⟩, 32)] := heq.symm
  obtain ⟨root, hone⟩ := heach 16 (by omega) (by decide) (by decide)
  rw [hall] at hone
  simp [computeEpochAtSlot, minimal] at hone

end Lodestar
