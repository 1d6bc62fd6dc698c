import Lodestar.Chain.CheckpointEvents
import Lodestar.Chain.Regen
/-!
# Replayed — the state of a block, by replay from the anchor

A block of the history has one replayed state.  A state of an earlier slot with no blocks in between leads on to the same
states, so it does not matter how the slots before a block were cut up by the code that announces epoch starts.
-/
namespace Lodestar

open Lib

variable {State SignatureSet : Type} {P : Preset} {m : Modules State SignatureSet}

/-! ## What is relied on -/

/-- Slots are processed one after the other, and a block after the slots before it. -/
structure Composes (m : Modules State SignatureSet) : Prop where
  processSlots_slot : ∀ {state state' slot}, m.processSlots state slot = .ok state' → (m.view state').slot = slot
  processSlots_self : ∀ state, m.processSlots state (m.view state).slot = .ok state
  processSlots_trans : ∀ {state state' a b}, m.processSlots state a = .ok state' → a ≤ b →
    m.processSlots state' b = m.processSlots state b
  stateTransition_slot : ∀ {state state' block v v'}, m.stateTransition state block v v' = .ok state' →
    (m.view state').slot = block.message.slot
  stateTransition_trans : ∀ {state state' a block v v'}, m.processSlots state a = .ok state' → a ≤ block.message.slot →
    m.stateTransition state' block v v' = m.stateTransition state block v v'

variable {env : StateTransition.Env P} {cfg : StateTransition.ChainConfig} {toHexString : Root → HexRoot}
  {contents : SignedBeaconBlock → StateTransition.BeaconBlock} {rest : Modules (StateTransition.CachedBeaconState P) SignatureSet}

theorem withStateTransition_composes : Composes (withStateTransition env cfg toHexString contents rest) where
  processSlots_slot h := (StateTransition.processSlots_slot (toChainError_eq_ok.1 h)).2
  processSlots_self state := toChainError_eq_ok.2 (StateTransition.processSlots_self state)
  processSlots_trans h hle := congrArg toChainError (StateTransition.processSlots_trans (toChainError_eq_ok.1 h) hle)
  stateTransition_slot h := (StateTransition.stateTransition_slot (toChainError_eq_ok.1 h)).2
  stateTransition_trans h hle := congrArg toChainError (StateTransition.stateTransition_trans (toChainError_eq_ok.1 h) hle)

/-- Slots are not processed backwards, and a run of slots is one up to every slot on the way. -/
structure SlotBySlot (m : Modules State SignatureSet) : Prop where
  forward : ∀ {state state' slot}, m.processSlots state slot = .ok state' → (m.view state).slot ≤ slot
  before : ∀ {state state' a b}, m.processSlots state b = .ok state' → (m.view state).slot ≤ a → a ≤ b →
    ∃ middle, m.processSlots state a = .ok middle

theorem withStateTransition_slotBySlot : SlotBySlot (withStateTransition env cfg toHexString contents rest) where
  forward h := (StateTransition.processSlots_slot (toChainError_eq_ok.1 h)).1
  before h hstart hle :=
    (StateTransition.processSlots_before (toChainError_eq_ok.1 h) hstart hle).imp fun _ hrun => toChainError_eq_ok.2 hrun

/-! ## Replay from the anchor -/

structure History (m : Modules State SignatureSet) where
  block : HexRoot → Option SignedBeaconBlock
  root_eq : ∀ root b, block root = some b → b.message.root = root
  anchor : SignedBeaconBlock
  anchorState : State
  anchor_known : block anchor.message.root = some anchor
  anchor_first : block anchor.message.parentRoot = none
  anchorState_slot : (m.view anchorState).slot = anchor.message.slot
  stateRoot_inj : ∀ root root' b b', block root = some b → block root' = some b' →
    b.message.stateRoot = b'.message.stateRoot → root = root'

inductive Replayed (hist : History m) : HexRoot → State → Prop
  | anchor : Replayed hist hist.anchor.message.root hist.anchorState
  | step {root block preState postState} (known : hist.block root = some block)
      (parent : Replayed hist block.message.parentRoot preState)
      (run : m.stateTransition preState block false false = .ok postState) : Replayed hist root postState

namespace Replayed

variable {hist : History m} {root : HexRoot} {state state' : State}

theorem known (hlaws : Composes m) (h : Replayed hist root state) :
    ∃ block, hist.block root = some block ∧ (m.view state).slot = block.message.slot := by
  cases h with
  | anchor => exact ⟨hist.anchor, hist.anchor_known, hist.anchorState_slot⟩
  | step known parent run => exact ⟨_, known, hlaws.stateTransition_slot run⟩

theorem not_first (hlaws : Composes m) (h : Replayed hist hist.anchor.message.parentRoot state) : False := by
  obtain ⟨block, hblock, -⟩ := h.known hlaws
  rw [hist.anchor_first] at hblock
  cases hblock

theorem unique (hlaws : Composes m) (h : Replayed hist root state) : ∀ {state'}, Replayed hist root state' → state' = state := by
  induction h with
  | anchor =>
    intro state' h'
    generalize hroot : hist.anchor.message.root = root at h'
    cases h' with
    | anchor => rfl
    | step known parent run =>
      rw [← hroot, hist.anchor_known] at known
      cases known
      exact (parent.not_first hlaws).elim
  | @step root block preState postState known parent run ih =>
    intro state' h'
    cases h' with
    | anchor =>
      rw [hist.anchor_known] at known
      cases known
      exact (parent.not_first hlaws).elim
    | step known' parent' run' =>
      rw [known] at known'
      cases known'
      rw [ih parent', run] at run'
      exact (Except.ok.inj run').symm

end Replayed

/-- The state is the replayed one of a block, or this one with empty slots processed, as far as some slot not after `bound`. -/
def StateBefore (hist : History m) (root : HexRoot) (bound : Nat) (state : State) : Prop :=
  ∃ postState, Replayed hist root postState ∧
    (state = postState ∨ ∃ a, a ≤ bound ∧ m.processSlots postState a = .ok state)

def StateOfRoot (hist : History m) (stateRoot : HexRoot) (state : State) : Prop :=
  ∃ root block, hist.block root = some block ∧ block.message.stateRoot = stateRoot ∧ Replayed hist root state

/-- The state is the replayed one of a block, advanced to a slot. -/
def StateAtSlot (hist : History m) (root : HexRoot) (slot : Nat) (state : State) : Prop :=
  ∃ postState, Replayed hist root postState ∧ m.processSlots postState slot = .ok state

variable {hist : History m} {state state' : State}

theorem StateOfRoot.unique (hlaws : Composes m) {stateRoot : HexRoot} (h : StateOfRoot hist stateRoot state)
    (h' : StateOfRoot hist stateRoot state') : state' = state := by
  obtain ⟨root, block, hblock, hroot, hreplayed⟩ := h
  obtain ⟨root', block', hblock', hroot', hreplayed'⟩ := h'
  obtain rfl : root = root' := hist.stateRoot_inj _ _ block block' hblock hblock' (hroot.trans hroot'.symm)
  exact hreplayed.unique hlaws hreplayed'

variable {root : HexRoot}

theorem StateAtSlot.unique (hlaws : Composes m) {slot : Nat} (h : StateAtSlot hist root slot state)
    (h' : StateAtSlot hist root slot state') : state' = state := by
  obtain ⟨postState, hreplayed, hslots⟩ := h
  obtain ⟨postState', hreplayed', hslots'⟩ := h'
  rw [hreplayed.unique hlaws hreplayed', hslots] at hslots'
  exact (Except.ok.inj hslots').symm

variable {bound slot : Nat} {state : State}

theorem StateBefore.processSlots (hlaws : Composes m) (h : StateBefore hist root bound state) (hle : bound ≤ slot) :
    ∃ postState, Replayed hist root postState ∧ m.processSlots state slot = m.processSlots postState slot := by
  obtain ⟨postState, hreplayed, rfl | ⟨a, ha, hslots⟩⟩ := h
  · exact ⟨state, hreplayed, rfl⟩
  · exact ⟨postState, hreplayed, hlaws.processSlots_trans hslots (Nat.le_trans ha hle)⟩

theorem StateBefore.slot_le (hlaws : Composes m) (h : StateBefore hist root bound state) (hle : bound ≤ slot)
    (hblock : ∀ block, hist.block root = some block → block.message.slot ≤ slot) : (m.view state).slot ≤ slot := by
  obtain ⟨postState, hreplayed, rfl | ⟨a, ha, hslots⟩⟩ := h
  · obtain ⟨block, hknown, hslot⟩ := hreplayed.known hlaws
    rw [hslot]
    exact hblock block hknown
  · rw [hlaws.processSlots_slot hslots]
    exact Nat.le_trans ha hle

/-! ## Slots -/

theorem firstStart_bound {a slot : Nat} (hle : a ≤ slot) :
    computeStartSlotAtEpoch P (computeEpochAtSlot P a + 1) +
      (computeEpochAtSlot P slot - computeEpochAtSlot P a) * P.SLOTS_PER_EPOCH ≤ slot + P.SLOTS_PER_EPOCH := by
  have hepochs : computeEpochAtSlot P a ≤ computeEpochAtSlot P slot := Nat.div_le_div_right hle
  have hstart : computeEpochAtSlot P slot * P.SLOTS_PER_EPOCH ≤ slot := Nat.div_mul_le_self _ _
  have hsum : computeEpochAtSlot P a + 1 + (computeEpochAtSlot P slot - computeEpochAtSlot P a) =
      computeEpochAtSlot P slot + 1 := by omega
  unfold computeStartSlotAtEpoch
  rw [← Nat.add_mul, hsum, Nat.add_mul, Nat.one_mul]
  omega

theorem emitCheckpointEvent_ok (hstart : (m.view state).slot % P.SLOTS_PER_EPOCH = 0) (w : World) :
    ∃ w', emitCheckpointEvent P m state w = (.ok (), w') := by
  unfold emitCheckpointEvent
  rw [if_neg (not_not.2 hstart)]
  exact ⟨_, rfl⟩

section Slots

variable (hlaws : Composes m)

include hlaws

variable {slot : Nat}

theorem processSlotsToNearestCheckpoint_reaches : ∀ (n next : Nat) (state state' : State) (w w' : World),
    (0 < n → next + n * P.SLOTS_PER_EPOCH ≤ slot + P.SLOTS_PER_EPOCH) →
    processSlotsToNearestCheckpoint P m n next state w = (.ok state', w') →
    state' = state ∨ ∃ a, next ≤ a ∧ a ≤ slot ∧ m.processSlots state a = .ok state'
  | 0, next, state, state', w, w', _, h => by
    cases h
    exact .inl rfl
  | n + 1, next, state, state', w, w', hbound, h => by
    have hnext := hbound (Nat.succ_pos n)
    rw [Nat.add_mul, Nat.one_mul] at hnext
    rw [processSlotsToNearestCheckpoint] at h
    split at h
    · cases h
    · rename_i postState hslots
      split at h
      · cases h
      · rename_i w₁ hemit
        have hrest : 0 < n → next + P.SLOTS_PER_EPOCH + n * P.SLOTS_PER_EPOCH ≤ slot + P.SLOTS_PER_EPOCH := fun _ => by omega
        rcases processSlotsToNearestCheckpoint_reaches n _ postState state' _ w' hrest h with rfl | ⟨a, hle, ha, hrun⟩
        · exact .inr ⟨next, Nat.le_refl next, by omega, hslots⟩
        · exact .inr ⟨a, by omega, ha, (hlaws.processSlots_trans hslots (by omega)).symm.trans hrun⟩

variable {preState state : State} {w w' : World}

theorem processSlotsByCheckpoint_eq (hle : (m.view preState).slot ≤ slot)
    (h : processSlotsByCheckpoint P m preState slot w = (.ok state, w')) : m.processSlots preState slot = .ok state := by
  have hfinish : ∀ a postState, a ≤ slot → m.processSlots preState a = .ok postState →
      (if (m.view postState).slot < slot then m.processSlots postState slot else .ok postState) = .ok state →
      m.processSlots preState slot = .ok state := by
    intro a postState ha hslots hrun
    have hslot := hlaws.processSlots_slot hslots
    split at hrun
    · exact (hlaws.processSlots_trans hslots ha).symm.trans hrun
    · have hsame : a = slot := by omega
      rw [← hsame]
      exact hslots.trans hrun
  unfold processSlotsByCheckpoint at h
  dsimp only at h
  split at h
  · cases h
  · rename_i postState w₁ hloop
    have hlast : (if (m.view postState).slot < slot then m.processSlots postState slot else .ok postState) = .ok state := by
      split at h
      · rename_i hlt
        rw [if_pos hlt]
        exact congrArg Prod.fst h
      · rename_i hge
        rw [if_neg hge]
        exact congrArg Prod.fst h
    rcases processSlotsToNearestCheckpoint_reaches hlaws _ _ _ _ _ _ (fun _ => firstStart_bound hle) hloop with
      rfl | ⟨a, -, ha, hslots⟩
    · exact hfinish _ postState hle (hlaws.processSlots_self postState) hlast
    · exact hfinish a postState ha hslots hlast

theorem processSlotsToNearestCheckpoint_ok (hslots : SlotBySlot m) {state' : State} :
    ∀ (n next : Nat) (state : State) (w : World), next % P.SLOTS_PER_EPOCH = 0 → (m.view state).slot ≤ next →
      (m.view state).slot ≤ slot → (0 < n → next + n * P.SLOTS_PER_EPOCH ≤ slot + P.SLOTS_PER_EPOCH) →
      m.processSlots state slot = .ok state' →
      ∃ middle w', processSlotsToNearestCheckpoint P m n next state w = (.ok middle, w') ∧ (m.view middle).slot ≤ slot ∧
        m.processSlots middle slot = .ok state'
  | 0, next, state, w, _, _, hle, _, hrun => ⟨state, w, rfl, hle, hrun⟩
  | n + 1, next, state, w, hmod, hstart, _, hbound, hrun => by
    have hnext := hbound (Nat.succ_pos n)
    rw [Nat.add_mul, Nat.one_mul] at hnext
    have hnextLe : next ≤ slot := by omega
    obtain ⟨postState, hpost⟩ := hslots.before hrun hstart hnextLe
    have hpostSlot := hlaws.processSlots_slot hpost
    obtain ⟨w₁, hemit⟩ := emitCheckpointEvent_ok (P := P) (m := m) (hpostSlot.symm ▸ hmod) w
    have hmod' : (next + P.SLOTS_PER_EPOCH) % P.SLOTS_PER_EPOCH = 0 := by
      rw [Nat.add_mod_right]
      exact hmod
    have hrest : m.processSlots postState slot = .ok state' := (hlaws.processSlots_trans hpost hnextLe).trans hrun
    rw [processSlotsToNearestCheckpoint]
    simp only [hpost, hemit]
    exact processSlotsToNearestCheckpoint_ok hslots n _ postState _ hmod' (by omega) (by omega) (fun _ => by omega) hrest

theorem processSlotsByCheckpoint_iff (hslots : SlotBySlot m) {w : World} (hle : (m.view preState).slot ≤ slot) :
    (processSlotsByCheckpoint P m preState slot w).1 = .ok state ↔ m.processSlots preState slot = .ok state := by
  constructor
  · intro h
    exact processSlotsByCheckpoint_eq hlaws hle (Prod.ext h rfl)
  · intro hrun
    have hmod : computeStartSlotAtEpoch P (computeEpochAtSlot P (m.view preState).slot + 1) % P.SLOTS_PER_EPOCH = 0 :=
      Nat.mul_mod_left _ _
    have hfirst : (m.view preState).slot ≤ computeStartSlotAtEpoch P (computeEpochAtSlot P (m.view preState).slot + 1) := by
      unfold computeStartSlotAtEpoch
      rw [Nat.mul_comm]
      exact Nat.le_of_lt (Nat.lt_mul_div_succ _ P.slotsPerEpoch_pos)
    obtain ⟨middle, w', hloop, hmiddle, hrest⟩ :=
      processSlotsToNearestCheckpoint_ok hlaws hslots _ _ preState w hmod hfirst hle (fun _ => firstStart_bound hle) hrun
    unfold processSlotsByCheckpoint
    dsimp only
    rw [hloop]
    dsimp only
    split
    · exact hrest
    · have hsame : (m.view middle).slot = slot := by omega
      rw [← hsame, hlaws.processSlots_self] at hrest
      exact hrest

variable {block : SignedBeaconBlock}

theorem cacheCheckpointStates_same {v v' : Bool} (h : cacheCheckpointStates P m block preState w = (.ok state, w')) :
    m.stateTransition state block v v' = m.stateTransition preState block v v' := by
  unfold cacheCheckpointStates at h
  dsimp only at h
  split at h
  · have hstart : computeEpochAtSlot P block.message.slot * P.SLOTS_PER_EPOCH ≤ block.message.slot := Nat.div_mul_le_self _ _
    have hbound : 0 < computeEpochAtSlot P block.message.slot + 1 - (computeEpochAtSlot P (m.view preState).slot + 1) →
        computeStartSlotAtEpoch P (computeEpochAtSlot P (m.view preState).slot + 1) +
          (computeEpochAtSlot P block.message.slot + 1 - (computeEpochAtSlot P (m.view preState).slot + 1)) * P.SLOTS_PER_EPOCH ≤
        block.message.slot + P.SLOTS_PER_EPOCH := by
      intro hpos
      unfold computeStartSlotAtEpoch
      rw [← Nat.add_mul, Nat.add_sub_cancel' (by omega), Nat.add_mul, Nat.one_mul]
      omega
    rcases processSlotsToNearestCheckpoint_reaches hlaws _ _ _ _ _ _ hbound h with rfl | ⟨a, -, ha, hslots⟩
    · rfl
    · exact hlaws.stateTransition_trans hslots ha
  · cases h
    rfl

theorem runStateTransition_eq {job : IProcessBlock} (h : runStateTransition P m job block preState w = (.ok state, w')) :
    m.stateTransition preState block (!job.validSignatures && !job.validProposerSignature) (!job.validSignatures) = .ok state := by
  unfold runStateTransition at h
  split at h
  · cases h
  · rename_i postState w₁ htransition
    have hpost : postState = state := by
      split at h
      · cases h
      · cases h
        rfl
    subst hpost
    unfold transitionBlock at htransition
    split at htransition
    · cases htransition
    · rename_i middle w₂ hcache
      split at htransition
      · cases htransition
      · rename_i postState' hrun
        unfold registerBlock at htransition
        split at htransition
        · cases htransition
        · split at htransition
          · cases htransition
          · cases htransition
            exact (cacheCheckpointStates_same hlaws hcache).symm.trans hrun

end Slots

end Lodestar
