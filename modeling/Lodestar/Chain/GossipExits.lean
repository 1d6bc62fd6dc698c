import Lodestar.Chain.GossipOperations
import Lodestar.Chain.JustifiedBalances
import Lodestar.Chain.RegenAgrees
import Lodestar.StateTransition.SharedPubkeys
/-!
# GossipExits — voluntary exits are judged at the epoch that they name

An exit names the epoch from which on it is valid.  `validateGossipVoluntaryExit` asks the regenerator for the head state at the
start of that epoch and not of the current one.  So it never sees an exit as too early, it has no state for an epoch that
started before the head, and for other epochs it asks who may exit then.  It accepts what the head state at the current epoch
would have it accept exactly when those answers are the same: `validateGossipVoluntaryExit_iff`.
-/
namespace Lodestar

open Lib

/-! ## The state of a block, at an epoch -/

section Regen

variable {State SignatureSet : Type} {P : Preset} {regen : StateRegenerator State SignatureSet} {found later : Moment State}
  {root : HexRoot} {state state' : State} {epoch : Nat}

/-- A regenerator finds the block of the root and gives its state.  The checkpoint states that are cached for the block are this
state with empty slots processed. -/
structure FindsState (P : Preset) (regen : StateRegenerator State SignatureSet) (found : Moment State) (root : HexRoot)
    (state : State) : Prop where
  block : ∃ block, found.world.forkChoice.getBlock root = .ok (some block) ∧ block.slot = (regen.modules.view state).slot ∧
    (regen.getState P found block.stateRoot).1 = .ok state
  checkpointState : ∀ epoch checkpointState, found.caches.checkpointStateCache.get ⟨epoch, root⟩ = some checkpointState →
    regen.modules.processSlots state (computeStartSlotAtEpoch P epoch) = .ok checkpointState

theorem passOn_eq_ok {r : Except Thrown State × World} : (StateRegenerator.passOn r).1 = .ok state ↔ r.1 = .ok state := by
  obtain ⟨r, w⟩ := r
  cases r with
  | error e => simp [StateRegenerator.passOn]
  | ok result => simp [StateRegenerator.passOn]

variable (hlaws : Composes regen.modules) (hslots : SlotBySlot regen.modules)

include hlaws hslots

theorem FindsState.getCheckpointState_iff (h : FindsState P regen found root state) :
    (regen.getCheckpointState P found ⟨epoch, root⟩).1 = .ok state' ↔
      regen.modules.processSlots state (computeStartSlotAtEpoch P epoch) = .ok state' := by
  obtain ⟨block, hblock, hslot, hstate⟩ := h.block
  unfold StateRegenerator.getCheckpointState StateRegenerator.getBlockSlotState
  simp only [hblock]
  split
  · rename_i hlt
    constructor
    · intro herror
      cases herror
    · intro hrun
      have hforward := hslots.forward hrun
      omega
  · rename_i hge
    have hle : (regen.modules.view state).slot ≤ computeStartSlotAtEpoch P epoch := by omega
    split
    · rename_i latest hlatest
      obtain ⟨e, he, hentry⟩ := CheckpointStateCache.getLatest_some hlatest
      have hcached := h.checkpointState e latest hentry
      have hearlier : computeStartSlotAtEpoch P e ≤ computeStartSlotAtEpoch P epoch := start_le_of_le he
      rw [passOn_eq_ok, processSlotsByCheckpoint_iff hlaws hslots (hlaws.processSlots_slot hcached ▸ hearlier),
        hlaws.processSlots_trans hcached hearlier]
    · split
      · rename_i e w hget
        rw [hget] at hstate
        cases hstate
      · rename_i blockState w hget
        rw [hget] at hstate
        obtain rfl : blockState = state := Except.ok.inj hstate
        rw [passOn_eq_ok, processSlotsByCheckpoint_iff hlaws hslots hle]

omit hslots in
theorem Moment.Truthful.findsState {hist : History regen.modules} (hdb : StoresHistory regen hist) (hfound : found.Truthful P hist)
    {block : ProtoBlock} (hblock : found.world.forkChoice.getBlock root = .ok (some block)) {w' : World}
    (hstate : regen.getState P found block.stateRoot = (.ok state, w')) : FindsState P regen found root state := by
  obtain ⟨rfl, hmem⟩ := ForkChoice.getBlock_some hfound.reachable.synced.wellFormed hblock
  have hknown := hfound.known block hmem
  have hreplayed := (getState_replayed hlaws hdb hfound hstate).replayed hknown
  refine ⟨⟨block, hblock, ?_, congrArg Prod.fst hstate⟩, fun e checkpointState hentry => ?_⟩
  · obtain ⟨own, hown, hmessage⟩ := hknown
    obtain ⟨own', hown', hslot⟩ := hreplayed.known hlaws
    rw [hown, Option.some.injEq] at hown'
    rw [hslot, ← hown', hmessage]
  · obtain ⟨⟨postState, hpost, hrun⟩, -⟩ := hfound.caches.checkpointState ⟨e, block.blockRoot⟩ checkpointState hentry
    rw [hreplayed.unique hlaws hpost] at hrun
    exact hrun

theorem FindsState.queued_iff (h : FindsState P regen found root state) (hlater : FindsState P regen later root state) :
    (QueuedStateRegenerator.getCheckpointState P regen found (.ok later) ⟨epoch, root⟩).1 = .ok state' ↔
      regen.modules.processSlots state (computeStartSlotAtEpoch P epoch) = .ok state' := by
  unfold QueuedStateRegenerator.getCheckpointState
  split
  · rename_i cached hcached
    rw [h.checkpointState epoch cached hcached, Except.ok.injEq, Except.ok.injEq]
  · exact hlater.getCheckpointState_iff hlaws hslots

end Regen

namespace Gossip

open Db StateTransition

variable {P : Preset} {SignatureSet : Type} {env : Env P} {cfg : ChainConfig} {headState : CachedBeaconState P}
  {voluntaryExit : SignedVoluntaryExit}

/-! ## The signature of an exit -/

/-- An `ISignatureSet` of one public key, which is undefined for an index that the map does not know. -/
structure SingleSignatureSet where
  pubkey : Option BLSPubkey
  signingRoot : Root
  signature : BLSSignature

structure ExitDomain where
  getDomain : Nat → Vector UInt8 32
  computeSigningRoot : VoluntaryExit → Vector UInt8 32 → Root

def getVoluntaryExitSignatureSet (config : ExitDomain) (state : CachedBeaconState P) (signedVoluntaryExit : SignedVoluntaryExit) :
    SingleSignatureSet :=
  let slot := computeStartSlotAtEpoch P signedVoluntaryExit.message.epoch
  let domain := config.getDomain slot
  { pubkey := (state.epochCtx.index2pubkey[signedVoluntaryExit.message.validatorIndex]?).join
    signingRoot := config.computeSigningRoot signedVoluntaryExit.message domain
    signature := signedVoluntaryExit.signature }

variable {slot epoch currentEpoch headSlot : Nat}

theorem getVoluntaryExitSignatureSet_slots {config : ExitDomain} {state : CachedBeaconState P} {v : Validator}
    (hrun : processSlots env cfg headState slot = .ok state) (hknows : KnowsPubkeys headState)
    (hv : state.validators[voluntaryExit.validatorIndex]? = some v) :
    getVoluntaryExitSignatureSet config state voluntaryExit = getVoluntaryExitSignatureSet config headState voluntaryExit := by
  obtain ⟨hpubkeys, hstate⟩ := processSlots_knowsPubkeys hrun hknows
  have hsame : (headState.pubkeys)[voluntaryExit.validatorIndex]? = some v.pubkey := by
    rw [← hpubkeys]
    unfold BeaconState.pubkeys
    rw [List.getElem?_map, hv]
    rfl
  obtain ⟨u, hu, hpubkey⟩ : ∃ u, headState.validators[voluntaryExit.validatorIndex]? = some u ∧ u.pubkey = v.pubkey := by
    unfold BeaconState.pubkeys at hsame
    rw [List.getElem?_map] at hsame
    exact Option.map_eq_some_iff.1 hsame
  have hkey : state.epochCtx.index2pubkey[voluntaryExit.message.validatorIndex]? =
      headState.epochCtx.index2pubkey[voluntaryExit.message.validatorIndex]? := by
    have hkey := hstate.get hv
    rw [← hpubkey, ← hknows.get hu] at hkey
    exact hkey
  unfold getVoluntaryExitSignatureSet
  rw [hkey]

/-! ## The chain -/

/-- What the validation of an exit has before it: the rest of the chain, and the regenerator with its caches, its fork choice
and its queue. -/
structure ExitChain (P : Preset) (SignatureSet : Type) where
  chain : OperationChain P
  /-- An `ISignatureSet` is of this type, or an aggregate. -/
  single : SingleSignatureSet → chain.SignatureSet
  config : ExitDomain
  codec : HexCodec
  regen : StateRegenerator (CachedBeaconState P) SignatureSet
  now : Moment (CachedBeaconState P)
  turn : Except QueueErrorCode (Moment (CachedBeaconState P))
  errorText : RegenThrown → String

namespace ExitChain

variable {x : ExitChain P SignatureSet}

def operationChain (x : ExitChain P SignatureSet) : OperationChain P :=
  { x.chain with
    getCheckpointState := fun cp => (QueuedStateRegenerator.getCheckpointState P x.regen x.now x.turn
      ⟨cp.epoch, x.codec.toHexRoot cp.root⟩).1.mapError x.errorText
    getVoluntaryExitSignatureSet := fun state voluntaryExit =>
      .ok (x.single (Gossip.getVoluntaryExitSignatureSet x.config state voluntaryExit)) }

/-- The state of the head, which the regenerator finds now and when its turn comes. -/
structure HasHead (x : ExitChain P SignatureSet) (env : Env P) (cfg : ChainConfig) (headState : CachedBeaconState P) : Prop where
  modules : ∃ contents rest, x.regen.modules = withStateTransition env cfg x.codec.toHexRoot contents rest
  head : x.now.world.forkChoice.getHeadRoot x.codec = some x.chain.getHeadRoot
  now : FindsState P x.regen x.now (x.codec.toHexRoot x.chain.getHeadRoot) headState
  later : ∃ later, x.turn = .ok later ∧ FindsState P x.regen later (x.codec.toHexRoot x.chain.getHeadRoot) headState
  fresh : Fresh env cfg headState
  knows : KnowsPubkeys headState

/-- The signature of an exit is valid, by the public key of its validator in the head state. -/
def ValidSignature (x : ExitChain P SignatureSet) (headState : CachedBeaconState P) (voluntaryExit : SignedVoluntaryExit) : Prop :=
  x.chain.verifySignatureSets [x.single (Gossip.getVoluntaryExitSignatureSet x.config headState voluntaryExit)] = .ok true

theorem HasHead.getCheckpointState_iff (h : x.HasHead env cfg headState) {epoch : Nat} {state : CachedBeaconState P} :
    x.operationChain.getCheckpointState { root := x.operationChain.getHeadRoot, epoch := epoch } = .ok state ↔
      processSlots env cfg headState (computeStartSlotAtEpoch P epoch) = .ok state := by
  obtain ⟨contents, rest, hmodules⟩ := h.modules
  obtain ⟨later, hturn, hlater⟩ := h.later
  have hlaws : Composes x.regen.modules := hmodules ▸ withStateTransition_composes
  have hslots : SlotBySlot x.regen.modules := hmodules ▸ withStateTransition_slotBySlot
  unfold operationChain
  simp only [mapError_eq_ok, hturn]
  rw [h.now.queued_iff hlaws hslots hlater, hmodules]
  exact toChainError_eq_ok

end ExitChain

/-! ## The exit on a state -/

def ValidAt (env : Env P) (cfg : ChainConfig) (headState : CachedBeaconState P) (voluntaryExit : SignedVoluntaryExit)
    (slot : Nat) : Prop :=
  ∃ state, processSlots env cfg headState slot = .ok state ∧ assertValidVoluntaryExit env cfg state voluntaryExit false = .ok ()

/-- In the head state advanced to a slot the validator is active, has not initiated its exit and has been active for long enough. -/
def MayExitAt (env : Env P) (cfg : ChainConfig) (headState : CachedBeaconState P) (validatorIndex slot : Nat) : Prop :=
  ∃ state v, processSlots env cfg headState slot = .ok state ∧ state.validators[validatorIndex]? = some v ∧
    isActiveValidator v (computeEpochAtSlot P slot) = true ∧ v.exitEpoch = FAR_FUTURE_EPOCH ∧
    v.activationEpoch + cfg.SHARD_COMMITTEE_PERIOD ≤ computeEpochAtSlot P slot

/-- `getHeadStateAtCurrentEpoch`: the slot to which the head state is advanced. -/
def bestSlot (P : Preset) (currentEpoch headSlot : Nat) : Nat :=
  let currentEpochStartSlot := computeStartSlotAtEpoch P currentEpoch
  if headSlot < currentEpochStartSlot then currentEpochStartSlot else headSlot

theorem validAt_iff (hfresh : Fresh env cfg headState) :
    ValidAt env cfg headState voluntaryExit slot ↔
      MayExitAt env cfg headState voluntaryExit.validatorIndex slot ∧ voluntaryExit.message.epoch ≤ computeEpochAtSlot P slot := by
  have hepoch : ∀ {state}, processSlots env cfg headState slot = .ok state →
      state.epochCtx.currentShuffling.epoch = computeEpochAtSlot P slot := by
    intro state hrun
    have hkept := processSlots_keeps advanceSlot_fresh hrun hfresh
    rw [hkept.currentEpoch]
    unfold getCurrentEpoch
    rw [(processSlots_slot hrun).2]
  constructor
  · rintro ⟨state, hrun, hvalid⟩
    obtain ⟨v, hv, hactive, hfar, hcome, hlong⟩ := assertValidVoluntaryExit_iff.1 hvalid
    rw [hepoch hrun] at hactive hcome hlong
    exact ⟨⟨state, v, hrun, hv, hactive, hfar, hlong⟩, hcome⟩
  · rintro ⟨⟨state, v, hrun, hv, hactive, hfar, hlong⟩, hcome⟩
    refine ⟨state, hrun, assertValidVoluntaryExit_iff.2 ?_⟩
    rw [hepoch hrun]
    exact ⟨v, hv, hactive, hfar, hcome, hlong⟩

theorem computeEpochAtSlot_start (epoch : Nat) : computeEpochAtSlot P (computeStartSlotAtEpoch P epoch) = epoch :=
  Nat.mul_div_cancel _ P.slotsPerEpoch_pos

theorem start_le_iff : computeStartSlotAtEpoch P epoch ≤ slot ↔ epoch ≤ computeEpochAtSlot P slot :=
  (Nat.le_div_iff_mul_le P.slotsPerEpoch_pos).symm

theorem computeEpochAtSlot_bestSlot (hclock : computeEpochAtSlot P headSlot ≤ currentEpoch) :
    computeEpochAtSlot P (bestSlot P currentEpoch headSlot) = currentEpoch := by
  unfold bestSlot
  dsimp only
  split
  · exact computeEpochAtSlot_start currentEpoch
  · rename_i hge
    exact Nat.le_antisymm hclock (start_le_iff.1 (Nat.le_of_not_lt hge))

theorem bestSlot_eq (hle : headSlot ≤ computeStartSlotAtEpoch P epoch) (hepoch : epoch ≤ currentEpoch)
    : bestSlot P currentEpoch headSlot = computeStartSlotAtEpoch P currentEpoch := by
  have hstart : computeStartSlotAtEpoch P epoch ≤ computeStartSlotAtEpoch P currentEpoch := Nat.mul_le_mul_right _ hepoch
  unfold bestSlot
  dsimp only
  split
  · rfl
  · omega

/-! ## What is accepted -/

/-- What the head state says of the validator at the epoch that the exit names is what it says now.  In an epoch still to come
the validator may not exit.  When the epoch started before the head, the validator may not exit now.  In an epoch between the
head and now it might exit exactly when it may exit now. -/
structure JudgedAlike (env : Env P) (cfg : ChainConfig) (headState : CachedBeaconState P) (voluntaryExit : SignedVoluntaryExit)
    (currentEpoch : Nat) : Prop where
  ahead : currentEpoch < voluntaryExit.message.epoch →
    ¬ MayExitAt env cfg headState voluntaryExit.validatorIndex (computeStartSlotAtEpoch P voluntaryExit.message.epoch)
  behind : computeStartSlotAtEpoch P voluntaryExit.message.epoch < headState.slot →
    ¬ MayExitAt env cfg headState voluntaryExit.validatorIndex (bestSlot P currentEpoch headState.slot)
  between : headState.slot ≤ computeStartSlotAtEpoch P voluntaryExit.message.epoch → voluntaryExit.message.epoch < currentEpoch →
    (MayExitAt env cfg headState voluntaryExit.validatorIndex (computeStartSlotAtEpoch P voluntaryExit.message.epoch) ↔
      MayExitAt env cfg headState voluntaryExit.validatorIndex (computeStartSlotAtEpoch P currentEpoch))

variable {x : ExitChain P SignatureSet} {db : VoluntaryExitRepository} {currentEpoch : Nat}

theorem accepted_iff (hhead : x.HasHead env cfg headState) (hnew : db.has voluntaryExit.validatorIndex = false) :
    validateGossipVoluntaryExit env cfg x.operationChain db voluntaryExit = .ok () ↔
      x.ValidSignature headState voluntaryExit ∧
        MayExitAt env cfg headState voluntaryExit.validatorIndex (computeStartSlotAtEpoch P voluntaryExit.message.epoch) := by
  have hvalid : ValidAt env cfg headState voluntaryExit (computeStartSlotAtEpoch P voluntaryExit.message.epoch) ↔ _ :=
    validAt_iff hhead.fresh
  rw [computeEpochAtSlot_start, and_iff_left (Nat.le_refl _)] at hvalid
  rw [← hvalid]
  unfold validateGossipVoluntaryExit
  rw [validateOperation_iff]
  constructor
  · rintro ⟨-, state, hstate, hassert, sets, hsets, hverified⟩
    have hrun := hhead.getCheckpointState_iff.1 hstate
    obtain ⟨v, hv, -⟩ := assertValidVoluntaryExit_iff.1 hassert
    have hset : getVoluntaryExitSignatureSet x.config state voluntaryExit = _ :=
      getVoluntaryExitSignatureSet_slots hrun hhead.knows hv
    obtain rfl : [x.single (getVoluntaryExitSignatureSet x.config state voluntaryExit)] = sets := Except.ok.inj hsets
    rw [hset] at hverified
    exact ⟨hverified, state, hrun, hassert⟩
  · rintro ⟨hsigned, state, hrun, hassert⟩
    obtain ⟨v, hv, -⟩ := assertValidVoluntaryExit_iff.1 hassert
    have hset : getVoluntaryExitSignatureSet x.config state voluntaryExit = _ :=
      getVoluntaryExitSignatureSet_slots hrun hhead.knows hv
    refine ⟨hnew, state, hhead.getCheckpointState_iff.2 hrun, hassert, _, rfl, ?_⟩
    rw [hset]
    exact hsigned

theorem judgedAlike_iff (hfresh : Fresh env cfg headState) (hclock : computeEpochAtSlot P headState.slot ≤ currentEpoch) :
    (MayExitAt env cfg headState voluntaryExit.validatorIndex (computeStartSlotAtEpoch P voluntaryExit.message.epoch) ↔
      ValidAt env cfg headState voluntaryExit (bestSlot P currentEpoch headState.slot)) ↔
    JudgedAlike env cfg headState voluntaryExit currentEpoch := by
  have hnow : ValidAt env cfg headState voluntaryExit (bestSlot P currentEpoch headState.slot) ↔ _ := validAt_iff hfresh
  rw [computeEpochAtSlot_bestSlot hclock] at hnow
  rw [hnow]
  have hbehind : computeStartSlotAtEpoch P voluntaryExit.message.epoch < headState.slot →
      ¬ MayExitAt env cfg headState voluntaryExit.validatorIndex (computeStartSlotAtEpoch P voluntaryExit.message.epoch) := by
    rintro hlt ⟨state, -, hrun, -⟩
    have hforward := (processSlots_slot hrun).1
    omega
  constructor
  · intro hsame
    refine ⟨fun hlt hmay => ?_, fun hlt hmay => ?_, fun hle hlt => ?_⟩
    · have hcome := (hsame.1 hmay).2
      omega
    · have hpast := start_le_iff.1 (Nat.le_of_lt hlt)
      exact hbehind hlt (hsame.2 ⟨hmay, Nat.le_trans hpast hclock⟩)
    · rw [hsame, bestSlot_eq hle (Nat.le_of_lt hlt), and_iff_left (Nat.le_of_lt hlt)]
  · intro hjudged
    rcases Nat.lt_or_ge currentEpoch voluntaryExit.message.epoch with hgt | hcome
    · exact iff_of_false (hjudged.ahead hgt) fun hmay => Nat.not_le_of_lt hgt hmay.2
    · by_cases hle : headState.slot ≤ computeStartSlotAtEpoch P voluntaryExit.message.epoch
      · rw [bestSlot_eq hle hcome, and_iff_left hcome]
        rcases Nat.eq_or_lt_of_le hcome with heq | hlt
        · rw [heq]
        · exact hjudged.between hle hlt
      · have hlt := Nat.lt_of_not_le hle
        exact iff_of_false (hbehind hlt) fun hmay => hjudged.behind hlt hmay.1

/-- **An exit that is signed is accepted as the head state at the current epoch would have it, exactly when it is judged alike
there.** -/
theorem validateGossipVoluntaryExit_iff (hhead : x.HasHead env cfg headState) (hnew : db.has voluntaryExit.validatorIndex = false)
    (hclock : computeEpochAtSlot P headState.slot ≤ currentEpoch) :
    (validateGossipVoluntaryExit env cfg x.operationChain db voluntaryExit = .ok () ↔
      x.ValidSignature headState voluntaryExit ∧ ValidAt env cfg headState voluntaryExit (bestSlot P currentEpoch headState.slot)) ↔
    (x.ValidSignature headState voluntaryExit → JudgedAlike env cfg headState voluntaryExit currentEpoch) := by
  rw [accepted_iff hhead hnew, and_congr_right_iff, judgedAlike_iff hhead.fresh hclock]

/-! ## An exit in the epoch of the head -/

def exitingState : BeaconState minimal := { awaitingDeposit with slot := 515 }

def exitingBlock : ProtoBlock := ⟨515, hexCodec.toHexRoot zeroRoot, "p", "s", hexCodec.toHexRoot zeroRoot, 0, 0⟩

def exitingWorld : World :=
  ⟨(ForkChoice.construct ⟨515, ⟨0, exitingBlock.blockRoot⟩, ⟨0, exitingBlock.blockRoot⟩, ⟨0, exitingBlock.blockRoot⟩⟩
    (ProtoArray.initializeWith exitingBlock) [] []).updateHead.2, []⟩

def exitingMoment (headState : CachedBeaconState minimal) : Moment (CachedBeaconState minimal) where
  caches := { stateCache := ⟨OrderedMap.empty.set "s" headState⟩, checkpointStateCache := ⟨.empty, .empty⟩ }
  world := exitingWorld

def exitingChain (headState : CachedBeaconState minimal) : ExitChain minimal Unit where
  chain := {
    SignatureSet := SingleSignatureSet
    getHeadState := .ok headState
    getHeadRoot := zeroRoot
    getCheckpointState := fun _ => .error "no state"
    getProposerSlashingSignatureSets := fun _ _ => .ok []
    getAttesterSlashingSignatureSets := fun _ _ => .ok []
    getVoluntaryExitSignatureSet := fun _ _ => .error "no set"
    verifySignatureSets := fun _ => .ok true }
  single := id
  config := { getDomain := fun _ => zeroRoot, computeSigningRoot := fun _ domain => domain }
  codec := hexCodec
  regen := {
    modules := withStateTransition (plainEnv minimal) (minimalConfig ⊤) hexCodec.toHexRoot (fun _ => depositBlock.message)
      idle
    getBlock := fun _ _ => none
    meanwhile := id }
  now := exitingMoment headState
  turn := .ok (exitingMoment headState)
  errorText := fun _ => "RegenError"

def exitOf (epoch : Nat) : SignedVoluntaryExit :=
  { message := { epoch := epoch, validatorIndex := 0 }, signature := Vector.replicate 96 0 }

theorem exitingState_loads : ∃ headState,
    createCachedBeaconState (plainEnv minimal) (minimalConfig ⊤) exitingState noOpts = .ok headState := by
  have hloads : (createCachedBeaconState (plainEnv minimal) (minimalConfig ⊤) exitingState noOpts).map (fun state => state.slot) =
      .ok 515 := by decide +kernel
  cases h : createCachedBeaconState (plainEnv minimal) (minimalConfig ⊤) exitingState noOpts with
  | error e =>
    rw [h] at hloads
    cases hloads
  | ok headState => exact ⟨headState, rfl⟩

variable {headState : CachedBeaconState minimal}

section

variable (h : createCachedBeaconState (plainEnv minimal) (minimalConfig ⊤) exitingState noOpts = .ok headState)
include h

theorem exitingState_slot : headState.slot = 515 := by
  obtain ⟨-, _, _, _, hst⟩ := createCachedBeaconState_ok h
  exact congrArg (·.slot) hst

theorem exitingChain_hasHead : (exitingChain headState).HasHead (plainEnv minimal) (minimalConfig ⊤) headState := by
  have hslot : headState.slot = 515 := exitingState_slot h
  have hblock : exitingWorld.forkChoice.getBlock (hexCodec.toHexRoot zeroRoot) = .ok (some exitingBlock) := by decide +kernel
  have hfinds : FindsState minimal (exitingChain headState).regen (exitingMoment headState) (hexCodec.toHexRoot zeroRoot)
      headState := by
    refine ⟨⟨exitingBlock, hblock, hslot.symm, rfl⟩, fun epoch checkpointState hentry => ?_⟩
    cases hentry
  refine ⟨⟨_, _, rfl⟩, ?_, hfinds, ⟨_, rfl, hfinds⟩, createCachedBeaconState_fresh h, (createCachedBeaconState_knowsPubkeys h).2⟩
  have hhead : exitingWorld.forkChoice.getHeadRoot hexCodec = some zeroRoot := by decide +kernel
  exact hhead

theorem exitingState_mayExit : MayExitAt (plainEnv minimal) (minimalConfig ⊤) headState 0 headState.slot := by
  obtain ⟨-, _, _, _, hst⟩ := createCachedBeaconState_ok h
  have hvalidators : headState.validators = awaitingDeposit.validators := congrArg (·.validators) hst
  refine ⟨headState, _, processSlots_self headState, by rw [hvalidators]; rfl, ?_⟩
  rw [exitingState_slot h]
  decide

theorem exitingState_mayExit_later : MayExitAt (plainEnv minimal) (minimalConfig ⊤) headState 0 520 := by
  have hrun : ((createCachedBeaconState (plainEnv minimal) (minimalConfig ⊤) exitingState noOpts).bind fun headState =>
      (processSlots (plainEnv minimal) (minimalConfig ⊤) headState 520).map fun state => state.validators[0]?.map fun v =>
        (isActiveValidator v 65, decide (v.exitEpoch = FAR_FUTURE_EPOCH), decide (v.activationEpoch + 64 ≤ 65))) =
      .ok (some (true, true, true)) := by decide +kernel
  rw [h] at hrun
  cases hslots : processSlots (plainEnv minimal) (minimalConfig ⊤) headState 520 with
  | error e =>
    simp only [Except.bind, hslots] at hrun
    cases hrun
  | ok state =>
    simp only [Except.bind, hslots] at hrun
    obtain ⟨v, hv, hmay⟩ := Option.map_eq_some_iff.1 (Except.ok.inj hrun)
    simp only [Prod.mk.injEq, decide_eq_true_eq] at hmay
    exact ⟨state, v, hslots, hv, hmay.1, hmay.2.1, hmay.2.2⟩

end

/-- An exit that names the current epoch, which starts after the head, is judged there. -/
theorem validateGossipVoluntaryExit_iff_current : ∃ headState,
    createCachedBeaconState (plainEnv minimal) (minimalConfig ⊤) exitingState noOpts = .ok headState ∧
    (validateGossipVoluntaryExit (plainEnv minimal) (minimalConfig ⊤) (exitingChain headState).operationChain .empty (exitOf 65) =
        .ok () ↔
      (exitingChain headState).ValidSignature headState (exitOf 65) ∧
        ValidAt (plainEnv minimal) (minimalConfig ⊤) headState (exitOf 65) (bestSlot minimal 65 headState.slot)) := by
  obtain ⟨headState, h⟩ := exitingState_loads
  have hslot : headState.slot = 515 := exitingState_slot h
  have hclock : computeEpochAtSlot minimal headState.slot ≤ 65 := by
    rw [hslot]
    decide
  refine ⟨headState, h, (validateGossipVoluntaryExit_iff (exitingChain_hasHead h) rfl hclock).2 fun _ => ⟨?_, ?_, ?_⟩⟩
  · exact fun hlt => absurd hlt (Nat.lt_irrefl 65)
  · intro hlt
    rw [hslot] at hlt
    exact absurd hlt (by decide)
  · exact fun _ hlt => absurd hlt (Nat.lt_irrefl 65)

/-- **An exit that names the epoch of the head is refused, and the head state has it valid; one that names the next epoch is
accepted before it comes.** -/
theorem currentExit_refused : ∃ headState,
    createCachedBeaconState (plainEnv minimal) (minimalConfig ⊤) exitingState noOpts = .ok headState ∧
    computeEpochAtSlot minimal headState.slot = 64 ∧
    (exitingChain headState).HasHead (plainEnv minimal) (minimalConfig ⊤) headState ∧
    (¬ validateGossipVoluntaryExit (plainEnv minimal) (minimalConfig ⊤) (exitingChain headState).operationChain .empty (exitOf 64) =
        .ok () ∧
      (exitingChain headState).ValidSignature headState (exitOf 64) ∧
      ValidAt (plainEnv minimal) (minimalConfig ⊤) headState (exitOf 64) (bestSlot minimal 64 headState.slot)) ∧
    validateGossipVoluntaryExit (plainEnv minimal) (minimalConfig ⊤) (exitingChain headState).operationChain .empty (exitOf 65) =
        .ok () ∧
      ¬ ValidAt (plainEnv minimal) (minimalConfig ⊤) headState (exitOf 65) (bestSlot minimal 64 headState.slot) := by
  obtain ⟨headState, h⟩ := exitingState_loads
  have hhead := exitingChain_hasHead h
  have hslot : headState.slot = 515 := exitingState_slot h
  have hepoch : computeEpochAtSlot minimal headState.slot = 64 := by rw [hslot]; rfl
  have hbest : bestSlot minimal 64 headState.slot = headState.slot := by rw [hslot]; rfl
  refine ⟨headState, h, hepoch, hhead, ⟨fun haccepted => ?_, rfl, ?_⟩, (accepted_iff hhead rfl).2 ⟨rfl, ?_⟩, fun hvalid => ?_⟩
  · obtain ⟨-, state, -, hrun, -⟩ := (accepted_iff hhead rfl).1 haccepted
    have hforward := (processSlots_slot hrun).1
    rw [hslot] at hforward
    exact absurd hforward (by decide)
  · rw [hbest, validAt_iff hhead.fresh, hepoch]
    exact ⟨exitingState_mayExit h, Nat.le_refl 64⟩
  · exact exitingState_mayExit_later h
  · have hcome := ((validAt_iff hhead.fresh).1 hvalid).2
    rw [hbest, hepoch] at hcome
    exact absurd hcome (by decide)

end Gossip

end Lodestar
