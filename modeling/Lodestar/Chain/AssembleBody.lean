import Lodestar.Chain.AttestationOnce
import Lodestar.Chain.GossipOperations
/-!
# AssembleBody — the operations of a block that the node makes itself

The body takes what the repositories give first, up to the limits of a block, and the aggregates that score best.  Each stored
operation was accepted alone, and nothing is looked at together: `assembleBody_accepted_iff` says when the block takes them.
-/
namespace Lodestar.Gossip

open Lib Db StateTransition
open scoped Lib.BigEndian

variable {P : Preset} {roots : OperationRoots}

/-! ## Aggregates for a block -/

def isValidAttestationSlot (P : Preset) (attestationSlot currentSlot : Nat) : Bool :=
  decide (attestationSlot + P.MIN_ATTESTATION_INCLUSION_DELAY ≤ currentSlot) &&
    decide (currentSlot ≤ attestationSlot + P.SLOTS_PER_EPOCH)

def sumBits (aggregationBits : List Bool) : Nat := aggregationBits.foldl (fun total bit => if bit then total + 1 else total) 0

def computeAttestationValueScore (attestation : Attestation) (toBeIncludedSlot : Nat) : Nat :=
  let inclusionDelay := min (toBeIncludedSlot - attestation.data.slot) 1
  let totalBits := sumBits attestation.aggregationBits
  totalBits / inclusionDelay

/-- Prefer most valuable aggregates; of two that are worth the same, the one that is stored first. -/
def getBlockAttestations (db : AggregateAndProofRepository roots) (state : BeaconState P) : List Attestation :=
  let validAggregates := (db.values none).filter fun aggregateAndProof =>
    isValidAttestationSlot P aggregateAndProof.aggregate.data.slot state.slot
  let validAggregatesScored := validAggregates.map fun aggregateAndProof =>
    (aggregateAndProof.aggregate, computeAttestationValueScore aggregateAndProof.aggregate state.slot)
  (validAggregatesScored.insertionSort fun a b => b.2 ≤ a.2).map (·.1)

theorem mem_getBlockAttestations {db : AggregateAndProofRepository roots} {state : BeaconState P} {attestation : Attestation} :
    attestation ∈ getBlockAttestations db state ↔ isValidAttestationSlot P attestation.data.slot state.slot = true ∧
      ∃ aggregateAndProof ∈ db.values none, aggregateAndProof.aggregate = attestation := by
  unfold getBlockAttestations
  dsimp only
  simp only [List.mem_map, List.mem_insertionSort, List.mem_filter]
  constructor
  · rintro ⟨_, ⟨aggregateAndProof, ⟨hmem, hslot⟩, rfl⟩, rfl⟩
    exact ⟨hslot, aggregateAndProof, hmem, rfl⟩
  · rintro ⟨hslot, aggregateAndProof, hmem, rfl⟩
    exact ⟨_, ⟨aggregateAndProof, ⟨hmem, hslot⟩, rfl⟩, rfl⟩

/-! ## The body -/

structure OperationDb (roots : OperationRoots) where
  proposerSlashing : ProposerSlashingRepository
  attesterSlashing : AttesterSlashingRepository roots
  aggregateAndProof : AggregateAndProofRepository roots
  voluntaryExit : VoluntaryExitRepository

def OperationDb.empty : OperationDb roots where
  proposerSlashing := .empty
  attesterSlashing := .empty
  aggregateAndProof := .empty
  voluntaryExit := .empty

/-- The pool of sync committee contributions and the eth1 service, as `assembleBody` calls them. -/
structure BodyModules (P : Preset) where
  getAggregate : (slot : Nat) → (prevBlockRoot : Root) → SyncAggregate
  getEth1DataAndDeposits : CachedBeaconState P → Except String (Eth1Data × List Deposit)

structure SyncAggregateData where
  parentSlot : Nat
  parentBlockRoot : Root

def noSyncAggregate : SyncAggregate := { syncCommitteeBits := [], syncCommitteeSignature := Vector.replicate 96 0 }

def assembleBody (cfg : ChainConfig) (modules : BodyModules P) (db : OperationDb roots) (currentState : CachedBeaconState P)
    (randaoReveal : BLSSignature) (graffiti : Root) (blockSlot : Nat) (syncAggregateData : SyncAggregateData) :
    Except String BeaconBlockBody := do
  let proposerSlashings := db.proposerSlashing.values (some P.MAX_PROPOSER_SLASHINGS)
  let attesterSlashings := db.attesterSlashing.values (some P.MAX_ATTESTER_SLASHINGS)
  let attestations := (getBlockAttestations db.aggregateAndProof currentState.toBeaconState).take P.MAX_ATTESTATIONS
  let voluntaryExits := db.voluntaryExit.values (some P.MAX_VOLUNTARY_EXITS)
  let (eth1Data, deposits) ← modules.getEth1DataAndDeposits currentState
  let blockBodyPhase0 := {
    randaoReveal, graffiti, eth1Data, proposerSlashings, attesterSlashings, attestations, deposits, voluntaryExits
    syncAggregate := noSyncAggregate : BeaconBlockBody }
  match getForkName P cfg blockSlot with
  | .phase0 => pure blockBodyPhase0
  | .altair =>
    pure { blockBodyPhase0 with
      syncAggregate := modules.getAggregate syncAggregateData.parentSlot syncAggregateData.parentBlockRoot }

/-! ## What the repositories hold -/

structure AcceptedAgainst (env : Env P) (cfg : ChainConfig) (sets : SignatureSets P) (s : CachedBeaconState P)
    (db : OperationDb roots) : Prop where
  proposerSlashing : ∀ op ∈ db.proposerSlashing.values none, ∃ (chain : OperationChain P) (before : ProposerSlashingRepository),
    chain.getHeadState = .ok s ∧ validateGossipProposerSlashing env chain before op = .ok ()
  attesterSlashing : ∀ op ∈ db.attesterSlashing.values none, ∃ (chain : OperationChain P) (before : AttesterSlashingRepository roots),
    chain.getHeadState = .ok s ∧ validateGossipAttesterSlashing env chain before op = .ok ()
  aggregateAndProof : ∀ op ∈ db.aggregateAndProof.values none, AggregateAccepted sets s op
  voluntaryExit : ∀ op ∈ db.voluntaryExit.values none, ∃ (chain : OperationChain P) (before : VoluntaryExitRepository),
    chain.getCheckpointState { root := chain.getHeadRoot, epoch := op.message.epoch } = .ok s ∧
      validateGossipVoluntaryExit env cfg chain before op = .ok ()

variable {env : Env P} {cfg : ChainConfig} {fork : ForkName} {sets : SignatureSets P} {s : CachedBeaconState P}
  {db : OperationDb roots}

/-- What the handlers store, one operation after another; an operation may have been validated before others were stored. -/
inductive Gossiped (env : Env P) (cfg : ChainConfig) (sets : SignatureSets P) (s : CachedBeaconState P) : OperationDb roots → Prop
  | empty : Gossiped env cfg sets s .empty
  | proposerSlashing {db : OperationDb roots} {chain : OperationChain P} {before : ProposerSlashingRepository}
      {op : ProposerSlashing} (hdb : Gossiped env cfg sets s db) (hstate : chain.getHeadState = .ok s)
      (hvalid : validateGossipProposerSlashing env chain before op = .ok ()) :
      Gossiped env cfg sets s { db with proposerSlashing := db.proposerSlashing.add op }
  | attesterSlashing {db : OperationDb roots} {chain : OperationChain P} {before : AttesterSlashingRepository roots}
      {op : AttesterSlashing} (hdb : Gossiped env cfg sets s db) (hstate : chain.getHeadState = .ok s)
      (hvalid : validateGossipAttesterSlashing env chain before op = .ok ()) :
      Gossiped env cfg sets s { db with attesterSlashing := db.attesterSlashing.add op }
  | aggregateAndProof {db : OperationDb roots} {op : AggregateAndProof} (hdb : Gossiped env cfg sets s db)
      (hvalid : AggregateAccepted sets s op) : Gossiped env cfg sets s { db with aggregateAndProof := db.aggregateAndProof.add op }
  | voluntaryExit {db : OperationDb roots} {chain : OperationChain P} {before : VoluntaryExitRepository}
      {op : SignedVoluntaryExit} (hdb : Gossiped env cfg sets s db)
      (hstate : chain.getCheckpointState { root := chain.getHeadRoot, epoch := op.message.epoch } = .ok s)
      (hvalid : validateGossipVoluntaryExit env cfg chain before op = .ok ()) :
      Gossiped env cfg sets s { db with voluntaryExit := db.voluntaryExit.add op }

theorem Gossiped.accepted (h : Gossiped env cfg sets s db) : AcceptedAgainst env cfg sets s db := by
  induction h with
  | empty => constructor <;> exact fun _ hop => absurd hop List.not_mem_nil
  | proposerSlashing _ hstate hvalid ih =>
    refine ⟨fun op hop => ?_, ih.attesterSlashing, ih.aggregateAndProof, ih.voluntaryExit⟩
    rcases StoredValues.mem_values_add hop with rfl | hop
    · exact ⟨_, _, hstate, hvalid⟩
    · exact ih.proposerSlashing op hop
  | attesterSlashing _ hstate hvalid ih =>
    refine ⟨ih.proposerSlashing, fun op hop => ?_, ih.aggregateAndProof, ih.voluntaryExit⟩
    rcases StoredValues.mem_values_add hop with rfl | hop
    · exact ⟨_, _, hstate, hvalid⟩
    · exact ih.attesterSlashing op hop
  | aggregateAndProof _ hvalid ih =>
    refine ⟨ih.proposerSlashing, ih.attesterSlashing, fun op hop => ?_, ih.voluntaryExit⟩
    rcases StoredValues.mem_values_add hop with rfl | hop
    · exact hvalid
    · exact ih.aggregateAndProof op hop
  | voluntaryExit _ hstate hvalid ih =>
    refine ⟨ih.proposerSlashing, ih.attesterSlashing, ih.aggregateAndProof, fun op hop => ?_⟩
    rcases StoredValues.mem_values_add hop with rfl | hop
    · exact ⟨_, _, hstate, hvalid⟩
    · exact ih.voluntaryExit op hop

theorem AcceptedAgainst.validAlone (h : AcceptedAgainst env cfg sets s db) : ValidAlone env cfg s
    (db.proposerSlashing.values (some P.MAX_PROPOSER_SLASHINGS)) (db.attesterSlashing.values (some P.MAX_ATTESTER_SLASHINGS))
    ((getBlockAttestations db.aggregateAndProof s.toBeaconState).take P.MAX_ATTESTATIONS)
    (db.voluntaryExit.values (some P.MAX_VOLUNTARY_EXITS)) where
  proposers := StoredValues.nodup_ids _
  exiting := StoredValues.nodup_ids _
  proposerSlashings op hop := by
    obtain ⟨chain, before, hstate, haccepted⟩ := h.proposerSlashing op ((StoredValues.values_sublist _).subset hop)
    exact validateOperation_valid hstate haccepted
  attesterSlashings op hop := by
    obtain ⟨chain, before, hstate, haccepted⟩ := h.attesterSlashing op ((StoredValues.values_sublist _).subset hop)
    exact validateOperation_valid hstate haccepted
  attestations op hop := by
    obtain ⟨hslot, aggregateAndProof, hmem, rfl⟩ := mem_getBlockAttestations.1 (List.mem_of_mem_take hop)
    obtain ⟨htarget, hattesters⟩ := (h.aggregateAndProof aggregateAndProof hmem).vouched
    unfold isValidAttestationSlot at hslot
    simp only [Bool.and_eq_true, decide_eq_true_eq] at hslot
    exact ⟨htarget, hslot.1, hslot.2, hattesters⟩
  voluntaryExits op hop := by
    obtain ⟨chain, before, hstate, haccepted⟩ := h.voluntaryExit op ((StoredValues.values_sublist _).subset hop)
    exact validateOperation_valid hstate haccepted

/-- **The body that is assembled from operations that were accepted alone goes through exactly where they are compatible.** -/
theorem assembleBody_accepted_iff (hwindow : InclusionWindow P) (hhead : HeadState env cfg s)
    (haccepted : AcceptedAgainst env cfg sets s db) {modules : BodyModules P} {eth1Data : Eth1Data} {deposits : List Deposit}
    (heth1 : modules.getEth1DataAndDeposits s = .ok (eth1Data, deposits)) (randaoReveal : BLSSignature) (graffiti : Root)
    (blockSlot : Nat) (syncAggregateData : SyncAggregateData) :
    ∃ body, assembleBody cfg modules db s randaoReveal graffiti blockSlot syncAggregateData = .ok body ∧
      ((∃ s', processOperations env cfg fork s body false = .ok s') ↔ Compatible env s
        (db.proposerSlashing.values (some P.MAX_PROPOSER_SLASHINGS)) (db.attesterSlashing.values (some P.MAX_ATTESTER_SLASHINGS))
        ((getBlockAttestations db.aggregateAndProof s.toBeaconState).take P.MAX_ATTESTATIONS) deposits
        (db.voluntaryExit.values (some P.MAX_VOLUNTARY_EXITS))) := by
  unfold assembleBody
  rw [heth1]
  have hvalid := haccepted.validAlone
  cases getForkName P cfg blockSlot with
  | phase0 => exact ⟨_, rfl, processOperations_returns_iff hwindow hhead hvalid⟩
  | altair => exact ⟨_, rfl, processOperations_returns_iff hwindow hhead hvalid⟩

/-! ## Two slashings of one validator -/

def proposerSlashingOf (proposerIndex : Nat) : ProposerSlashing :=
  let signedHeader := fun (byte : UInt8) => ({
    message := { slot := 13, proposerIndex, parentRoot := zeroRoot, stateRoot := zeroRoot, bodyRoot := Vector.replicate 32 byte }
    signature := noSignature } : SignedBeaconBlockHeader)
  { signedHeader1 := signedHeader 1, signedHeader2 := signedHeader 2 }

def slashingsDb (proposerIndex : Nat) : OperationDb plainRoots :=
  { OperationDb.empty with
    proposerSlashing := .add .empty (proposerSlashingOf proposerIndex)
    attesterSlashing := .add .empty doubleVote }

def eth1Modules : BodyModules minimal where
  getAggregate _ _ := noSyncAggregate
  getEth1DataAndDeposits s := .ok (s.eth1Data, [])

def twoValidators : BeaconState minimal := { awaitingDeposit with eth1DepositIndex := 3 }

def syncAggregateAt14 : SyncAggregateData := { parentSlot := 13, parentBlockRoot := zeroRoot }

theorem slashingsDb_gossiped {s : CachedBeaconState minimal} {proposerIndex : Nat}
    (hproposer : assertValidProposerSlashing (plainEnv minimal) s (proposerSlashingOf proposerIndex) false = .ok ())
    (hattester : assertValidAttesterSlashing (plainEnv minimal) s doubleVote false = .ok ()) :
    Gossiped (plainEnv minimal) (minimalConfig ⊤) plainSets s (slashingsDb proposerIndex) := by
  have hproposerSlashing : validateGossipProposerSlashing (plainEnv minimal) (headChain s) .empty (proposerSlashingOf proposerIndex) =
      .ok () := validateOperation_accepts hproposer rfl rfl
  have hattesterSlashing : validateGossipAttesterSlashing (plainEnv minimal) (headChain s)
      (.empty : AttesterSlashingRepository plainRoots) doubleVote = .ok () := validateOperation_accepts hattester rfl rfl
  exact .attesterSlashing (.proposerSlashing .empty rfl hproposerSlashing) rfl hattesterSlashing

theorem twoValidators_loads : ∃ s, createCachedBeaconState (plainEnv minimal) (minimalConfig ⊤) twoValidators noOpts = .ok s ∧
    HeadState (plainEnv minimal) (minimalConfig ⊤) s ∧ DepositsOwed (plainEnv minimal) s [] ∧ Slashable s 0 ∧
    AcceptedAgainst (plainEnv minimal) (minimalConfig ⊤) plainSets s (slashingsDb 0) ∧
    AcceptedAgainst (plainEnv minimal) (minimalConfig ⊤) plainSets s (slashingsDb 1) := by
  have heval : (createCachedBeaconState (plainEnv minimal) (minimalConfig ⊤) twoValidators noOpts >>= fun s =>
      assertValidProposerSlashing (plainEnv minimal) s (proposerSlashingOf 0) false >>= fun _ =>
      assertValidProposerSlashing (plainEnv minimal) s (proposerSlashingOf 1) false >>= fun _ =>
      assertValidAttesterSlashing (plainEnv minimal) s doubleVote false >>= fun _ =>
      (s.epochCtx.getBeaconProposer minimal s.slot).map fun proposer => (proposer, s.eth1Data.depositCount, s.eth1DepositIndex,
        s.validators[0]?.map fun v => isSlashableValidator v s.epochCtx.currentShuffling.epoch)) = .ok (0, 3, 3, some true) := by
    decide +kernel
  obtain ⟨s, hs, heval⟩ := bind_eq_ok.1 heval
  simp only [bind_eq_ok, map_eq_ok, Prod.mk.injEq, Option.map_eq_some_iff] at heval
  obtain ⟨_, hproposer₀, _, hproposer₁, _, hattester, _, hproposer, rfl, hcount, hindex, hslashable⟩ := heval
  have haligned := createCachedBeaconState_aligned hs rfl fun hfork => absurd hfork (by decide)
  refine ⟨s, hs, ⟨(createCachedBeaconState_fresh hs).duties, haligned, 0, hproposer⟩, ⟨?_, fun i deposit h => ?_⟩, hslashable,
    (slashingsDb_gossiped hproposer₀ hattester).accepted, (slashingsDb_gossiped hproposer₁ hattester).accepted⟩
  · rw [hcount, hindex]
    decide
  · cases h

/-- The proposer slashing slashes validator 0 first, and the attester slashing then has nobody left. -/
theorem assembleBody_clashes : ∃ s body,
    createCachedBeaconState (plainEnv minimal) (minimalConfig ⊤) twoValidators noOpts = .ok s ∧
    HeadState (plainEnv minimal) (minimalConfig ⊤) s ∧
    AcceptedAgainst (plainEnv minimal) (minimalConfig ⊤) plainSets s (slashingsDb 0) ∧
    assembleBody (minimalConfig ⊤) eth1Modules (slashingsDb 0) s noSignature zeroRoot 14 syncAggregateAt14 = .ok body ∧
    processOperations (plainEnv minimal) (minimalConfig ⊤) .phase0 s body false =
      .error "AttesterSlashing did not result in any slashings" := by
  have heval : (createCachedBeaconState (plainEnv minimal) (minimalConfig ⊤) twoValidators noOpts >>= fun s =>
      (assembleBody (minimalConfig ⊤) eth1Modules (slashingsDb 0) s noSignature zeroRoot 14 syncAggregateAt14).map fun body =>
        (processOperations (plainEnv minimal) (minimalConfig ⊤) .phase0 s body false).map fun s' => s'.balances) =
      .ok (.error "AttesterSlashing did not result in any slashings") := by
    decide +kernel
  obtain ⟨s, hs, hhead, -, -, haccepted, -⟩ := twoValidators_loads
  obtain ⟨s₁, hs₁, heval⟩ := bind_eq_ok.1 heval
  obtain rfl : s = s₁ := Except.ok.inj (hs.symm.trans hs₁)
  obtain ⟨body, hbody, heval⟩ := map_eq_ok.1 heval
  refine ⟨s, body, hs, hhead, haccepted, hbody, ?_⟩
  cases hrun : processOperations (plainEnv minimal) (minimalConfig ⊤) .phase0 s body false with
  | ok s' =>
    rw [hrun] at heval
    cases heval
  | error message =>
    rw [hrun] at heval
    cases heval
    rfl

/-- The same vote, when it is another validator that has signed two headers. -/
theorem assembleBody_goes_through : ∃ s body s',
    createCachedBeaconState (plainEnv minimal) (minimalConfig ⊤) twoValidators noOpts = .ok s ∧
    assembleBody (minimalConfig ⊤) eth1Modules (slashingsDb 1) s noSignature zeroRoot 14 syncAggregateAt14 = .ok body ∧
    processOperations (plainEnv minimal) (minimalConfig ⊤) .phase0 s body false = .ok s' := by
  obtain ⟨s, hs, hhead, hdeposits, hslashable, -, haccepted⟩ := twoValidators_loads
  have heth1 : eth1Modules.getEth1DataAndDeposits s = .ok (s.eth1Data, []) := rfl
  obtain ⟨body, hbody, hiff⟩ := @assembleBody_accepted_iff minimal plainRoots (plainEnv minimal) (minimalConfig ⊤) .phase0
    plainSets s (slashingsDb 1) minimal_inclusionWindow hhead haccepted eth1Modules s.eth1Data [] heth1 noSignature zeroRoot 14
    syncAggregateAt14
  have hslashes : ∀ before slashing after, [doubleVote] = before ++ slashing :: after → ∃ index, slashing.Names index ∧
      Slashable s index ∧ (∀ op ∈ [proposerSlashingOf 1], op.proposerIndex ≠ index) ∧ ∀ op ∈ before, ¬ op.Names index := by
    intro before slashing after hsplit
    obtain ⟨rfl, hsplit⟩ | ⟨rest, rfl, hsplit⟩ := List.cons_eq_append_iff.1 hsplit
    · cases hsplit
      exact ⟨0, ⟨List.mem_singleton.2 rfl, List.mem_singleton.2 rfl⟩, hslashable, by decide, fun op hop => absurd hop List.not_mem_nil⟩
    · simp at hsplit
  obtain ⟨s', hs'⟩ := hiff.2 ⟨hslashes, fun op hop => absurd hop List.not_mem_nil, hdeposits,
    fun exit hexit => absurd hexit List.not_mem_nil⟩
  exact ⟨s, body, s', hs, hbody, hs'⟩

/-! ## The block -/

/-- Only the block is processed, since the state is at its slot already, and what it is assembled from is trusted. -/
def computeNewStateRoot (env : Env P) (cfg : ChainConfig) (state : CachedBeaconState P) (block : BeaconBlock) : Except String Root := do
  let postState ← StateTransition.processBlock env cfg state block false
  pure (env.stateRoot (getForkName P cfg state.slot) postState.toBeaconState)

def assembleBlock (env : Env P) (cfg : ChainConfig) (modules : BodyModules P) (db : OperationDb roots) (headRoot : Root)
    (state : CachedBeaconState P) (slot : Nat) (randaoReveal : BLSSignature) (graffiti : Root) : Except String BeaconBlock := do
  let proposerIndex ← state.epochCtx.getBeaconProposer P slot
  let body ← assembleBody cfg modules db state randaoReveal graffiti slot { parentSlot := slot - 1, parentBlockRoot := headRoot }
  match proposerIndex with
  | .ofNat proposerIndex => do
    let block := { slot, proposerIndex, parentRoot := headRoot, stateRoot := zeroRoot, body : BeaconBlock }
    pure { block with stateRoot := ← computeNewStateRoot env cfg state block }
  -- no validator has the index -1
  | .negSucc _ => throw typeError

/-- **A block that is assembled on the head is imported on it**: whoever signs it, and with whatever the proposer's signature is
taken for, the transition of the head's state goes through and finds the state root of the block. -/
theorem assembleBlock_imported {headState : CachedBeaconState P} {slot : Nat} (hstate : processSlots env cfg headState slot = .ok s)
    {modules : BodyModules P} {headRoot : Root} {randaoReveal : BLSSignature} {graffiti : Root} {block : BeaconBlock}
    (h : assembleBlock env cfg modules db headRoot s slot randaoReveal graffiti = .ok block) (signature : BLSSignature)
    {verifyProposer : Bool} (hproposer : verifyProposer = true → env.verifyProposerSignature s { message := block, signature } = .ok true) :
    block.slot = slot ∧ block.parentRoot = headRoot ∧ ∃ postState, stateTransition env cfg headState { message := block, signature }
      { verifyStateRoot := true, verifyProposer, verifySignatures := false } = .ok postState ∧
      block.stateRoot = env.stateRoot (getForkName P cfg slot) postState.toBeaconState := by
  have hslot := (processSlots_slot hstate).2
  unfold assembleBlock at h
  obtain ⟨proposerIndex, -, h⟩ := bind_eq_ok.1 h
  obtain ⟨body, -, h⟩ := bind_eq_ok.1 h
  cases proposerIndex with
  | negSucc n => cases h
  | ofNat proposerIndex =>
    obtain ⟨stateRoot, hroot, h⟩ := bind_eq_ok.1 h
    rw [pure_eq_ok] at h
    unfold computeNewStateRoot at hroot
    obtain ⟨postState, hpost, hroot⟩ := bind_eq_ok.1 hroot
    rw [pure_eq_ok, hslot] at hroot
    subst h
    -- the state root of the block is not read where it is processed
    refine ⟨rfl, rfl, postState, ?_, hroot.symm⟩
    have hpostSlot : postState.slot = slot := (Path.processBlock_slot hpost).trans hslot
    have hvalid : (if verifyProposer = true then env.verifyProposerSignature s ⟨⟨slot, proposerIndex, headRoot, stateRoot, body⟩, signature⟩
        else pure true) = .ok true := by
      split
      · exact hproposer ‹_›
      · rfl
    unfold stateTransition
    simp only [bind_eq_ok, pure_eq_ok]
    refine ⟨s, hstate, true, hvalid, (), rfl, postState, hpost, (), ?_, rfl⟩
    rw [check_eq_ok, hpostSlot, hroot]
    simp

/-- The block of the first slot of the next epoch, with a proposer slashing and the vote of another validator. -/
theorem assembleBlock_imported_slashings : ∃ headState s block postState,
    createCachedBeaconState (plainEnv minimal) (minimalConfig ⊤) twoValidators noOpts = .ok headState ∧
    processSlots (plainEnv minimal) (minimalConfig ⊤) headState 16 = .ok s ∧
    assembleBlock (plainEnv minimal) (minimalConfig ⊤) eth1Modules (slashingsDb 1) zeroRoot s 16 noSignature zeroRoot = .ok block ∧
    stateTransition (plainEnv minimal) (minimalConfig ⊤) headState { message := block, signature := noSignature }
      { verifyStateRoot := true, verifyProposer := false, verifySignatures := false } = .ok postState := by
  have heval : (createCachedBeaconState (plainEnv minimal) (minimalConfig ⊤) twoValidators noOpts >>= fun headState =>
      processSlots (plainEnv minimal) (minimalConfig ⊤) headState 16 >>= fun s =>
      (assembleBlock (plainEnv minimal) (minimalConfig ⊤) eth1Modules (slashingsDb 1) zeroRoot s 16 noSignature zeroRoot).map
        fun block => block.body.proposerSlashings.length) = .ok 1 := by
    decide +kernel
  obtain ⟨headState, hhead, heval⟩ := bind_eq_ok.1 heval
  obtain ⟨s, hs, heval⟩ := bind_eq_ok.1 heval
  obtain ⟨block, hblock, -⟩ := map_eq_ok.1 heval
  obtain ⟨-, -, postState, hpost, -⟩ := assembleBlock_imported hs hblock noSignature (fun h : false = true => absurd h (by decide))
  exact ⟨headState, s, block, postState, hhead, hs, hblock, hpost⟩

end Lodestar.Gossip
