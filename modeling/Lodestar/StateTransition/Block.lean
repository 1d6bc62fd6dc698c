import Lodestar.StateTransition.EpochContext
/-!
# Block — the operations of a block on the cached state

Header, randao, eth1 data, slashings, attestations, deposits, exits and the sync aggregate, in both forks.  The exits of one
block share the end of the exit queue through `ValidatorExitCache`.  An operation that throws stops the block.
-/
namespace Lodestar.StateTransition

open Lib

variable {P : Preset} (env : Env P) (cfg : ChainConfig)

/-! ## Header, randao and eth1 data -/

section

variable (state : CachedBeaconState P)

def processBlockHeader (block : BeaconBlock) : Except String (CachedBeaconState P) := do
  let slot := state.slot
  check (block.slot = slot) s!"Block slot does not match state slotblockSlot={block.slot} stateSlot={slot}"
  check (state.latestBlockHeader.slot < block.slot)
    s!"Block is not newer than latest block headerblockSlot={block.slot} latestBlockHeader.slot={state.latestBlockHeader.slot}"
  let proposerIndex ← state.epochCtx.getBeaconProposer P slot
  check ((block.proposerIndex : Int) = proposerIndex)
    s!"Block proposer index does not match state proposer indexblockProposerIndex={block.proposerIndex} stateProposerIndex={proposerIndex}"
  check (block.parentRoot = env.headerRoot state.latestBlockHeader)
    s!"Block parent root does not match state latest block, block slot={slot}"
  let latestBlockHeader := {
    slot := slot
    proposerIndex := block.proposerIndex
    parentRoot := block.parentRoot
    stateRoot := zeroRoot
    bodyRoot := env.bodyRoot (getForkName P cfg slot) block.body }
  let proposer ← getAt typeError state.validators block.proposerIndex
  check (!proposer.slashed) "Block proposer is slashed"
  pure { state with latestBlockHeader }

def processRandao (block : BeaconBlock) (verifySignature : Bool) : Except String (CachedBeaconState P) := do
  let epoch := state.epochCtx.currentShuffling.epoch
  let valid ← (if verifySignature then env.verifyRandaoSignature state block else pure true)
  check valid "RANDAO reveal is an invalid signature"
  let mix := (getRandaoMix state.toBeaconState epoch).zipWith (· ^^^ ·) (env.hash block.body.randaoReveal.toList)
  let randaoMixes := state.randaoMixes.set (epoch % P.EPOCHS_PER_HISTORICAL_VECTOR) mix
    (Nat.mod_lt _ (historicalVector_pos P))
  pure { state with randaoMixes }

/-- Returns `newEth1Data` if adding it to the votes would result in a change to the state's eth1 data. -/
def getNewEth1Data (state : BeaconState P) (newEth1Data : Eth1Data) : Option Eth1Data :=
  let SLOTS_PER_ETH1_VOTING_PERIOD := P.EPOCHS_PER_ETH1_VOTING_PERIOD * P.SLOTS_PER_EPOCH
  -- If there are not more than 50% votes, then we do not have to count to find a winner.
  if (state.eth1DataVotes.length + 1) * 2 ≤ SLOTS_PER_ETH1_VOTING_PERIOD then none
  else if state.eth1Data = newEth1Data then none
  else
    let sameVotesCount := (state.eth1DataVotes.filter fun e => decide (e = newEth1Data)).length
    -- The +1 is to account for the `eth1Data` supplied to the function.
    if SLOTS_PER_ETH1_VOTING_PERIOD < (sameVotesCount + 1) * 2 then some newEth1Data else none

def processEth1Data (body : BeaconBlockBody) : CachedBeaconState P :=
  let eth1Data := if (getNewEth1Data state.toBeaconState body.eth1Data).isSome then body.eth1Data else state.eth1Data
  { state with eth1Data, eth1DataVotes := state.eth1DataVotes ++ [body.eth1Data] }

/-! ## Exits and slashings -/

structure ValidatorExitCache where
  exitQueueEpoch : Option ℕ∞
  exitQueueChurn : Option Nat
  churnLimit : Option Nat

def ValidatorExitCache.empty : ValidatorExitCache := { exitQueueEpoch := none, exitQueueChurn := none, churnLimit := none }

def exitQueueFrom (start : ℕ∞ × Nat) (validators : List Validator) : ℕ∞ × Nat :=
  validators.foldl (fun queue v =>
    if v.exitEpoch = FAR_FUTURE_EPOCH then queue
    else if v.exitEpoch = queue.1 then (queue.1, queue.2 + 1)
    else if queue.1 < v.exitEpoch then (v.exitEpoch, 0)
    else queue) start

def nextExitEpoch (cache : ValidatorExitCache) : Except String (ℕ∞ × ValidatorExitCache) :=
  match cache.exitQueueEpoch with
  | none =>
    -- the 1st time we process validator exit in this block
    let currentEpoch := state.epochCtx.currentShuffling.epoch
    let (exitQueueEpoch, exitQueueChurn) :=
      exitQueueFrom ((computeActivationExitEpoch P currentEpoch : Nat), 0) state.validators
    let churnLimit := getChurnLimit cfg state.epochCtx.currentShuffling.activeIndices.length
    -- 1st validator with this exitQueueEpoch
    let (exitQueueEpoch, exitQueueChurn) :=
      if churnLimit ≤ exitQueueChurn then (exitQueueEpoch + 1, 1) else (exitQueueEpoch, exitQueueChurn)
    pure (exitQueueEpoch,
      { exitQueueEpoch := some exitQueueEpoch, exitQueueChurn := some exitQueueChurn, churnLimit := some churnLimit })
  | some exitQueueEpoch =>
    match cache.exitQueueChurn, cache.churnLimit with
    | some exitQueueChurn, some churnLimit =>
      let exitQueueChurn := exitQueueChurn + 1
      -- 1st validator with this exitQueueEpoch
      let (exitQueueEpoch, exitQueueChurn) :=
        if churnLimit ≤ exitQueueChurn then (exitQueueEpoch + 1, 0) else (exitQueueEpoch, exitQueueChurn)
      pure (exitQueueEpoch,
        { cache with exitQueueEpoch := some exitQueueEpoch, exitQueueChurn := some exitQueueChurn })
    | _, _ => throw "Invalid ValidatorExitProcess"

def initiateValidatorExit (index : Nat) (cache : ValidatorExitCache) :
    Except String (CachedBeaconState P × ValidatorExitCache) := do
  let validator ← getAt typeError state.validators index
  if validator.exitEpoch ≠ FAR_FUTURE_EPOCH then pure (state, cache)
  else
    let (exitQueueEpoch, cache) ← nextExitEpoch cfg state cache
    pure (updateValidator state index fun v => { v with
      exitEpoch := exitQueueEpoch, withdrawableEpoch := exitQueueEpoch + cfg.MIN_VALIDATOR_WITHDRAWABILITY_DELAY }, cache)

section

variable (fork : ForkName)

def slashValidatorAllForks (state : CachedBeaconState P) (slashedIndex : Nat) (cache : ValidatorExitCache)
    (whistleblowerIndex : Option Nat) : Except String (CachedBeaconState P × ValidatorExitCache) := do
  let epoch := state.epochCtx.currentShuffling.epoch
  let (state, cache) ← initiateValidatorExit cfg state slashedIndex cache
  let validator ← getAt typeError state.validators slashedIndex
  let withdrawableEpoch : ℕ∞ := (epoch + P.EPOCHS_PER_SLASHINGS_VECTOR : Nat)
  -- the later of the two
  let state := updateValidator state slashedIndex fun v => { v with
    slashed := true
    withdrawableEpoch := if v.withdrawableEpoch ≤ withdrawableEpoch then withdrawableEpoch else v.withdrawableEpoch }
  let slot := epoch % P.EPOCHS_PER_SLASHINGS_VECTOR
  let slot_lt : slot < P.EPOCHS_PER_SLASHINGS_VECTOR := Nat.mod_lt _ P.slashingsVector_pos
  let slashings := state.slashings.set slot (state.slashings.get ⟨slot, slot_lt⟩ + validator.effectiveBalance) slot_lt
  let state := { state with slashings }
  let quotient := match fork with
    | .phase0 => P.MIN_SLASHING_PENALTY_QUOTIENT
    | .altair => P.MIN_SLASHING_PENALTY_QUOTIENT_ALTAIR
  let state ← decreaseBalance state slashedIndex (validator.effectiveBalance / quotient)
  let proposerIndex ← asIndex (← state.epochCtx.getBeaconProposer P state.slot)
  let whistleblowerIndex := whistleblowerIndex.getD proposerIndex
  let whistleblowerReward := validator.effectiveBalance / P.WHISTLEBLOWER_REWARD_QUOTIENT
  let proposerReward := match fork with
    | .phase0 => whistleblowerReward / P.PROPOSER_REWARD_QUOTIENT
    | .altair => whistleblowerReward * PROPOSER_WEIGHT / WEIGHT_DENOMINATOR
  let state ← increaseBalance state proposerIndex proposerReward
  let state ← increaseBalance state whistleblowerIndex (whistleblowerReward - proposerReward)
  pure (state, cache)

def assertValidProposerSlashing (proposerSlashing : ProposerSlashing) (verifySignatures : Bool) : Except String Unit := do
  let header1 := proposerSlashing.signedHeader1.message
  let header2 := proposerSlashing.signedHeader2.message
  check (header1.slot = header2.slot) s!"ProposerSlashing slots do not match: slot1={header1.slot} slot2={header2.slot}"
  check (header1.proposerIndex = header2.proposerIndex)
    s!"ProposerSlashing proposer indices do not match: proposerIndex1={header1.proposerIndex} slot2={header2.proposerIndex}"
  check (header1 ≠ header2) "ProposerSlashing headers are equal"
  let proposer ← getAt typeError state.validators header1.proposerIndex
  check (isSlashableValidator proposer state.epochCtx.currentShuffling.epoch) "ProposerSlashing proposer is not slashable"
  if verifySignatures then
    check (← env.verifyProposerSlashingSignature state proposerSlashing false) "ProposerSlashing header1 signature invalid"
    check (← env.verifyProposerSlashingSignature state proposerSlashing true) "ProposerSlashing header2 signature invalid"
  else pure ()

def processProposerSlashing (state : CachedBeaconState P) (proposerSlashing : ProposerSlashing) (cache : ValidatorExitCache)
    (verifySignatures : Bool) : Except String (CachedBeaconState P × ValidatorExitCache) := do
  assertValidProposerSlashing env state proposerSlashing verifySignatures
  slashValidatorAllForks cfg fork state proposerSlashing.signedHeader1.message.proposerIndex cache none

def strictlyIncreasing : List Nat → Bool
  | a :: b :: l => decide (a < b) && strictlyIncreasing (b :: l)
  | _ => true

def isValidIndexedAttestation (indexedAttestation : IndexedAttestation) (verifySignature : Bool) : Except String Bool :=
  let indices := indexedAttestation.attestingIndices
  if !(decide (0 < indices.length) && decide (indices.length ≤ P.MAX_VALIDATORS_PER_COMMITTEE)) then pure false
  else if !strictlyIncreasing indices then pure false
  -- check if indices are out of bounds, by checking the highest index (since it is sorted)
  else if state.validators.length ≤ indices.getLastD 0 then pure false
  else if !verifySignature then pure true
  else env.verifyIndexedAttestationSignature state indexedAttestation

def assertValidAttesterSlashing (attesterSlashing : AttesterSlashing) (verifySignatures : Bool) : Except String Unit := do
  let attestation1 := attesterSlashing.attestation1
  let attestation2 := attesterSlashing.attestation2
  check (isSlashableAttestationData attestation1.data attestation2.data) "AttesterSlashing is not slashable"
  check (← isValidIndexedAttestation env state attestation1 verifySignatures)
    "AttesterSlashing attestation1 is not a valid IndexedAttestation"
  check (← isValidIndexedAttestation env state attestation2 verifySignatures)
    "AttesterSlashing attestation2 is not a valid IndexedAttestation"

def slashEach (state : CachedBeaconState P) (cache : ValidatorExitCache) (indices : List Nat) :
    Except String ((CachedBeaconState P × ValidatorExitCache) × Bool) :=
  indices.foldlM (fun acc index => do
    let ((state, cache), slashedAny) := acc
    let validator ← getAt typeError state.validators index
    if isSlashableValidator validator state.epochCtx.currentShuffling.epoch then do
      let next ← slashValidatorAllForks cfg fork state index cache none
      pure (next, true)
    else pure ((state, cache), slashedAny)) ((state, cache), false)

def processAttesterSlashing (state : CachedBeaconState P) (attesterSlashing : AttesterSlashing) (cache : ValidatorExitCache)
    (verifySignatures : Bool) : Except String (CachedBeaconState P × ValidatorExitCache) := do
  assertValidAttesterSlashing env state attesterSlashing verifySignatures
  let attSet1 := attesterSlashing.attestation1.attestingIndices.eraseDups
  let attSet2 := attesterSlashing.attestation2.attestingIndices
  let indices := (attSet1.filter (attSet2.contains ·)).insertionSort (· ≤ ·)
  let (next, slashedAny) ← slashEach cfg fork state cache indices
  check slashedAny "AttesterSlashing did not result in any slashings"
  pure next

def assertValidVoluntaryExit (signedVoluntaryExit : SignedVoluntaryExit) (verifySignature : Bool) : Except String Unit := do
  let voluntaryExit := signedVoluntaryExit.message
  let validator ← getAt typeError state.validators voluntaryExit.validatorIndex
  let currentEpoch := state.epochCtx.currentShuffling.epoch
  check (isActiveValidator validator currentEpoch) "VoluntaryExit validator is not active"
  check (validator.exitEpoch = FAR_FUTURE_EPOCH) "VoluntaryExit validator exit has already been initiated: "
  -- exits must specify an epoch when they become valid; they are not valid before then
  check (voluntaryExit.epoch ≤ currentEpoch)
    s!"VoluntaryExit epoch is not yet valid: epoch={voluntaryExit.epoch} currentEpoch={currentEpoch}"
  check (validator.activationEpoch + cfg.SHARD_COMMITTEE_PERIOD ≤ currentEpoch)
    "VoluntaryExit validator has not been active for long enough"
  let valid ← (if verifySignature then env.verifyVoluntaryExitSignature state signedVoluntaryExit else pure true)
  check valid "VoluntaryExit has an invalid signature"

def processVoluntaryExit (signedVoluntaryExit : SignedVoluntaryExit) (cache : ValidatorExitCache) (verifySignature : Bool) :
    Except String (CachedBeaconState P × ValidatorExitCache) := do
  assertValidVoluntaryExit env cfg state signedVoluntaryExit verifySignature
  initiateValidatorExit cfg state signedVoluntaryExit.message.validatorIndex cache

/-! ## Attestations -/

def validateAttestation (attestation : Attestation) : Except String Unit := do
  let epochCtx := state.epochCtx
  let slot := state.slot
  let data := attestation.data
  let computedEpoch := computeEpochAtSlot P data.slot
  let committeeCount ← epochCtx.getCommitteeCountPerSlot computedEpoch
  check (data.index < committeeCount)
    s!"Attestation committee index not within current committee count: committeeIndex={data.index} committeeCount={committeeCount}"
  check (data.target.epoch = epochCtx.previousShuffling.epoch ∨ data.target.epoch = epochCtx.currentShuffling.epoch)
    s!"Attestation target epoch not in previous or current epoch: targetEpoch={data.target.epoch} currentEpoch={epochCtx.currentShuffling.epoch}"
  check (data.target.epoch = computedEpoch)
    s!"Attestation target epoch does not match epoch computed from slot: targetEpoch={data.target.epoch} computedEpoch={computedEpoch}"
  check (data.slot + P.MIN_ATTESTATION_INCLUSION_DELAY ≤ slot ∧ slot ≤ data.slot + P.SLOTS_PER_EPOCH)
    s!"Attestation slot not within inclusion window: slot={data.slot} window={data.slot + P.MIN_ATTESTATION_INCLUSION_DELAY}..{data.slot + P.SLOTS_PER_EPOCH}"
  let committee ← epochCtx.getBeaconCommittee P data.slot data.index
  check (attestation.aggregationBits.length = committee.length)
    s!"Attestation aggregation bits length does not match committee length: aggregationBitsLength={attestation.aggregationBits.length} committeeLength={committee.length}"

def processAttestationPhase0 (attestation : Attestation) (verifySignature : Bool) : Except String (CachedBeaconState P) := do
  let epochCtx := state.epochCtx
  let data := attestation.data
  validateAttestation state attestation
  let proposerIndex ← epochCtx.getBeaconProposer P state.slot
  let pendingAttestation :=
    { data, aggregationBits := attestation.aggregationBits, inclusionDelay := state.slot - data.slot, proposerIndex }
  let next ← (if data.target.epoch = epochCtx.currentShuffling.epoch then do
      check (data.source = state.currentJustifiedCheckpoint) "Attestation source does not equal current justified checkpoint: "
      pure { state with currentEpochAttestations := state.currentEpochAttestations ++ [pendingAttestation] }
    else do
      check (data.source = state.previousJustifiedCheckpoint) "Attestation source does not equal previous justified checkpoint: "
      pure { state with previousEpochAttestations := state.previousEpochAttestations ++ [pendingAttestation] })
  let indexedAttestation ← epochCtx.getIndexedAttestation P attestation
  check (← isValidIndexedAttestation env next indexedAttestation verifySignature) "Attestation is not valid"
  pure next

def getAttestationParticipationStatus (data : AttestationData) (inclusionDelay : Nat) : Except String ParticipationStatus := do
  let justifiedCheckpoint := if data.target.epoch = state.epochCtx.currentShuffling.epoch
    then state.currentJustifiedCheckpoint else state.previousJustifiedCheckpoint
  let isMatchingSource := decide (data.source = justifiedCheckpoint)
  check isMatchingSource "Attestation source does not equal justified checkpoint: "
  let targetRoot ← getBlockRoot state.toBeaconState data.target.epoch
  let isMatchingTarget := decide (data.target.root = targetRoot)
  -- a timely head is only be set if the target is _also_ matching
  let isMatchingHead ← (if isMatchingTarget then do
      let headRoot ← getBlockRootAtSlot state.toBeaconState data.slot
      pure (decide (data.beaconBlockRoot = headRoot))
    else pure false)
  pure {
    timelySource := isMatchingSource && decide (inclusionDelay ≤ bigIntSqrt P.SLOTS_PER_EPOCH)
    timelyTarget := isMatchingTarget && decide (inclusionDelay ≤ P.SLOTS_PER_EPOCH)
    timelyHead := isMatchingHead && decide (inclusionDelay = P.MIN_ATTESTATION_INCLUSION_DELAY) }

def ParticipationStatus.or (a b : ParticipationStatus) : ParticipationStatus :=
  { timelyHead := a.timelyHead || b.timelyHead
    timelyTarget := a.timelyTarget || b.timelyTarget
    timelySource := a.timelySource || b.timelySource }

def newWeight (status flags : ParticipationStatus) : Nat :=
  (if !status.timelySource && flags.timelySource then TIMELY_SOURCE_WEIGHT else 0) +
  (if !status.timelyTarget && flags.timelyTarget then TIMELY_TARGET_WEIGHT else 0) +
  (if !status.timelyHead && flags.timelyHead then TIMELY_HEAD_WEIGHT else 0)

def PROPOSER_REWARD_DOMINATOR : Nat := (WEIGHT_DENOMINATOR - PROPOSER_WEIGHT) * WEIGHT_DENOMINATOR / PROPOSER_WEIGHT

def addParticipation (validators : List Validator) (flags : ParticipationStatus) (participation : List ParticipationStatus)
    (attestingIndices : List Nat) : Except String (List ParticipationStatus × Nat) :=
  attestingIndices.foldlM (fun acc index => do
    let status ← getAt typeError acc.1 index
    let participation := acc.1.set index (status.or flags)
    let totalWeight := newWeight status flags
    if 0 < totalWeight then do
      let validator ← getAt typeError validators index
      pure (participation, acc.2 + validator.effectiveBalance * totalWeight)
    else pure (participation, acc.2)) (participation, 0)

def processAttestationAltair (attestation : Attestation) (verifySignature : Bool) : Except String (CachedBeaconState P) := do
  let epochCtx := state.epochCtx
  let data := attestation.data
  validateAttestation state attestation
  let isCurrent := decide (data.target.epoch = epochCtx.currentShuffling.epoch)
  -- this check is done last because its the most expensive (if signature verification is toggled on)
  let indexedAttestation ← epochCtx.getIndexedAttestation P attestation
  check (← isValidIndexedAttestation env state indexedAttestation verifySignature) "Attestation is not valid"
  let flags ← getAttestationParticipationStatus state data (state.slot - data.slot)
  let attestingIndices ← epochCtx.getAttestingIndices P data attestation.aggregationBits
  let (participation, totalBalancesWithWeight) ← addParticipation state.validators flags
    (if isCurrent then state.currentEpochParticipation else state.previousEpochParticipation) attestingIndices
  let state := if isCurrent then { state with currentEpochParticipation := participation }
    else { state with previousEpochParticipation := participation }
  let totalIncrements := totalBalancesWithWeight / P.EFFECTIVE_BALANCE_INCREMENT
  let proposerRewardNumerator := totalIncrements * epochCtx.baseRewardPerIncrement
  let proposerReward := proposerRewardNumerator / PROPOSER_REWARD_DOMINATOR
  let proposerIndex ← asIndex (← epochCtx.getBeaconProposer P state.slot)
  increaseBalance state proposerIndex proposerReward

def processAttestation (state : CachedBeaconState P) (attestation : Attestation) (verifySignature : Bool) :
    Except String (CachedBeaconState P) :=
  match fork with
  | .phase0 => processAttestationPhase0 env state attestation verifySignature
  | .altair => processAttestationAltair env state attestation verifySignature

/-! ## Deposits -/

/-- Verify that the given `leaf` is on the merkle branch `proof` starting with the given `root`. -/
def verifyMerkleBranch (leaf : Root) (proof : List Root) (depth index : Nat) (root : Root) : Except String Bool := do
  let value ← (List.range depth).foldlM (fun value i => do
    let sibling ← getAt typeError proof i
    pure (if index / 2 ^ i % 2 ≠ 0 then env.hash (sibling.toList ++ value.toList)
      else env.hash (value.toList ++ sibling.toList))) leaf
  pure (decide (value = root))

def depositValidator (P : Preset) (data : DepositData) : Validator :=
  { pubkey := data.pubkey
    withdrawalCredentials := data.withdrawalCredentials
    activationEligibilityEpoch := FAR_FUTURE_EPOCH
    activationEpoch := FAR_FUTURE_EPOCH
    exitEpoch := FAR_FUTURE_EPOCH
    withdrawableEpoch := FAR_FUTURE_EPOCH
    effectiveBalance := min (data.amount - data.amount % P.EFFECTIVE_BALANCE_INCREMENT) P.MAX_EFFECTIVE_BALANCE
    slashed := false }

def addValidator (state : CachedBeaconState P) (data : DepositData) : Except String (CachedBeaconState P) := do
  let validators := state.validators ++ [depositValidator P data]
  let epochCtx ← state.epochCtx.addPubkey env (validators.length - 1) data.pubkey
  pure { state with
    validators
    balances := state.balances ++ [data.amount]
    previousEpochParticipation := state.previousEpochParticipation ++ [emptyParticipationStatus]
    currentEpochParticipation := state.currentEpochParticipation ++ [emptyParticipationStatus]
    inactivityScores := match fork with
      | .phase0 => state.inactivityScores
      | .altair => state.inactivityScores ++ [0]
    epochCtx }

def processDeposit (state : CachedBeaconState P) (deposit : Deposit) : Except String (CachedBeaconState P) := do
  check (← verifyMerkleBranch env (env.depositDataRoot deposit.data) deposit.proof (DEPOSIT_CONTRACT_TREE_DEPTH + 1)
    state.eth1DepositIndex state.eth1Data.depositRoot) "Deposit has invalid merkle proof"
  let state := { state with eth1DepositIndex := state.eth1DepositIndex + 1 }
  match (state.epochCtx.pubkey2index.get? deposit.data.pubkey).filter (· < state.validators.length) with
  | none =>
    -- verify the deposit signature (proof of posession) which is not checked by the deposit contract
    if env.publicKeyFromBytes deposit.data.pubkey true && env.verifyDepositSignature deposit.data
    then addValidator env fork state deposit.data
    else pure state
  | some cachedIndex =>
    increaseBalance state cachedIndex deposit.data.amount

end

/-! ## The sync aggregate -/

def processSyncAggregate (block : BeaconBlock) (verifySignatures : Bool) : Except String (CachedBeaconState P) := do
  let syncParticipantReward := state.epochCtx.syncParticipantReward
  let syncProposerReward := state.epochCtx.syncProposerReward
  let (participantIndices, unparticipantIndices) :=
    zipIndexes state.currentIndexedSyncCommittee.validatorIndices block.body.syncAggregate.syncCommitteeBits
  let valid ← (if verifySignatures then do
      -- the root that was signed
      let _ ← getBlockRootAtSlot state.toBeaconState (max block.slot 1 - 1)
      -- When there's no participation we consider the signature valid and just ignore it
      if participantIndices.isEmpty then pure true
      else env.verifySyncCommitteeSignature state block participantIndices
    else pure true)
  check valid "Sync committee signature invalid"
  let proposerIndex ← asIndex (← state.epochCtx.getBeaconProposer P state.slot)
  let state ← participantIndices.foldlM (fun state participantIndex =>
    increaseBalance state participantIndex syncParticipantReward) state
  let state ← increaseBalance state proposerIndex (syncProposerReward * participantIndices.length)
  unparticipantIndices.foldlM (fun state unparticipantIndex =>
    decreaseBalance state unparticipantIndex syncParticipantReward) state

end

/-! ## All operations of a block -/

def processOperations (fork : ForkName) (state : CachedBeaconState P) (body : BeaconBlockBody) (verifySignatures : Bool) :
    Except String (CachedBeaconState P) := do
  let maxDeposits := min (P.MAX_DEPOSITS : Int) ((state.eth1Data.depositCount : Int) - state.eth1DepositIndex)
  check ((body.deposits.length : Int) = maxDeposits)
    s!"Block contains incorrect number of deposits: depositCount={body.deposits.length} expected={maxDeposits}"
  let work := (state, ValidatorExitCache.empty)
  let work ← body.proposerSlashings.foldlM (fun work op =>
    processProposerSlashing env cfg fork work.1 op work.2 verifySignatures) work
  let (state, cache) ← body.attesterSlashings.foldlM (fun work op =>
    processAttesterSlashing env cfg fork work.1 op work.2 verifySignatures) work
  let state ← body.attestations.foldlM (fun state op => processAttestation env fork state op verifySignatures) state
  let state ← body.deposits.foldlM (fun state op => processDeposit env fork state op) state
  let work ← body.voluntaryExits.foldlM (fun work op =>
    processVoluntaryExit env cfg work.1 op work.2 verifySignatures) (state, cache)
  pure work.1

def processBlockByFork (fork : ForkName) (state : CachedBeaconState P) (block : BeaconBlock) (verifySignatures : Bool) :
    Except String (CachedBeaconState P) := do
  let state ← processBlockHeader env cfg state block
  let state ← processRandao env state block verifySignatures
  let state := processEth1Data state block.body
  let state ← processOperations env cfg fork state block.body verifySignatures
  match fork with
  | .phase0 => pure state
  | .altair => processSyncAggregate env state block verifySignatures

end Lodestar.StateTransition
