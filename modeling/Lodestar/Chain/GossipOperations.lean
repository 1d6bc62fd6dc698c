import Lodestar.Chain.GossipAttestation
import Lodestar.Db.StoredValues
import Lodestar.StateTransition.OperationClashes
/-!
# GossipOperations — the validation of slashings and voluntary exits from gossip

An operation is looked up in its repository, checked against a state without its signatures, and its signatures are verified.
No other operation that waits for a block has a say.

The repository of attester slashings is asked for validators in either attestation of a stored slashing, of which a block slashes
only those in both: `validateGossipAttesterSlashing_ignores_iff`.
-/
namespace Lodestar.Gossip

open Lib Db StateTransition
open scoped Lib.BigEndian

variable {P : Preset}

/-! ## Repositories -/

structure OperationRoots where
  attesterSlashing : AttesterSlashing → Root
  attestation : Attestation → Root

abbrev ProposerSlashingRepository := StoredValues Nat ProposerSlashing ProposerSlashing.proposerIndex

abbrev VoluntaryExitRepository := StoredValues Nat SignedVoluntaryExit SignedVoluntaryExit.validatorIndex

abbrev AttesterSlashingRepository (roots : OperationRoots) :=
  StoredValues Buffer AttesterSlashing fun slashing => (roots.attesterSlashing slashing).toList

abbrev AggregateAndProofRepository (roots : OperationRoots) :=
  StoredValues Buffer AggregateAndProof fun aggregateAndProof => (roots.attestation aggregateAndProof.aggregate).toList

def hasAll {roots : OperationRoots} (db : AttesterSlashingRepository roots) (attesterIndices : List Nat) : Bool :=
  let indices := (db.values none).flatMap fun slashing =>
    slashing.attestation1.attestingIndices ++ slashing.attestation2.attestingIndices
  attesterIndices.all (indices.contains ·)

def arrayIntersection {T : Type} (arr1 arr2 : List T) (predicate : T → T → Bool) : List T :=
  arr1.filter fun item1 => (arr2.findIdx? (predicate item1)).isSome

/-! ## Errors -/

inductive OperationErrorType
  | ALREADY_EXISTS
  | INVALID (error : String)
deriving DecidableEq, Repr

inductive OperationThrown
  | proposerSlashing (action : GossipAction) (type : OperationErrorType)
  | attesterSlashing (action : GossipAction) (type : OperationErrorType)
  | voluntaryExit (action : GossipAction) (type : OperationErrorType)
  | error (message : String)
deriving DecidableEq, Repr

def toOperationThrown {α : Type} : Except String α → Except OperationThrown α
  | .ok a => .ok a
  | .error message => .error (.error message)

/-! ## Validations -/

structure OperationChain (P : Preset) where
  SignatureSet : Type
  getHeadState : Except String (CachedBeaconState P)
  getHeadRoot : Root
  getCheckpointState : Checkpoint → Except String (CachedBeaconState P)
  getProposerSlashingSignatureSets : CachedBeaconState P → ProposerSlashing → Except String (List SignatureSet)
  getAttesterSlashingSignatureSets : CachedBeaconState P → AttesterSlashing → Except String (List SignatureSet)
  getVoluntaryExitSignatureSet : CachedBeaconState P → SignedVoluntaryExit → Except String SignatureSet
  verifySignatureSets : List SignatureSet → Except String Bool

def validateOperation (chain : OperationChain P) (thrown : GossipAction → OperationErrorType → OperationThrown) (known : Bool)
    (getState : Except String (CachedBeaconState P)) (assertValid : CachedBeaconState P → Except String Unit)
    (getSignatureSets : CachedBeaconState P → Except String (List chain.SignatureSet)) : Except OperationThrown Unit := do
  check (!known) (thrown .IGNORE .ALREADY_EXISTS)
  let state ← toOperationThrown getState
  -- verifySignature = false, verified in batch below
  (assertValid state).mapError fun error => thrown .REJECT (.INVALID error)
  let signatureSets ← toOperationThrown (getSignatureSets state)
  check (← toOperationThrown (chain.verifySignatureSets signatureSets)) (thrown .REJECT (.INVALID "Invalid signature"))

variable (env : Env P) (cfg : ChainConfig) (chain : OperationChain P)

def validateGossipProposerSlashing (db : ProposerSlashingRepository) (proposerSlashing : ProposerSlashing) :
    Except OperationThrown Unit :=
  validateOperation chain .proposerSlashing (db.has proposerSlashing.proposerIndex) chain.getHeadState
    (fun state => assertValidProposerSlashing env state proposerSlashing false)
    (fun state => chain.getProposerSlashingSignatureSets state proposerSlashing)

def validateGossipAttesterSlashing {roots : OperationRoots} (db : AttesterSlashingRepository roots)
    (attesterSlashing : AttesterSlashing) : Except OperationThrown Unit :=
  let attesterSlashedIndices := arrayIntersection attesterSlashing.attestation1.attestingIndices
    attesterSlashing.attestation2.attestingIndices (· == ·)
  validateOperation chain .attesterSlashing (hasAll db attesterSlashedIndices) chain.getHeadState
    (fun state => assertValidAttesterSlashing env state attesterSlashing false)
    (fun state => chain.getAttesterSlashingSignatureSets state attesterSlashing)

def validateGossipVoluntaryExit (db : VoluntaryExitRepository) (voluntaryExit : SignedVoluntaryExit) : Except OperationThrown Unit :=
  validateOperation chain .voluntaryExit (db.has voluntaryExit.validatorIndex)
    (chain.getCheckpointState { root := chain.getHeadRoot, epoch := voluntaryExit.message.epoch })
    (fun state => assertValidVoluntaryExit env cfg state voluntaryExit false)
    (fun state => (chain.getVoluntaryExitSignatureSet state voluntaryExit).map fun signatureSet => [signatureSet])

/-! ## What is accepted -/

variable {env cfg chain} {s : CachedBeaconState P}

theorem toOperationThrown_eq_ok {α : Type} {x : Except String α} {a : α} : toOperationThrown x = .ok a ↔ x = .ok a := by
  cases x <;> simp [toOperationThrown]

variable {thrown : GossipAction → OperationErrorType → OperationThrown} {known : Bool}
  {assertValid : CachedBeaconState P → Except String Unit}
  {getSignatureSets : CachedBeaconState P → Except String (List chain.SignatureSet)}

variable {getState : Except String (CachedBeaconState P)}

theorem validateOperation_iff :
    validateOperation chain thrown known getState assertValid getSignatureSets = .ok () ↔
      known = false ∧ ∃ s, getState = .ok s ∧ assertValid s = .ok () ∧
        ∃ signatureSets, getSignatureSets s = .ok signatureSets ∧ chain.verifySignatureSets signatureSets = .ok true := by
  unfold validateOperation
  simp only [bind_eq_ok, toOperationThrown_eq_ok, mapError_eq_ok, check_eq_ok, Bool.not_eq_true']
  constructor
  · rintro ⟨_, hknown, s, hstate, _, hvalid, signatureSets, hsets, verified, hverified, hsigned⟩
    exact ⟨hknown, s, hstate, hvalid, signatureSets, hsets, hsigned ▸ hverified⟩
  · rintro ⟨hknown, s, hstate, hvalid, signatureSets, hsets, hverified⟩
    exact ⟨(), hknown, s, hstate, (), hvalid, signatureSets, hsets, true, hverified, rfl⟩

theorem validateOperation_valid (hstate : getState = .ok s)
    (h : validateOperation chain thrown known getState assertValid getSignatureSets = .ok ()) : assertValid s = .ok () := by
  obtain ⟨-, t, hstate', hvalid, -⟩ := validateOperation_iff.1 h
  cases hstate.symm.trans hstate'
  exact hvalid

theorem validateOperation_accepts {signatureSets : List chain.SignatureSet} (hvalid : assertValid s = .ok ())
    (hsets : getSignatureSets s = .ok signatureSets) (hverified : chain.verifySignatureSets signatureSets = .ok true) :
    validateOperation chain thrown false (.ok s) assertValid getSignatureSets = .ok () :=
  validateOperation_iff.2 ⟨rfl, s, rfl, hvalid, signatureSets, hsets, hverified⟩

variable {roots : OperationRoots} {attesterSlashing slashing : AttesterSlashing}

/-- The aggregate is one whose validation returned, on the state that was fetched for its target. -/
def AggregateAccepted (sets : SignatureSets P) (s : CachedBeaconState P) (aggregateAndProof : AggregateAndProof) : Prop :=
  ∃ view signature chain signatureSets verified valid,
    (validateGossipAggregateAndProof sets view { message := aggregateAndProof, signature := signature } chain).1.Finishes
      [⟨.getCheckpointState aggregateAndProof.aggregate.data.target, .ok s⟩, ⟨.verifySignatureSets signatureSets, verified⟩] valid

theorem AggregateAccepted.vouched {sets : SignatureSets P} {aggregateAndProof : AggregateAndProof}
    (h : AggregateAccepted sets s aggregateAndProof) :
    aggregateAndProof.aggregate.data.target.epoch = computeEpochAtSlot P aggregateAndProof.aggregate.data.slot ∧
      ∃ committee, s.epochCtx.getBeaconCommittee P aggregateAndProof.aggregate.data.slot aggregateAndProof.aggregate.data.index =
        .ok committee ∧ 0 < (zipIndexesCommitteeBits committee aggregateAndProof.aggregate.aggregationBits).length := by
  obtain ⟨view, signature, chain, signatureSets, verified, valid, h⟩ := h
  unfold validateGossipAggregateAndProof at h
  dsimp only at h
  split at h
  · cases h
  · rename_i hearly
    unfold verifyAggregateEarlyChecks at hearly
    simp only [bind_eq_ok, check_eq_ok, decide_eq_true_eq] at hearly
    obtain ⟨_, htarget, -⟩ := hearly
    refine ⟨htarget, ?_⟩
    cases h with
    | await _ _ _ store h =>
      dsimp only at h
      split at h
      · cases h
      · rename_i hmiddle
        unfold verifyAggregateMiddleChecks getTargetState at hmiddle
        simp only [bind_eq_ok, check_eq_ok, decide_eq_true_eq] at hmiddle
        obtain ⟨_, hstate, committee, hcommittee, _, hsome, -⟩ := hmiddle
        cases hstate
        refine ⟨committee, ?_, hsome⟩
        unfold getCommitteeIndices at hcommittee
        split at hcommittee
        · rename_i heq
          rw [Except.ok.injEq] at hcommittee
          rw [heq, hcommittee]
        · cases hcommittee
        · cases hcommittee

/-! ## Slashings that are ignored -/

theorem validateOperation_ignored {known : Bool} {assertValid : CachedBeaconState P → Except String Unit}
    {getSignatureSets : CachedBeaconState P → Except String (List chain.SignatureSet)} :
    validateOperation chain .attesterSlashing known getState assertValid getSignatureSets =
      .error (.attesterSlashing .IGNORE .ALREADY_EXISTS) ↔ known = true := by
  cases known with
  | true => exact ⟨fun _ => rfl, fun _ => rfl⟩
  | false =>
    refine iff_of_false (fun h => ?_) Bool.false_ne_true
    simp only [validateOperation, toOperationThrown, check, Bool.not_false, if_true] at h
    cases hstate : getState with
    | error message => simp [hstate, bind, Except.bind] at h
    | ok s =>
      cases hvalid : assertValid s <;> cases hsets : getSignatureSets s <;>
        simp [hstate, hvalid, hsets, bind, Except.bind, Except.mapError] at h
      rename_i signatureSets
      rcases hverified : chain.verifySignatureSets signatureSets with _ | (_ | _) <;> simp [hverified] at h

theorem mem_attesterSlashedIndices {index : Nat} :
    index ∈ arrayIntersection slashing.attestation1.attestingIndices slashing.attestation2.attestingIndices (· == ·) ↔
      slashing.Names index := by
  simp [arrayIntersection, AttesterSlashing.Names]

/-- **A slashing is ignored exactly when the stored ones slash all that it slashes** if and only if one of these validators is in
no attestation of a stored slashing, or each is in both attestations of one. -/
theorem validateGossipAttesterSlashing_ignores_iff {roots : OperationRoots} {db : AttesterSlashingRepository roots}
    {attesterSlashing : AttesterSlashing} :
    (validateGossipAttesterSlashing env chain db attesterSlashing = .error (.attesterSlashing .IGNORE .ALREADY_EXISTS) ↔
      ∀ index, attesterSlashing.Names index → ∃ stored ∈ db.values none, stored.Names index) ↔
    (∃ index, attesterSlashing.Names index ∧ ∀ stored ∈ db.values none,
        index ∉ stored.attestation1.attestingIndices ∧ index ∉ stored.attestation2.attestingIndices) ∨
      ∀ index, attesterSlashing.Names index → ∃ stored ∈ db.values none, stored.Names index := by
  unfold validateGossipAttesterSlashing
  rw [validateOperation_ignored]
  simp only [hasAll, List.all_eq_true, List.contains_iff_mem, List.mem_flatMap, List.mem_append, mem_attesterSlashedIndices]
  constructor
  · intro h
    by_cases hall : ∀ index, attesterSlashing.Names index → ∃ stored ∈ db.values none, stored.Names index
    · exact .inr hall
    · have := mt h.1 hall
      push Not at this
      exact .inl this
  · rintro (⟨index, hnames, hnone⟩ | hall)
    · constructor
      · intro h
        obtain ⟨stored, hstored, hindex⟩ := h index hnames
        have := hnone stored hstored
        tauto
      · intro h
        obtain ⟨stored, hstored, hindex⟩ := h index hnames
        exact absurd hindex.1 (hnone stored hstored).1
    · refine iff_of_true (fun index hnames => ?_) hall
      obtain ⟨stored, hstored, hindex⟩ := hall index hnames
      exact ⟨stored, hstored, .inl hindex.1⟩

def noSignature : BLSSignature := Vector.replicate 96 0

def doubleVote : AttesterSlashing :=
  let attestation := fun (byte : UInt8) => ({
    attestingIndices := [0]
    data := {
      slot := 13, index := 0, beaconBlockRoot := Vector.replicate 32 byte
      source := { epoch := 0, root := zeroRoot }, target := { epoch := 1, root := zeroRoot } }
    signature := noSignature } : StateTransition.IndexedAttestation)
  { attestation1 := attestation 1, attestation2 := attestation 2 }

def doubleVoteOf (attestingIndices1 attestingIndices2 : List Nat) : AttesterSlashing where
  attestation1 := { doubleVote.attestation1 with attestingIndices := attestingIndices1 }
  attestation2 := { doubleVote.attestation2 with attestingIndices := attestingIndices2 }

def plainRoots : OperationRoots := { attesterSlashing _ := zeroRoot, attestation _ := zeroRoot }

def headChain (s : CachedBeaconState minimal) : OperationChain minimal where
  SignatureSet := Unit
  getHeadState := .ok s
  getHeadRoot := zeroRoot
  getCheckpointState _ := .ok s
  getProposerSlashingSignatureSets _ _ := .ok [(), ()]
  getAttesterSlashingSignatureSets _ _ := .ok [(), ()]
  getVoluntaryExitSignatureSet _ _ := .ok ()
  verifySignatureSets _ := .ok true

/-- Both validators signed the first vote and validator 0 the second; then validator 1 signs two votes. -/
theorem validateGossipAttesterSlashing_ignores_new : ∃ s,
    createCachedBeaconState (plainEnv minimal) (minimalConfig ⊤) awaitingDeposit noOpts = .ok s ∧
    let empty : AttesterSlashingRepository plainRoots := .empty
    let db := empty.add (doubleVoteOf [0, 1] [0])
    validateGossipAttesterSlashing (plainEnv minimal) (headChain s) empty (doubleVoteOf [0, 1] [0]) = .ok () ∧
    validateGossipAttesterSlashing (plainEnv minimal) (headChain s) empty (doubleVoteOf [1] [1]) = .ok () ∧
    validateGossipAttesterSlashing (plainEnv minimal) (headChain s) db (doubleVoteOf [1] [1]) =
      .error (.attesterSlashing .IGNORE .ALREADY_EXISTS) ∧
    (doubleVoteOf [1] [1]).Names 1 ∧ ∀ stored ∈ db.values none, ¬ stored.Names 1 := by
  have heval : (createCachedBeaconState (plainEnv minimal) (minimalConfig ⊤) awaitingDeposit noOpts).map (fun s =>
      (assertValidAttesterSlashing (plainEnv minimal) s (doubleVoteOf [0, 1] [0]) false,
        assertValidAttesterSlashing (plainEnv minimal) s (doubleVoteOf [1] [1]) false)) = .ok (.ok (), .ok ()) := by
    decide +kernel
  obtain ⟨s, hs, heval⟩ := map_eq_ok.1 heval
  rw [Prod.mk.injEq] at heval
  refine ⟨s, hs, validateOperation_accepts heval.1 rfl rfl, validateOperation_accepts heval.2 rfl rfl, rfl,
    ⟨by decide, by decide⟩, ?_⟩
  rintro stored hstored ⟨-, hsecond⟩
  rw [List.mem_singleton.1 hstored] at hsecond
  exact absurd hsecond (by decide)

end Lodestar.Gossip
