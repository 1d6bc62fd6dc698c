import Lodestar.StateTransition.AttestationInclusion
/-!
# OperationClashes — operations that stand in each other's way

Each operation of a block is checked against the state that the operations before it have left.
`processOperations_returns_iff` says when operations that are valid one by one go through together: `Compatible` is a
condition on the operations and the state before the block.
-/
namespace Lodestar.StateTransition

open Lib

variable {P : Preset} {env : Env P} {cfg : ChainConfig} {fork : ForkName} {s : CachedBeaconState P}

structure ValidAlone (env : Env P) (cfg : ChainConfig) (s : CachedBeaconState P) (proposerSlashings : List ProposerSlashing)
    (attesterSlashings : List AttesterSlashing) (attestations : List Attestation) (voluntaryExits : List SignedVoluntaryExit) :
    Prop where
  proposers : (proposerSlashings.map (·.proposerIndex)).Nodup
  exiting : (voluntaryExits.map (·.validatorIndex)).Nodup
  proposerSlashings : ∀ op ∈ proposerSlashings, assertValidProposerSlashing env s op false = .ok ()
  attesterSlashings : ∀ op ∈ attesterSlashings, assertValidAttesterSlashing env s op false = .ok ()
  attestations : ∀ op ∈ attestations, Vouched s op
  voluntaryExits : ∀ op ∈ voluntaryExits, assertValidVoluntaryExit env cfg s op false = .ok ()

/-- The deposits are those that the state is owed, in their order. -/
structure DepositsOwed (env : Env P) (s : CachedBeaconState P) (deposits : List Deposit) : Prop where
  count : (deposits.length : Int) = min (P.MAX_DEPOSITS : Int) ((s.eth1Data.depositCount : Int) - s.eth1DepositIndex)
  proved : ∀ (i : Nat) deposit, deposits[i]? = some deposit → Proved env s.eth1Data.depositRoot (s.eth1DepositIndex + i) deposit

/-- **What lets operations through together** that are valid alone.  Each attester slashing finds somebody to slash whom no
proposer slashing and no attester slashing before it has slashed, and no exit is of somebody whom a slashing has slashed. -/
structure Compatible (env : Env P) (s : CachedBeaconState P) (proposerSlashings : List ProposerSlashing)
    (attesterSlashings : List AttesterSlashing) (attestations : List Attestation) (deposits : List Deposit)
    (voluntaryExits : List SignedVoluntaryExit) : Prop where
  slashes : ∀ before slashing after, attesterSlashings = before ++ slashing :: after →
    ∃ index, slashing.Names index ∧ Slashable s index ∧ (∀ op ∈ proposerSlashings, op.proposerIndex ≠ index) ∧
      ∀ op ∈ before, ¬ op.Names index
  includable : ∀ op ∈ attestations, Includable s op
  deposits : DepositsOwed env s deposits
  stays : ∀ exit ∈ voluntaryExits, (∀ op ∈ proposerSlashings, op.proposerIndex ≠ exit.validatorIndex) ∧
    ∀ op ∈ attesterSlashings, op.Names exit.validatorIndex → ¬ Slashable s exit.validatorIndex

/-! ## Who is gone -/

theorem mem_foldl_union {α : Type} (f : α → Set Nat) : ∀ (l : List α) (gone : Set Nat) (i : Nat),
    i ∈ l.foldl (fun gone a => gone ∪ f a) gone ↔ i ∈ gone ∨ ∃ a ∈ l, i ∈ f a
  | [], gone, i => by simp
  | a :: l, gone, i => by
    rw [List.foldl_cons, mem_foldl_union f l, Set.mem_union, or_assoc]
    simp

theorem along_notMem_iff {α : Type} (f : α → Nat) {l : List α} {gone : Set Nat} (hnodup : (l.map f).Nodup) :
    Along (fun gone a => f a ∉ gone) (fun gone a => gone ∪ {f a}) gone l ↔ ∀ a ∈ l, f a ∉ gone := by
  rw [along_iff_split]
  simp only [mem_foldl_union fun a => ({f a} : Set Nat), not_or, Set.mem_singleton_iff]
  constructor
  · intro h a ha
    obtain ⟨before, after, hl⟩ := List.append_of_mem ha
    exact (h before a after hl).1
  · rintro h before a after rfl
    refine ⟨h a (by simp), ?_⟩
    rintro ⟨a', ha', heq⟩
    rw [List.map_append, List.map_cons, List.nodup_append] at hnodup
    exact hnodup.2.2 (f a') (List.mem_map_of_mem ha') (f a) List.mem_cons_self heq.symm

theorem along_const_iff {α β : Type} {allowed : α → Prop} {denote : β → α → β} : ∀ {l : List α} {b : β},
    Along (fun _ a => allowed a) denote b l ↔ ∀ a ∈ l, allowed a
  | [], b => by simp [Along]
  | a :: l, b => by
    unfold Along
    rw [along_const_iff, List.forall_mem_cons]

theorem along_count_iff {α : Type} {allowed : Nat → α → Prop} : ∀ {l : List α} {count : Nat},
    Along allowed (fun count _ => count + 1) count l ↔ ∀ (i : Nat) a, l[i]? = some a → allowed (count + i) a
  | [], count => by simp [Along]
  | a :: l, count => by
    unfold Along
    rw [along_count_iff]
    constructor
    · rintro ⟨hfirst, hrest⟩ i a' h
      cases i with
      | zero =>
        rw [List.getElem?_cons_zero, Option.some.injEq] at h
        exact h ▸ hfirst
      | succ i =>
        have hallowed := hrest i a' h
        rwa [Nat.add_assoc, Nat.add_comm 1] at hallowed
    · intro h
      refine ⟨h 0 a rfl, fun i a' ha' => ?_⟩
      rw [Nat.add_assoc, Nat.add_comm 1]
      exact h (i + 1) a' ha'

/-! ## All operations -/

section

variable {proposerSlashings : List ProposerSlashing} {attesterSlashings : List AttesterSlashing} {attestations : List Attestation}
  {deposits : List Deposit} {voluntaryExits : List SignedVoluntaryExit}

def slashedProposers (proposerSlashings : List ProposerSlashing) : Set Nat :=
  proposerSlashings.foldl (fun gone op => gone ∪ {op.proposerIndex}) ∅

def slashedValidators (s : CachedBeaconState P) (proposerSlashings : List ProposerSlashing)
    (attesterSlashings : List AttesterSlashing) : Set Nat :=
  attesterSlashings.foldl (fun gone op => gone ∪ {i | op.Names i ∧ Slashable s i}) (slashedProposers proposerSlashings)

theorem mem_slashedProposers {index : Nat} :
    index ∈ slashedProposers proposerSlashings ↔ ∃ op ∈ proposerSlashings, op.proposerIndex = index := by
  unfold slashedProposers
  rw [mem_foldl_union fun op : ProposerSlashing => ({op.proposerIndex} : Set Nat)]
  simp [eq_comm]

theorem mem_slashedValidators {index : Nat} : index ∈ slashedValidators s proposerSlashings attesterSlashings ↔
    (∃ op ∈ proposerSlashings, op.proposerIndex = index) ∨ ∃ op ∈ attesterSlashings, op.Names index ∧ Slashable s index := by
  unfold slashedValidators
  rw [mem_foldl_union fun op : AttesterSlashing => {i | op.Names i ∧ Slashable s i}, mem_slashedProposers]
  rfl

theorem along_slashes_iff : Along (fun gone (op : AttesterSlashing) => ∃ i, op.Names i ∧ Slashable s i ∧ i ∉ gone)
      (fun gone op => gone ∪ {i | op.Names i ∧ Slashable s i}) (slashedProposers proposerSlashings) attesterSlashings ↔
    ∀ before slashing after, attesterSlashings = before ++ slashing :: after →
      ∃ index, slashing.Names index ∧ Slashable s index ∧ (∀ op ∈ proposerSlashings, op.proposerIndex ≠ index) ∧
        ∀ op ∈ before, ¬ op.Names index := by
  rw [along_iff_split]
  refine forall_congr' fun before => forall_congr' fun slashing => forall_congr' fun after => imp_congr_right fun _ => ?_
  refine exists_congr fun index => and_congr_right fun hnames => and_congr_right fun hslashable => ?_
  have hgone := @mem_slashedValidators P s proposerSlashings before index
  unfold slashedValidators at hgone
  rw [hgone, not_or]
  refine and_congr ?_ ?_
  · simp
  · simp [hslashable]

theorem stays_iff : (∀ exit ∈ voluntaryExits, exit.validatorIndex ∉ slashedValidators s proposerSlashings attesterSlashings) ↔
    ∀ exit ∈ voluntaryExits, (∀ op ∈ proposerSlashings, op.proposerIndex ≠ exit.validatorIndex) ∧
      ∀ op ∈ attesterSlashings, op.Names exit.validatorIndex → ¬ Slashable s exit.validatorIndex := by
  refine forall_congr' fun exit => imp_congr_right fun _ => ?_
  rw [mem_slashedValidators, not_or]
  simp

theorem AfterExits.of_slashings {gone : Set Nat} {work : CachedBeaconState P × ValidatorExitCache} {t₃ t₄ : CachedBeaconState P}
    {count : Nat} (hslashings : AfterSlashings s gone work) (hattestations : AfterAttestations s work.1.validators () t₃)
    (hdeposits : AfterDeposits t₃ count t₄) : AfterExits s gone (t₄, work.2) := by
  obtain ⟨joined, hjoined⟩ := hdeposits.validators
  refine ⟨hdeposits.currentShuffling.trans (by rw [hattestations.1.epochCtx]), fun i v hv => ?_, hslashings.cache⟩
  obtain ⟨v', hv', hgone, hkept⟩ := hslashings.records i v hv
  refine ⟨v', ?_, fun hi => (hgone hi).2, hkept⟩
  rw [hjoined, hattestations.2, List.getElem?_append_left (List.getElem?_eq_some_iff.1 hv').1]
  exact hv'

theorem processOperations_returns_iff (hwindow : InclusionWindow P) (hhead : HeadState env cfg s) {body : BeaconBlockBody}
    (hvalid : ValidAlone env cfg s body.proposerSlashings body.attesterSlashings body.attestations body.voluntaryExits) :
    (∃ s', processOperations env cfg fork s body false = .ok s') ↔ Compatible env s body.proposerSlashings
      body.attesterSlashings body.attestations body.deposits body.voluntaryExits := by
  have hsplit : Compatible env s body.proposerSlashings body.attesterSlashings body.attestations body.deposits body.voluntaryExits ↔
      (body.deposits.length : Int) = min (P.MAX_DEPOSITS : Int) ((s.eth1Data.depositCount : Int) - s.eth1DepositIndex) ∧
      True ∧
      Along (fun gone (op : AttesterSlashing) => ∃ i, op.Names i ∧ Slashable s i ∧ i ∉ gone)
        (fun gone op => gone ∪ {i | op.Names i ∧ Slashable s i}) (slashedProposers body.proposerSlashings) body.attesterSlashings ∧
      (∀ op ∈ body.attestations, Includable s op) ∧
      (∀ (i : Nat) deposit, body.deposits[i]? = some deposit →
        Proved env s.eth1Data.depositRoot (s.eth1DepositIndex + i) deposit) ∧
      (∀ exit ∈ body.voluntaryExits, exit.validatorIndex ∉
        slashedValidators s body.proposerSlashings body.attesterSlashings) ∧ True := by
    rw [along_slashes_iff, stays_iff]
    constructor
    · rintro ⟨hslashes, hincludable, ⟨hcount, hproved⟩, hstays⟩
      exact ⟨hcount, trivial, hslashes, hincludable, hproved, hstays, trivial⟩
    · rintro ⟨hcount, -, hslashes, hincludable, hproved, hstays, -⟩
      exact ⟨hslashes, hincludable, ⟨hcount, hproved⟩, hstays⟩
  rw [hsplit]
  refine bind_returns_iff (by rw [check_returns_iff, decide_eq_true_eq]) fun _ _ => ?_
  -- the proposer slashings
  obtain ⟨hreturns₁, hrelated₁⟩ := foldlM_guarded body.proposerSlashings ∅ (s, .empty)
    (fun op hop => @processProposerSlashing_guarded P env cfg fork s op hhead (hvalid.proposerSlashings op hop)) (.start s)
  refine bind_returns_iff ?_ fun work₁ hwork₁ => ?_
  · rw [hreturns₁, along_notMem_iff _ hvalid.proposers]
    simp
  have h₁ := hrelated₁ work₁ hwork₁
  -- the attester slashings
  obtain ⟨hreturns₂, hrelated₂⟩ := foldlM_guarded body.attesterSlashings (slashedProposers body.proposerSlashings) work₁
    (fun op hop => @processAttesterSlashing_guarded P env cfg fork s op hhead (hvalid.attesterSlashings op hop)) h₁
  refine bind_returns_iff hreturns₂ fun work₂ hwork₂ => ?_
  have h₂ : AfterSlashings s (slashedValidators s body.proposerSlashings body.attesterSlashings) work₂ := hrelated₂ work₂ hwork₂
  obtain ⟨t₂, cache⟩ := work₂
  -- the attestations
  obtain ⟨hreturns₃, hrelated₃⟩ := foldlM_guarded body.attestations () t₂
    (fun op hop => @processAttestation_guarded P env cfg fork s op t₂.validators hwindow hhead (hvalid.attestations op hop))
    ⟨h₂.background, rfl⟩
  refine bind_returns_iff (hreturns₃.trans along_const_iff) fun t₃ ht₃ => ?_
  have h₃ : AfterAttestations s t₂.validators () t₃ := hrelated₃ t₃ ht₃
  -- the deposits
  have hbalances : t₃.balances.length = t₃.validators.length := by
    rw [h₃.1.balances, h₃.1.validators, hhead.aligned.balances]
  obtain ⟨hreturns₄, hrelated₄⟩ := foldlM_guarded body.deposits 0 t₃
    (fun op _ => processDeposit_guarded env fork t₃ op) (.start hbalances)
  refine bind_returns_iff ?_ fun t₄ ht₄ => ?_
  · rw [hreturns₄, along_count_iff, h₃.1.eth1Data, h₃.1.eth1DepositIndex]
    simp only [Nat.zero_add]
  have h₄ := hrelated₄ t₄ ht₄
  -- the exits
  obtain ⟨hreturns₅, -⟩ := foldlM_guarded body.voluntaryExits
    (slashedValidators s body.proposerSlashings body.attesterSlashings) (t₄, cache)
    (fun op hop => @processVoluntaryExit_guarded P env cfg s op (hvalid.voluntaryExits op hop)) (.of_slashings h₂ h₃ h₄)
  refine bind_returns_iff (hreturns₅.trans (along_notMem_iff _ hvalid.exiting)) fun work₅ _ => ?_
  exact ⟨fun _ => trivial, fun _ => ⟨work₅.1, rfl⟩⟩

end

end Lodestar.StateTransition
