import Lodestar.Chain.GossipAttestation
import Lodestar.StateTransition.EffectiveBalances
/-!
# AttestationOnce — one attestation a validator and epoch, one aggregate an aggregator and epoch

A validation is accepted in the stretch that finds its validator neither known nor below the lowest epoch, and adds it.  What
is known stays known until it is pruned, and is below the lowest epoch from then on.
-/
namespace Lodestar.Gossip

open Lib Overlap StateTransition

variable {P : Preset} {sets : SignatureSets P}

/-! ## The caches -/

/-- An index that a later validation does not get past: it is known, or the epoch is too low to add it. -/
def SeenAttesters.Taken (seen : SeenAttesters) (targetEpoch validatorIndex : Nat) : Prop :=
  seen.isKnown targetEpoch validatorIndex = true ∨ targetEpoch < seen.lowestPermissibleEpoch

namespace SeenAttesters

variable {epoch index : Nat} {seen : SeenAttesters}

theorem isKnown_iff : seen.isKnown epoch index = true ↔
    ∃ indexes, seen.validatorIndexesByEpoch.get? epoch = some indexes ∧ index ∈ indexes := by
  unfold isKnown
  cases seen.validatorIndexesByEpoch.get? epoch <;> simp

variable {seen seen' : SeenAttesters}

theorem add_ok (h : seen.add epoch index = .ok seen') :
    seen.lowestPermissibleEpoch ≤ epoch ∧ seen'.lowestPermissibleEpoch = seen.lowestPermissibleEpoch ∧
      seen'.isKnown epoch index = true ∧
      ∀ epoch' index', seen.isKnown epoch' index' = true → seen'.isKnown epoch' index' = true := by
  obtain ⟨_, hlow, h⟩ := bind_eq_ok.1 h
  rw [pure_eq_ok] at h
  subst h
  refine ⟨of_decide_eq_true (check_eq_ok.1 hlow), rfl, ?_, fun epoch' index' hknown => ?_⟩
  · rw [isKnown_iff]
    exact ⟨_, by rw [OrderedMap.get?_set, if_pos rfl], List.mem_insert_self⟩
  · rw [isKnown_iff] at hknown ⊢
    obtain ⟨indexes, hindexes, hmem⟩ := hknown
    rw [OrderedMap.get?_set]
    split
    · rename_i heq
      subst heq
      rw [hindexes]
      exact ⟨_, rfl, List.mem_insert_of_mem hmem⟩
    · exact ⟨indexes, hindexes, hmem⟩

theorem add_taken (h : seen.add epoch index = .ok seen') :
    seen'.Taken epoch index ∧ ∀ epoch' index', seen.Taken epoch' index' → seen'.Taken epoch' index' := by
  obtain ⟨-, hlow, hknown, hkeeps⟩ := add_ok h
  refine ⟨.inl hknown, fun epoch' index' htaken => ?_⟩
  rcases htaken with hknown' | htoo
  · exact .inl (hkeeps epoch' index' hknown')
  · exact .inr (hlow ▸ htoo)

theorem prune_taken {before epoch : Nat} (hlow : seen.lowestPermissibleEpoch ≤ before - MAX_EPOCHS) (hle : before ≤ epoch)
    {targetEpoch index : Nat} (h : seen.Taken targetEpoch index) :
    (seen.prune epoch).Taken targetEpoch index := by
  by_cases htoo : targetEpoch < epoch - MAX_EPOCHS
  · exact .inr htoo
  · rcases h with hknown | hbelow
    · refine .inl ?_
      rw [isKnown_iff] at hknown ⊢
      obtain ⟨indexes, hindexes, hmem⟩ := hknown
      refine ⟨indexes, ?_, hmem⟩
      rw [← hindexes]
      refine (OrderedMap.get?_foldl_delete _ _ _).trans (if_neg fun hpruned => htoo ?_)
      exact of_decide_eq_true (List.mem_filter.1 hpruned).2
    · exact absurd (by omega : targetEpoch < epoch - MAX_EPOCHS) htoo

end SeenAttesters

def Chain.Clocked (chain : Chain) : Prop :=
  chain.seenAttesters.lowestPermissibleEpoch ≤ chain.currentEpoch - MAX_EPOCHS ∧
    chain.seenAggregators.lowestPermissibleEpoch ≤ chain.currentEpoch - MAX_EPOCHS

/-! ## The calls -/

/-- What an accepted validation is the one of: the target epoch with the attesting indices, or with the aggregator.  A
validation returns a result of its own kind. -/
inductive SeenKey
  | attester (targetEpoch : Nat) (attestingIndices : List Nat)
  | aggregator (targetEpoch aggregatorIndex : Nat)
  | none

def seenKey : GossipCall → Valid → SeenKey
  | .attestation _ attestation _, .attestation result =>
    .attester attestation.data.target.epoch result.indexedAttestation.attestingIndices
  | .aggregate _ signedAggregateAndProof, .aggregate _ =>
    .aggregator signedAggregateAndProof.message.aggregate.data.target.epoch signedAggregateAndProof.message.aggregatorIndex
  | _, _ => .none

def Chain.Taken (chain : Chain) : SeenKey → Prop
  | .attester targetEpoch attestingIndices =>
    ∃ validatorIndex, attestingIndices = [validatorIndex] ∧ chain.seenAttesters.Taken targetEpoch validatorIndex
  | .aggregator targetEpoch aggregatorIndex => chain.seenAggregators.Taken targetEpoch aggregatorIndex
  | .none => False

variable {alreadyKnown : Nat → Nat → AttestationErrorType} {seen seen' : SeenAttesters} {targetEpoch index : Nat}
  {answer : Except String Bool}

section

variable (h : verifyLateChecks alreadyKnown seen targetEpoch index answer = .ok seen')
include h

theorem verifyLateChecks_ok : seen.isKnown targetEpoch index = false ∧ seen.add targetEpoch index = .ok seen' := by
  obtain ⟨_, -, h⟩ := bind_eq_ok.1 h
  obtain ⟨_, -, h⟩ := bind_eq_ok.1 h
  obtain ⟨_, hknown, h⟩ := bind_eq_ok.1 h
  rw [check_eq_ok, Bool.not_eq_true'] at hknown
  cases hadd : seen.add targetEpoch index with
  | error e =>
    rw [hadd] at h
    cases h
  | ok seen'' =>
    rw [hadd] at h
    cases h
    exact ⟨hknown, rfl⟩

theorem verifyLateChecks_takes : ¬ seen.Taken targetEpoch index ∧ seen'.Taken targetEpoch index ∧
      (∀ epoch' index', seen.Taken epoch' index' → seen'.Taken epoch' index') ∧
      seen'.lowestPermissibleEpoch = seen.lowestPermissibleEpoch := by
  obtain ⟨hknown, hadd⟩ := verifyLateChecks_ok h
  obtain ⟨hlow, hlowest, -, -⟩ := SeenAttesters.add_ok hadd
  obtain ⟨htaken, hkeeps⟩ := SeenAttesters.add_taken hadd
  refine ⟨fun htaken' => ?_, htaken, hkeeps, hlowest⟩
  rcases htaken' with hknown' | htoo
  · rw [hknown] at hknown'
    cases hknown'
  · omega

end

variable {attestation : Attestation} {subnet : Option Nat} {validatorIndex : Nat} {valid : ValidAttestation}

variable {seen seenAttesters seenAggregators : SeenAttesters}

theorem verifyMiddleChecks_ok {bitIndex : Nat} {answer : Except String (CachedBeaconState P)} {signatureSet : sets.SignatureSet}
    (h : verifyMiddleChecks sets seen attestation subnet bitIndex answer = .ok (validatorIndex, valid, signatureSet)) :
    valid.indexedAttestation.attestingIndices = [validatorIndex] := by
  obtain ⟨_, -, h⟩ := bind_eq_ok.1 h
  obtain ⟨_, -, h⟩ := bind_eq_ok.1 h
  obtain ⟨_, -, h⟩ := bind_eq_ok.1 h
  obtain ⟨_, -, h⟩ := bind_eq_ok.1 h
  obtain ⟨_, -, h⟩ := bind_eq_ok.1 h
  obtain ⟨_, -, h⟩ := bind_eq_ok.1 h
  obtain ⟨_, -, h⟩ := bind_eq_ok.1 h
  obtain ⟨_, -, h⟩ := bind_eq_ok.1 h
  obtain ⟨rfl, rfl, -⟩ := h
  rfl

/-- A stretch of either validation, and all the stretches a call has still to run. -/
abbrev TakesKey (sets : SignatureSets P) (call : GossipCall) (chain : Chain) (r : Validation sets × Chain) : Prop :=
  Takes seenKey Chain.Clocked Chain.Taken call chain r

abbrev SafeKey (sets : SignatureSets P) (call : GossipCall) (stop : Validation sets) : Prop := Safe (TakesKey sets) call stop

variable {view : ChainView} {chain : Chain}

theorem attestation_takes (hindices : valid.indexedAttestation.attestingIndices = [validatorIndex])
    (hlate : verifyLateChecks .ATTESTATION_ALREADY_KNOWN chain.seenAttesters attestation.data.target.epoch validatorIndex answer = .ok seenAttesters) :
    TakesKey sets (.attestation view attestation subnet) chain
      (.done (.ok (.attestation valid)), { chain with seenAttesters }) := by
  obtain ⟨hfresh, htaken, hkeeps, hlowest⟩ := verifyLateChecks_takes hlate
  refine ⟨fun hclocked => ⟨hlowest ▸ hclocked.1, hclocked.2⟩, fun key htaken' => ?_, fun a h htaken' => ?_, fun a h => ?_⟩
  · cases key with
    | attester epoch indices =>
      obtain ⟨index, hindex, htaken'⟩ := htaken'
      exact ⟨index, hindex, hkeeps epoch index htaken'⟩
    | aggregator epoch index => exact htaken'
    | none => exact htaken'
  · cases h
    obtain ⟨index, hindex, htaken'⟩ := htaken'
    rw [hindices, List.cons.injEq] at hindex
    obtain ⟨rfl, -⟩ := hindex
    exact hfresh htaken'
  · cases h
    exact ⟨validatorIndex, hindices, htaken⟩

theorem aggregate_takes {signed : SignedAggregateAndProof} {indexedAttestation : StateTransition.IndexedAttestation}
    (hlate : verifyLateChecks .AGGREGATOR_ALREADY_KNOWN chain.seenAggregators signed.message.aggregate.data.target.epoch signed.message.aggregatorIndex answer = .ok seenAggregators) :
    TakesKey sets (.aggregate view signed) chain
      (.done (.ok (.aggregate indexedAttestation)), { chain with seenAggregators }) := by
  obtain ⟨hfresh, htaken, hkeeps, hlowest⟩ := verifyLateChecks_takes hlate
  refine ⟨fun hclocked => ⟨hclocked.1, hlowest ▸ hclocked.2⟩, fun key htaken' => ?_, fun a h htaken' => ?_, fun a h => ?_⟩
  · cases key with
    | attester epoch indices => exact htaken'
    | aggregator epoch index => exact hkeeps epoch index htaken'
    | none => exact htaken'
  · cases h
    exact hfresh htaken'
  · cases h
    exact htaken

theorem validateGossipAttestation_takes (view : ChainView) (attestation : Attestation) (subnet : Option Nat) (chain : Chain) :
    TakesKey sets (.attestation view attestation subnet) chain (validateGossipAttestation sets view attestation subnet chain) ∧
      SafeKey sets (.attestation view attestation subnet) (validateGossipAttestation sets view attestation subnet chain).1 := by
  unfold validateGossipAttestation
  split
  · exact ⟨.of_same (fun a h => by cases h), .done _⟩
  · refine ⟨.of_same (fun a h => by cases h), .await _ _ (fun answer chain => ?_) fun answer chain => ?_⟩
    · split
      · exact .of_same fun a h => by cases h
      · exact .of_same fun a h => by cases h
    · split
      · exact .done _
      · rename_i validatorIndex valid signatureSet hmiddle
        refine .await _ _ (fun answer chain => ?_) fun answer chain => ?_
        · split
          · exact .of_same fun a h => by cases h
          · rename_i seenAttesters hlate
            exact attestation_takes (verifyMiddleChecks_ok hmiddle) hlate
        · split <;> exact .done _

theorem validateGossipAggregateAndProof_takes (view : ChainView) (signed : SignedAggregateAndProof) (chain : Chain) :
    TakesKey sets (.aggregate view signed) chain (validateGossipAggregateAndProof sets view signed chain) ∧
      SafeKey sets (.aggregate view signed) (validateGossipAggregateAndProof sets view signed chain).1 := by
  unfold validateGossipAggregateAndProof
  dsimp only
  split
  · exact ⟨.of_same (fun a h => by cases h), .done _⟩
  · refine ⟨.of_same (fun a h => by cases h), .await _ _ (fun answer chain => ?_) fun answer chain => ?_⟩
    · split
      · exact .of_same fun a h => by cases h
      · exact .of_same fun a h => by cases h
    · split
      · exact .done _
      · refine .await _ _ (fun answer chain => ?_) fun answer chain => ?_
        · split
          · exact .of_same fun a h => by cases h
          · rename_i seenAggregators hlate
            exact aggregate_takes hlate
        · split <;> exact .done _

/-! ## The clock -/

theorem onClockEpoch_keeps {epoch : Nat} (hle : chain.currentEpoch ≤ epoch) (hclocked : chain.Clocked) :
    (onClockEpoch epoch chain).Clocked ∧ ∀ key, chain.Taken key → (onClockEpoch epoch chain).Taken key := by
  refine ⟨⟨le_refl _, le_refl _⟩, fun key htaken => ?_⟩
  cases key with
  | attester targetEpoch indices =>
    obtain ⟨index, hindex, htaken⟩ := htaken
    exact ⟨index, hindex, SeenAttesters.prune_taken hclocked.1 hle htaken⟩
  | aggregator targetEpoch index => exact SeenAttesters.prune_taken hclocked.2 hle htaken
  | none => exact htaken

/-! ## Runs -/

def AcceptedAttestation (s : GossipSystem sets) (n : Nat)
    (targetEpoch validatorIndex : Nat) : Prop :=
  ∃ view attestation subnet valid, s.calls[n]? = some (.attestation view attestation subnet, .done (.ok (.attestation valid))) ∧
    attestation.data.target.epoch = targetEpoch ∧ valid.indexedAttestation.attestingIndices = [validatorIndex]

def AcceptedAggregate (s : GossipSystem sets) (n : Nat)
    (targetEpoch aggregatorIndex : Nat) : Prop :=
  ∃ view signed indexed, s.calls[n]? = some (.aggregate view signed, .done (.ok (.aggregate indexed))) ∧
    signed.message.aggregate.data.target.epoch = targetEpoch ∧ signed.message.aggregatorIndex = aggregatorIndex

/-- **However the validations overlap with each other and with the clock**, a call that was accepted is one of the two, and no
two are of one target epoch and validator, or of one target epoch and aggregator. -/
theorem gossip_accepted_once (sets : SignatureSets P)
    {s : GossipSystem sets}
    (hrun : Reaches (gossipRules sets) ⟨.new, []⟩ s) :
    (∀ n call valid, s.calls[n]? = some (call, .done (.ok valid)) →
      (∃ epoch index, AcceptedAttestation s n epoch index) ∨ ∃ epoch index, AcceptedAggregate s n epoch index) ∧
    (∀ n m epoch index, AcceptedAttestation s n epoch index → AcceptedAttestation s m epoch index → n = m) ∧
    ∀ n m epoch index, AcceptedAggregate s n epoch index → AcceptedAggregate s m epoch index → n = m := by
  have hguarded : Guarded seenKey Chain.Clocked Chain.Taken s := by
    refine hrun.guarded ⟨Nat.zero_le _, Nat.zero_le _⟩ (fun call chain => ?_) fun epoch chain hle hclocked =>
      onClockEpoch_keeps hle hclocked
    cases call with
    | attestation view attestation subnet => exact validateGossipAttestation_takes view attestation subnet chain
    | aggregate view signed => exact validateGossipAggregateAndProof_takes view signed chain
  refine ⟨fun n call valid hcall => ?_, fun n m epoch index h h' => ?_, fun n m epoch index h h' => ?_⟩
  · have htaken := hguarded.taken n _ ⟨call, valid, hcall, rfl⟩
    cases call with
    | attestation view attestation subnet =>
      cases valid with
      | attestation valid =>
        obtain ⟨index, hindex, -⟩ := htaken
        exact .inl ⟨_, index, view, attestation, subnet, valid, hcall, rfl, hindex⟩
      | aggregate indexed => exact absurd htaken id
    | aggregate view signed =>
      cases valid with
      | attestation valid => exact absurd htaken id
      | aggregate indexed => exact .inr ⟨_, _, view, signed, indexed, hcall, rfl, rfl⟩
  · obtain ⟨view, attestation, subnet, valid, hcall, rfl, hindices⟩ := h
    obtain ⟨view', attestation', subnet', valid', hcall', hepoch, hindices'⟩ := h'
    refine hguarded.once n m _ ⟨_, _, hcall, rfl⟩ ⟨_, _, hcall', ?_⟩
    show SeenKey.attester _ _ = SeenKey.attester _ _
    rw [hepoch, hindices, hindices']
  · obtain ⟨view, signed, indexed, hcall, rfl, rfl⟩ := h
    obtain ⟨view', signed', indexed', hcall', hepoch, hindex⟩ := h'
    refine hguarded.once n m _ ⟨_, _, hcall, rfl⟩ ⟨_, _, hcall', ?_⟩
    show SeenKey.aggregator _ _ = SeenKey.aggregator _ _
    rw [hepoch, hindex]

/-! ## Two overlapping calls for one attestation -/

def plainSets : SignatureSets minimal where
  SignatureSet := Unit
  hash _ := zeroRoot
  getIndexedAttestationSignatureSet _ _ := .ok ()
  getSelectionProofSignatureSet _ _ _ _ := .ok ()
  getAggregateAndProofSignatureSet _ _ _ _ := .ok ()

def plainView : ChainView where
  slotWithTolerance _ := 324
  getBlock root := some { slot := 320, blockRoot := root, targetRoot := zeroRoot }

def plainAttestation : Attestation where
  aggregationBits := [true]
  data := { slot := 323, index := 0, beaconBlockRoot := zeroRoot, source := ⟨39, zeroRoot⟩, target := ⟨40, zeroRoot⟩ }
  signature := Vector.replicate 96 0

def plainAnswer : (q : Question plainSets) → Answer plainSets q
  | .getCheckpointState _ => Except.ok (slashedInEpoch8 0)
  | .verifySignatureSets _ => Except.ok true

def overlapping : GossipSystem plainSets :=
  [.start (.attestation plainView plainAttestation none), .start (.attestation plainView plainAttestation none),
    .resume 0 plainAnswer, .resume 1 plainAnswer, .resume 0 plainAnswer, .resume 1 plainAnswer].foldl
      (play (gossipRules plainSets)) ⟨.new, []⟩

/-- Both calls pass the first look at the cache before either is verified, and the second one fails the other look. -/
theorem gossip_accepted_once_overlap :
    overlapping.calls.map (fun call => match call.2 with
      | .done (.ok _) => "accepted"
      | .done (.error (.attestation .IGNORE (.ATTESTATION_ALREADY_KNOWN 40 0))) => "already known"
      | _ => "") = ["accepted", "already known"] ∧
    ∀ n m epoch index, AcceptedAttestation overlapping n epoch index → AcceptedAttestation overlapping m epoch index → n = m :=
  ⟨by decide +kernel, (gossip_accepted_once plainSets (Reaches.plays .refl _)).2.1⟩

end Lodestar.Gossip
