import Lodestar.Chain.GossipSyncCommittee
import Lodestar.StateTransition.EffectiveBalances
/-!
# SyncCommitteeOnce — when one sync committee message, or contribution, is accepted twice

A validation that is verified adds its key without another look at the cache.  So what the cache knows is what was accepted,
and no key is accepted twice exactly where every verification that succeeds finds its key not yet known: no call of the same
key was accepted while it was awaited.
-/
namespace Lodestar.Gossip

open Lib Overlap StateTransition

variable {P : Preset} {sets : SyncSignatureSets P}

/-! ## The caches -/

theorem seenCacheKey_inj {subnet index subnet' index' : Nat}
    (h : SeenBySlot.seenCacheKey subnet index = SeenBySlot.seenCacheKey subnet' index') : subnet = subnet' ∧ index = index' := by
  have hdash : ∀ n : Nat, '-' ∉ Nat.toDigits 10 n := fun n hn => absurd (Decimal.isDigit_of_mem_toDigits hn) (by decide)
  have hlist : ∀ a b : Nat, (SeenBySlot.seenCacheKey a b).toList = Nat.toDigits 10 a ++ '-' :: Nat.toDigits 10 b := by
    unfold SeenBySlot.seenCacheKey
    simp [String.toList_append, toString]
  have htexts := congrArg String.toList h
  rw [hlist, hlist] at htexts
  obtain ⟨hsubnet, -, hindex⟩ := (List.append_cons_inj_of_notMem (hdash subnet) (hdash index)).1 htexts
  exact ⟨Decimal.toDigits_inj hsubnet, Decimal.toDigits_inj hindex⟩

namespace SeenBySlot

theorem isKnown_iff {seen : SeenBySlot} {slot subnet index : Nat} : seen.isKnown slot subnet index = true ↔
    ∃ keys, seen.seenCacheBySlot.get? slot = some keys ∧ seenCacheKey subnet index ∈ keys := by
  unfold isKnown
  cases seen.seenCacheBySlot.get? slot <;> simp

theorem isKnown_add (seen : SeenBySlot) (slot subnet index slot' subnet' index' : Nat) :
    (seen.add slot subnet index).isKnown slot' subnet' index' = true ↔
      seen.isKnown slot' subnet' index' = true ∨ (slot = slot' ∧ subnet = subnet' ∧ index = index') := by
  rw [isKnown_iff, isKnown_iff]
  unfold add
  rw [OrderedMap.get?_set]
  by_cases hslot : slot' = slot
  · subst hslot
    rw [if_pos rfl]
    constructor
    · rintro ⟨keys, hkeys, hmem⟩
      cases hkeys
      rcases List.mem_insert_iff.1 hmem with heq | hmem
      · obtain ⟨rfl, rfl⟩ := seenCacheKey_inj heq
        exact .inr ⟨rfl, rfl, rfl⟩
      · cases hold : seen.seenCacheBySlot.get? slot' with
        | none =>
          rw [hold] at hmem
          exact absurd hmem List.not_mem_nil
        | some keys =>
          rw [hold] at hmem
          exact .inl ⟨keys, rfl, hmem⟩
    · rintro (⟨keys, hkeys, hmem⟩ | ⟨-, rfl, rfl⟩)
      · rw [hkeys]
        exact ⟨_, rfl, List.mem_insert_of_mem hmem⟩
      · exact ⟨_, rfl, List.mem_insert_self⟩
  · rw [if_neg hslot]
    exact ⟨.inl, fun h => h.resolve_right fun h => hslot h.1.symm⟩

end SeenBySlot

/-! ## The calls -/

inductive SyncKey
  | message (slot subnet validatorIndex : Nat)
  | contribution (slot subCommitteeIndex aggregatorIndex : Nat)
deriving DecidableEq

def syncKey : SyncCall P → SyncKey
  | .message _ syncCommittee subnet => .message syncCommittee.slot subnet syncCommittee.validatorIndex
  | .contribution _ signed =>
    .contribution signed.message.contribution.slot signed.message.contribution.subCommitteeIndex signed.message.aggregatorIndex

def SyncChain.isKnown (chain : SyncChain) : SyncKey → Bool
  | .message slot subnet validatorIndex => chain.seenSyncCommitteeMessages.isKnown slot subnet validatorIndex
  | .contribution slot subCommitteeIndex aggregatorIndex =>
    chain.seenContributionAndProof.isKnown slot subCommitteeIndex aggregatorIndex

def SyncChain.add (chain : SyncChain) : SyncKey → SyncChain
  | .message slot subnet validatorIndex =>
    { chain with seenSyncCommitteeMessages := chain.seenSyncCommitteeMessages.add slot subnet validatorIndex }
  | .contribution slot subCommitteeIndex aggregatorIndex =>
    { chain with seenContributionAndProof := chain.seenContributionAndProof.add slot subCommitteeIndex aggregatorIndex }

theorem SyncChain.isKnown_add (chain : SyncChain) (key key' : SyncKey) :
    (chain.add key).isKnown key' = true ↔ chain.isKnown key' = true ∨ key = key' := by
  cases key <;> cases key' <;> simp [isKnown, add, SeenBySlot.isKnown_add]

def finish (sets : SyncSignatureSets P) (call : SyncCall P) (valid : SyncValid) (answer : Except String Bool)
    (chain : SyncChain) : SyncValidation sets × SyncChain :=
  match verifySignatures answer with
  | .error e => (.done (.error e), chain)
  | .ok () => (.done (.ok valid), chain.add (syncKey call))

/-- A call has ended, or awaits the verification with `finish` to run. -/
def Shaped (call : SyncCall P) (stop : SyncValidation sets) : Prop :=
  (∃ result, stop = .done result) ∨ ∃ signatureSets valid, stop = .await signatureSets (finish sets call valid)

theorem finish_done (call : SyncCall P) (valid : SyncValid) (answer : Except String Bool) (chain : SyncChain) :
    ∃ result, (finish sets call valid answer chain).1 = .done result := by
  unfold finish
  split
  · exact ⟨_, rfl⟩
  · exact ⟨_, rfl⟩

variable {call : SyncCall P}

theorem finish_ok_iff {valid : SyncValid} {answer : Except String Bool} {chain : SyncChain} :
    (∃ a, (finish sets call valid answer chain).1 = .done (.ok a)) ↔ answer = .ok true := by
  unfold finish
  cases answer with
  | error e => simp [verifySignatures, toSyncThrown, bind, Except.bind]
  | ok verified => cases verified <;> simp [verifySignatures, toSyncThrown, bind, Except.bind, check]

theorem syncRules_start (call : SyncCall P) (chain : SyncChain) :
    ((syncRules sets).start call chain).2 = chain ∧ Shaped call ((syncRules sets).start call chain).1 ∧
      ∀ a, ((syncRules sets).start call chain).1 ≠ .done (.ok a) := by
  cases call with
  | message view syncCommittee subnet =>
    unfold syncRules validateGossipSyncCommittee
    dsimp only
    split
    · exact ⟨rfl, .inl ⟨_, rfl⟩, fun a h => by cases h⟩
    · exact ⟨rfl, .inr ⟨_, _, rfl⟩, fun a h => by cases h⟩
  | contribution view signed =>
    unfold syncRules validateSyncCommitteeGossipContributionAndProof
    dsimp only
    split
    · exact ⟨rfl, .inl ⟨_, rfl⟩, fun a h => by cases h⟩
    · exact ⟨rfl, .inr ⟨_, _, rfl⟩, fun a h => by cases h⟩

abbrev LearnsKey (sets : SyncSignatureSets P) (call : SyncCall P) (chain : SyncChain) (r : SyncValidation sets × SyncChain) :
    Prop :=
  Learns (fun call (_ : SyncValid) => syncKey call) (fun chain key => chain.isKnown key = true) call chain r

theorem finish_learns (call : SyncCall P) (valid : SyncValid) (answer : Except String Bool) (chain : SyncChain) :
    LearnsKey sets call chain (finish sets call valid answer chain) := by
  unfold finish
  split
  · exact .of_same fun a h => by cases h
  · intro key
    dsimp only
    rw [SyncChain.isKnown_add]
    simp

theorem Shaped.safe {stop : SyncValidation sets} (h : Shaped call stop) : Safe (LearnsKey sets) call stop := by
  rcases h with ⟨result, rfl⟩ | ⟨signatureSets, valid, rfl⟩
  · exact .done result
  · refine .await _ _ (fun answer chain => finish_learns call valid answer chain) fun answer chain => ?_
    obtain ⟨result, hresult⟩ := @finish_done P sets call valid answer chain
    rw [hresult]
    exact .done result

/-! ## Runs -/

def FirstWhenVerified (s : SyncSystem sets) :
    Label (SyncCall P) (List sets.SignatureSet) (fun _ => Except String Bool) Empty → Prop
  | .resume n _ answer =>
    answer = .ok true → ∀ call stop, s.calls[n]? = some (call, stop) → s.store.isKnown (syncKey call) = false
  | _ => True

variable {s s' : SyncSystem sets} {label : Label (SyncCall P) (List sets.SignatureSet) (fun _ => Except String Bool) Empty}

theorem shaped_step (hstep : Step (syncRules sets) s label s') (hs : ∀ call ∈ s.calls, Shaped call.1 call.2) :
    ∀ call ∈ s'.calls, Shaped call.1 call.2 := by
  intro call hcall
  cases hstep with
  | start i =>
    rcases List.mem_append.1 hcall with hcall | hcall
    · exact hs call hcall
    · rw [List.mem_singleton.1 hcall]
      exact (syncRules_start i s.store).2.1
  | resume n i q k answer hn =>
    rcases List.mem_or_eq_of_mem_set hcall with hcall | rfl
    · exact hs call hcall
    · rcases (show Shaped i (.await q k) from hs _ (List.mem_of_getElem? hn)) with ⟨result, hresult⟩ | ⟨signatureSets, valid, hawait⟩
      · cases hresult
      · cases hawait
        exact .inl (finish_done i valid answer s.store)
  | outside w => exact w.elim

theorem fresh_iff (hs : ∀ call ∈ s.calls, Shaped call.1 call.2) (hstep : Step (syncRules sets) s label s') :
    Fresh (fun call (_ : SyncValid) => syncKey call) (fun chain key => chain.isKnown key = true) (syncRules sets) s label ↔
      FirstWhenVerified s label := by
  cases hstep with
  | start i =>
    refine ⟨fun _ => trivial, fun _ j r hstretch a ha => ?_⟩
    cases hstretch
    exact absurd ha ((syncRules_start i s.store).2.2 a)
  | resume n i q k answer hn =>
    rcases (show Shaped i (.await q k) from hs _ (List.mem_of_getElem? hn)) with ⟨result, hresult⟩ | ⟨signatureSets, valid, hawait⟩
    · cases hresult
    · cases hawait
      constructor
      · intro hfresh hverified call stop hcall
        cases hn.symm.trans hcall
        obtain ⟨a, ha⟩ := finish_ok_iff.2 hverified
        exact Bool.eq_false_iff.2 (hfresh i _ (.resume n i q _ answer hn) a ha)
      · intro hfirst j r hstretch a ha
        cases hstretch with
        | resume _ _ _ _ _ hn' =>
          cases hn.symm.trans hn'
          exact Bool.eq_false_iff.1 (hfirst (finish_ok_iff.1 ⟨a, ha⟩) i _ hn)
  | outside w => exact w.elim

/-- **However the validations overlap, none is accepted twice for one key exactly where no verification succeeds for a key
that has come to be known while it was awaited.** -/
theorem syncCommittee_accepted_once_iff (sets : SyncSignatureSets P)
    {s : SyncSystem sets}
    (hrun : Reaches (syncRules sets) ⟨.new, []⟩ s) :
    AcceptedOnce (fun call _ => syncKey call) s ↔ Run (syncRules sets) FirstWhenVerified ⟨.new, []⟩ s := by
  have hnone : ∀ key, ¬ SyncChain.new.isKnown key = true := by
    intro key
    cases key <;> simp [SyncChain.isKnown, SyncChain.new, SeenBySlot.isKnown_iff, OrderedMap.get?, OrderedMap.empty]
  rw [acceptedOnce_iff (fun call _ => syncKey call) (fun chain key => chain.isKnown key = true) hnone (fun call chain => ?_)
    (fun w => w.elim) hrun]
  · exact Run.congr (I := fun s => ∀ call ∈ s.calls, Shaped call.1 call.2) (fun call hcall => absurd hcall List.not_mem_nil)
      (fun s label s' hstep hs => shaped_step hstep hs) fun s label s' hs hstep => fresh_iff hs hstep
  · obtain ⟨hsame, hshaped, hnot⟩ := @syncRules_start P sets call chain
    refine ⟨?_, hshaped.safe⟩
    have hstart : (syncRules sets).start call chain = (((syncRules sets).start call chain).1, chain) := Prod.ext rfl hsame
    rw [hstart]
    exact .of_same hnot

/-! ## Two overlapping calls for one message -/

def plainSyncSets : SyncSignatureSets minimal where
  SignatureSet := Unit
  hash _ := zeroRoot
  getSyncCommitteeSignatureSet _ _ := .ok ()
  getSyncCommitteeSelectionProofSignatureSet _ _ := .ok ()
  getContributionAndProofSignatureSet _ _ := .ok ()
  getSyncCommitteeContributionSignatureSet _ _ := .ok ()

def plainHead : HeadView minimal where
  getHeadState := .ok { slashedInEpoch8 0 with
    currentIndexedSyncCommittee := { emptyIndexedSyncCommittee minimal with validatorIndices := [5] } }
  isCurrentSlotGivenGossipDisparity slot := slot == 327
  currentSlot := 327

def plainMessage : SyncCommitteeMessage :=
  { slot := 327, beaconBlockRoot := zeroRoot, validatorIndex := 5, signature := Vector.replicate 96 0 }

def playSync (moves : List (Move (SyncCall minimal) (List plainSyncSets.SignatureSet) fun _ => Except String Bool)) :
    SyncSystem plainSyncSets :=
  moves.foldl (play (syncRules plainSyncSets)) ⟨.new, []⟩

def overlappingMessages : SyncSystem plainSyncSets :=
  playSync [.start (.message plainHead plainMessage 0), .start (.message plainHead plainMessage 0),
    .resume 0 fun _ => .ok true, .resume 1 fun _ => .ok true]

/-- Both are accepted. -/
theorem syncCommittee_accepted_twice :
    ¬ ∀ s, Reaches (syncRules plainSyncSets) ⟨.new, []⟩ s → AcceptedOnce (fun call _ => syncKey call) s := by
  intro honce
  have haccepted : ∀ n, n < 2 → Accepted (fun (call : SyncCall minimal) (_ : SyncValid) => syncKey call) overlappingMessages n
      (.message 327 0 5) := by
    intro n hn
    refine ⟨.message plainHead plainMessage 0, .message 0, ?_, rfl⟩
    interval_cases n <;> rfl
  have heq := honce overlappingMessages (Reaches.plays .refl _) 0 1 _ (haccepted 0 (by decide)) (haccepted 1 (by decide))
  cases heq

/-- One after the other, the second is refused. -/
theorem syncCommittee_accepted_once_iff_after :
    AcceptedOnce (fun call _ => syncKey call) (playSync [.start (.message plainHead plainMessage 0), .resume 0 fun _ => .ok true,
        .start (.message plainHead plainMessage 0)]) ↔
      Run (syncRules plainSyncSets) FirstWhenVerified ⟨.new, []⟩ (playSync [.start (.message plainHead plainMessage 0),
        .resume 0 fun _ => .ok true, .start (.message plainHead plainMessage 0)]) :=
  syncCommittee_accepted_once_iff plainSyncSets (Reaches.plays .refl _)

end Lodestar.Gossip
