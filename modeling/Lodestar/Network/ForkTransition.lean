import Lodestar.Network.Network
import Lodestar.StateTransition.Util
/-!
# ForkTransition — the topics move to the next fork, and none is left behind

The run of a network through its clock's epochs.  Around altair's epoch a subnet must get altair's topic before that epoch ends,
and phase0's must be gone two epochs later.  `Network.onEpoch` moves the random subnets only, a subnet that a map has is never
subscribed again, and in its last epoch `getActiveForks` still lists the fork that was just taken away: `KeepsForks` are the
steps that avoid the three.
-/
namespace Lodestar.Network

open Lib Runs StateTransition AttnetsService

/-! ## The machine -/

structure Running where
  clock : Nat
  network : Network
  /-- The calls of the attnets service still to be made, the next one first. -/
  pending : List Call
  /-- `Network.onEpoch` was called in the clock's epoch. -/
  onEpochRan : Bool

inductive Move
  | tick
  | event (call : Call)
  | call (draws : Draws)
  | networkOnEpoch
  | subscribeGossipCoreTopics (headSlot : Nat)
  | unsubscribeGossipCoreTopics

variable (P : Preset) (cfg : ChainConfig)

def Running.epoch (n : Running) : Nat := computeEpochAtSlot P n.clock

def lastSlot (epoch : Nat) : Nat := computeStartSlotAtEpoch P (epoch + 1) - 1

/-- The clock moves on, to the next epoch after `Network.onEpoch` has run; the core topics go by a head in the clock's epoch. -/
def move : Move → Running → Option Running
  | .tick, n =>
    if computeEpochAtSlot P (n.clock + 1) = n.epoch P then some { n with clock := n.clock + 1 }
    else if n.onEpochRan then some { n with clock := n.clock + 1, onEpochRan := false }
    else none
  | .event call, n => if call.arrives P n.clock then some { n with pending := call :: n.pending } else none
  | .call draws, n =>
    match n.pending with
    | [] => none
    | call :: rest =>
      let (service, calls) := n.network.attnetsService.call P cfg n.clock draws call
      some { n with network := { n.network with attnetsService := service }, pending := calls ++ rest }
  | .networkOnEpoch, n =>
    if n.onEpochRan then none else some { n with network := n.network.onEpoch cfg (n.epoch P), onEpochRan := true }
  | .subscribeGossipCoreTopics headSlot, n =>
    if computeEpochAtSlot P headSlot = n.epoch P then
      some { n with network := n.network.subscribeGossipCoreTopics P cfg headSlot } else none
  | .unsubscribeGossipCoreTopics, n => some { n with network := n.network.unsubscribeGossipCoreTopics }

def Running.start (clock : Nat) (metadata : Metadata) (onEpochRan : Bool) : Running := ⟨clock, .new metadata, [], onEpochRan⟩

/-! ## What must hold at the end of an epoch -/

def Subscribed (gossip : List AttestationTopic) (subnet : Nat) : Prop := ∃ fork, ⟨fork, subnet⟩ ∈ gossip

/-- **What holds at the end of an epoch**: every active attestation subnet that is subscribed at all is subscribed under the
fork of the epoch, and only the active forks have topics. -/
structure ForkKept (n : Running) : Prop where
  moved : ∀ subnet < ATTESTATION_SUBNET_COUNT, n.network.attnetsService.Active subnet n.clock →
    Subscribed n.network.attnetsService.gossip subnet →
      ⟨getForkName P cfg n.clock, subnet⟩ ∈ n.network.attnetsService.gossip
  attnets : ∀ topic ∈ n.network.attnetsService.gossip, topic.subnet < ATTESTATION_SUBNET_COUNT →
    topic.fork ∈ getActiveForks cfg (n.epoch P)
  core : ∀ topic ∈ n.network.coreTopics, topic.fork ∈ getActiveForks cfg (n.epoch P)

def Running.EndsEpoch (n : Running) : Prop := computeEpochAtSlot P (n.clock + 1) ≠ n.epoch P

/-! ## The steps that keep to the forks -/

/-- Altair's topics are being subscribed, and phase0's are not yet unsubscribed. -/
def Running.InTransition (A : Nat) (n : Running) : Prop :=
  0 < A ∧ n.epoch P < A + FORK_EPOCH_LOOKAHEAD ∧
    (A < n.epoch P + FORK_EPOCH_LOOKAHEAD ∨ A = n.epoch P + FORK_EPOCH_LOOKAHEAD ∧ n.onEpochRan = true)

/-- The rest of the epoch in which phase0's topics were unsubscribed. -/
def Running.JustLeft (A : Nat) (n : Running) : Prop :=
  0 < A ∧ n.epoch P = A + FORK_EPOCH_LOOKAHEAD ∧ n.onEpochRan = true

instance (A : Nat) (n : Running) : Decidable (n.InTransition P A) := inferInstanceAs (Decidable (_ ∧ _ ∧ _))
instance (A : Nat) (n : Running) : Decidable (n.JustLeft P A) := inferInstanceAs (Decidable (_ ∧ _ ∧ _))

/-- The subnet has the topic of the epoch, if it is needed at its end, and altair's, if it is needed when altair has come. -/
def Ready (A epoch : Nat) (gossip : List AttestationTopic) (subnet : Nat) (needed : Nat → Prop) : Prop :=
  (needed (lastSlot P epoch) → ⟨getForkName P cfg (lastSlot P epoch), subnet⟩ ∈ gossip) ∧
    (needed (lastSlot P (max epoch A)) → ⟨.altair, subnet⟩ ∈ gossip)

/-- No subnet that is registered while the forks change is still held and lacks a topic it will need. -/
def RegistersReady (A : Nat) (n : Running) (requests : List RequestedSubnet) : Prop :=
  ∀ r ∈ requests, n.network.attnetsService.Held r.subnet → Subscribed n.network.attnetsService.gossip r.subnet →
    Ready P cfg A (n.epoch P) n.network.attnetsService.gossip r.subnet (· ≤ r.toSlot)

/-- Two epochs before altair no subnet without a random subscription stays on phase0 alone until altair's first epoch ends, and
none with one that is active to the end of this epoch is without phase0's topic. -/
def MovesAll (A : Nat) (n : Running) : Prop :=
  let s := n.network.attnetsService
  (∀ topic ∈ s.gossip, s.subscriptionsRandom.has topic.subnet = false → ⟨.altair, topic.subnet⟩ ∉ s.gossip →
    s.subscriptionsCommittee.isActiveAtSlot topic.subnet (lastSlot P A) = false) ∧
  ∀ subnet ∈ s.subscriptionsRandom.getAll, ⟨.phase0, subnet⟩ ∉ s.gossip → ¬ s.Active subnet (lastSlot P (n.epoch P))

/-- **The step keeps to the forks**: `Network.onEpoch` finds no subnet that it does not move, no call registers a subnet that
stays on one topic, and nothing is subscribed in the epoch in which phase0's topics were just taken away. -/
def KeepsForks (A : Nat) (n : Running) : Move → Prop
  | .networkOnEpoch => n.epoch P + FORK_EPOCH_LOOKAHEAD = A → MovesAll P A n
  | .call draws => ∀ call ∈ n.pending.head?,
      let requests := registrations P n.clock draws call n.network.attnetsService
      (n.InTransition P A → RegistersReady P cfg A n requests) ∧
        (n.JustLeft P A → ∀ r ∈ requests, n.network.attnetsService.Held r.subnet)
  | .subscribeGossipCoreTopics _ => ¬ n.JustLeft P A
  | _ => True

/-! ## The fork schedule -/

variable {P cfg} {A : Nat} (hA : cfg.ALTAIR_FORK_EPOCH = (A : ℕ∞))

include hA

theorem getCurrentAndNextFork_eq (epoch : Nat) : getCurrentAndNextFork cfg epoch =
    if A ≤ epoch then (⟨.altair, A⟩, none) else (⟨.phase0, GENESIS_EPOCH⟩, some ⟨.altair, A⟩) := by
  unfold getCurrentAndNextFork forks
  rw [hA]
  by_cases hle : A ≤ epoch
  · simp [hle, List.zipIdx, GENESIS_EPOCH]
  · simp [hle, List.zipIdx, GENESIS_EPOCH]

theorem getActiveForks_eq (epoch : Nat) : getActiveForks cfg epoch =
    if epoch + FORK_EPOCH_LOOKAHEAD < A then [.phase0]
    else if A = 0 ∨ A + FORK_EPOCH_LOOKAHEAD < epoch then [.altair] else [.phase0, .altair] := by
  unfold getActiveForks
  rw [getCurrentAndNextFork_eq hA]
  unfold FORK_EPOCH_LOOKAHEAD
  by_cases hle : A ≤ epoch - 2 - 1
  · rw [if_pos hle, if_neg (by omega), if_pos (by omega)]
  · rw [if_neg hle]
    dsimp only
    have hearly : ((epoch : ℕ∞) + (2 : Nat) < (A : ℕ∞)) ↔ epoch + 2 < A := by exact_mod_cast Iff.rfl
    have hlate : ¬ ((A : ℕ∞) + (2 : Nat) < (epoch : ℕ∞)) := by exact_mod_cast (by omega : ¬ A + 2 < epoch)
    rw [if_neg hlate]
    by_cases hbefore : epoch + 2 < A
    · rw [if_pos hbefore, if_pos (hearly.2 hbefore)]
    · rw [if_neg hbefore, if_neg fun h => hbefore (hearly.1 h), if_neg (by omega)]

theorem getForkName_eq (slot : Nat) :
    getForkName P cfg slot = if A ≤ computeEpochAtSlot P slot then .altair else .phase0 := by
  unfold getForkName
  rw [hA]
  simp

omit hA

/-! ## What one call does to a subnet -/

/-- What happens to the topics of one subnet, of which `before fork` and `after fork` tell. -/
inductive SubnetStep (forks : List ForkName) (held requested : Prop) (before after : ForkName → Prop) : Prop
  | kept (hheld : requested → held) (h : ∀ fork, after fork ↔ before fork)
  | subscribed (hrequested : requested) (hheld : ¬ held) (h : ∀ fork, after fork ↔ before fork ∨ fork ∈ forks)
  | unsubscribed (h : ∀ fork, after fork ↔ before fork ∧ fork ∉ forks)

section Call

variable {clock : Nat} {s : AttnetsService}

theorem subscribeToSubnets_topics (subnets : List Nat) (subnet : Nat) :
    SubnetStep (getActiveForks cfg (computeEpochAtSlot P clock)) (s.Held subnet) (subnet ∈ subnets)
      (fun fork => ⟨fork, subnet⟩ ∈ s.gossip) (fun fork => ⟨fork, subnet⟩ ∈ (subscribeToSubnets P cfg clock subnets s).gossip) := by
  by_cases hnew : subnet ∈ subnets ∧ ¬ s.Held subnet
  · refine .subscribed hnew.1 hnew.2 fun fork => mem_subscribeToSubnets.trans ?_
    simp [hnew]
  · refine .kept (fun hmem => not_not.1 fun hheld => hnew ⟨hmem, hheld⟩) fun fork => mem_subscribeToSubnets.trans ?_
    simp [hnew]

theorem unsubscribeSubnets_topics (subnets : List Nat) (slot subnet : Nat) {held : Prop} :
    SubnetStep (getActiveForks cfg (computeEpochAtSlot P clock)) held False
      (fun fork => ⟨fork, subnet⟩ ∈ s.gossip)
      (fun fork => ⟨fork, subnet⟩ ∈ (unsubscribeSubnets P cfg clock subnets slot s).gossip) := by
  by_cases hleave : subnet ∈ subnets ∧ ¬ s.Active subnet slot
  · refine .unsubscribed fun fork => mem_unsubscribeSubnets.trans ?_
    simp [hleave]
  · refine .kept False.elim fun fork => mem_unsubscribeSubnets.trans (and_iff_left fun _ hmem => ?_)
    exact not_not.1 fun hactive => hleave ⟨hmem, hactive⟩

theorem SubnetStep.congr {forks : List ForkName} {held held' requested requested' : Prop} {before after : ForkName → Prop}
    (h : SubnetStep forks held requested before after) (hheld : held ↔ held') (hrequested : requested ↔ requested') :
    SubnetStep forks held' requested' before after := by
  rwa [← propext hheld, ← propext hrequested]

theorem updateMetadata_gossip : (updateMetadata s).gossip = s.gossip := by
  unfold updateMetadata
  dsimp only
  split <;> rfl

theorem updateMetadata_active (subnet slot : Nat) : (updateMetadata s).Active subnet slot ↔ s.Active subnet slot := by
  unfold updateMetadata
  dsimp only
  split <;> exact Iff.rfl

theorem call_topics (call : Call) (draws : Draws) (subnet : Nat) :
    SubnetStep (getActiveForks cfg (computeEpochAtSlot P clock)) (s.Held subnet)
      (∃ r ∈ registrations P clock draws call s, r.subnet = subnet)
      (fun fork => ⟨fork, subnet⟩ ∈ s.gossip) (fun fork => ⟨fork, subnet⟩ ∈ (s.call P cfg clock draws call).1.gossip) := by
  have hnone : ∀ requests : List RequestedSubnet, requests = [] → (False ↔ ∃ r ∈ requests, r.subnet = subnet) := by
    rintro requests rfl
    simp
  cases call with
  | addCommitteeSubscriptions subscriptions =>
    obtain ⟨hcommittee, hrandom, hgossip⟩ := @addKnownValidators_subscriptions clock subscriptions (s, false)
    have hstep := @subscribeToSubnets_topics P cfg clock (subscriptions.foldl (addKnownValidator clock) (s, false)).1
      ((subnetsToSubscribe subscriptions).map (·.subnet)) subnet
    unfold Held at hstep ⊢
    rw [hcommittee, hrandom, hgossip] at hstep
    exact hstep.congr Iff.rfl List.mem_map
  | onSlot slot => exact .kept (fun h => ((hnone _ rfl).2 h).elim) fun fork => Iff.rfl
  | onEpoch epoch => exact .kept (fun h => ((hnone _ rfl).2 h).elim) fun fork => Iff.rfl
  | unsubscribeExpiredCommitteeSubnets slot =>
    exact (unsubscribeSubnets_topics (s := { s with subscriptionsCommittee := (s.subscriptionsCommittee.getExpired slot).2 })
      _ slot subnet).congr Iff.rfl (hnone _ rfl)
  | unsubscribeExpiredRandomSubnets slot =>
    exact (unsubscribeSubnets_topics (s := { s with subscriptionsRandom := (s.subscriptionsRandom.getExpired slot).2 })
      _ slot subnet).congr Iff.rfl (hnone _ rfl)
  | pruneExpiredKnownValidators slot => exact .kept (fun h => ((hnone _ rfl).2 h).elim) fun fork => Iff.rfl
  | rebalanceRandomSubnets =>
    unfold call rebalanceRandomSubnets registrations
    dsimp only
    by_cases hmissing : 0 < s.subnetDiff
    · rw [if_pos hmissing, updateMetadata_gossip]
      exact (subscribeToSubnets_topics _ subnet).congr Iff.rfl List.mem_map
    · rw [if_neg hmissing]
      have hnil := hnone (subnetsToConnect P clock draws s) (subnetsToConnect_eq_nil hmissing)
      by_cases htoo : s.subnetDiff < 0
      · rw [if_pos htoo, updateMetadata_gossip]
        exact (unsubscribeSubnets_topics (s := { s with
          subscriptionsRandom := (toRemoveSubnets clock s).foldl SubnetMap.delete s.subscriptionsRandom }) _ clock subnet).congr
            Iff.rfl hnil
      · rw [if_neg htoo]
        exact .kept (fun h => (hnil.2 h).elim) fun fork => Iff.rfl

theorem call_active (call : Call) (draws : Draws) {subnet slot : Nat}
    (hactive : (s.call P cfg clock draws call).1.Active subnet slot) :
    s.Active subnet slot ∨ ∃ r ∈ registrations P clock draws call s, r.subnet = subnet ∧ slot ≤ r.toSlot := by
  cases call with
  | addCommitteeSubscriptions subscriptions =>
    obtain ⟨hcommittee, hrandom, -⟩ := @addKnownValidators_subscriptions clock subscriptions (s, false)
    unfold AttnetsService.call addCommitteeSubscriptions Active at hactive
    dsimp only [subscribeToSubnets] at hactive hcommittee hrandom
    rw [SubnetMap.isActiveAtSlot_requests, hcommittee, hrandom, or_right_comm] at hactive
    exact hactive
  | onSlot slot => exact .inl hactive
  | onEpoch epoch => exact .inl hactive
  | unsubscribeExpiredCommitteeSubnets slot' => exact .inl (hactive.imp_left SubnetMap.isActiveAtSlot_of_getExpired)
  | unsubscribeExpiredRandomSubnets slot' => exact .inl (hactive.imp_right SubnetMap.isActiveAtSlot_of_getExpired)
  | pruneExpiredKnownValidators slot => exact .inl hactive
  | rebalanceRandomSubnets =>
    unfold AttnetsService.call rebalanceRandomSubnets at hactive
    dsimp only at hactive
    by_cases hmissing : 0 < s.subnetDiff
    · rw [if_pos hmissing, updateMetadata_active] at hactive
      unfold Active at hactive
      rw [SubnetMap.isActiveAtSlot_requests, ← or_assoc] at hactive
      exact hactive
    · rw [if_neg hmissing] at hactive
      by_cases htoo : s.subnetDiff < 0
      · rw [if_pos htoo, updateMetadata_active] at hactive
        exact .inl (hactive.imp_right SubnetMap.isActiveAtSlot_of_deletes)
      · rw [if_neg htoo] at hactive
        exact .inl hactive

end Call

/-! ## What `Network.onEpoch` does -/

variable {s : AttnetsService} {topic : AttestationTopic}

theorem mem_subscribeSubnetsToNextFork {nextFork : ForkName} :
    topic ∈ (subscribeSubnetsToNextFork nextFork s).gossip ↔
      topic ∈ s.gossip ∨ topic.fork = nextFork ∧ topic.subnet ∈ s.subscriptionsRandom.getAll := by
  unfold subscribeSubnetsToNextFork
  generalize s.gossip = gossip
  induction s.subscriptionsRandom.getAll generalizing gossip with
  | nil => simp
  | cons first subnets ih =>
    rw [List.foldl_cons, ih, mem_subscribeTopic, AttestationTopic.mk.injEq, List.mem_cons, and_or_left, or_assoc, or_left_comm]

theorem mem_unsubscribeSubnetsFromPrevFork {prevFork : ForkName} :
    topic ∈ (unsubscribeSubnetsFromPrevFork prevFork s).gossip ↔
      topic ∈ s.gossip ∧ ¬ (topic.fork = prevFork ∧ topic.subnet < ATTESTATION_SUBNET_COUNT) := by
  unfold unsubscribeSubnetsFromPrevFork
  rw [← List.mem_range]
  generalize s.gossip = gossip
  induction List.range ATTESTATION_SUBNET_COUNT generalizing gossip with
  | nil => simp
  | cons first subnets ih =>
    rw [List.foldl_cons, ih, mem_unsubscribeTopic, ne_eq, AttestationTopic.mk.injEq, List.mem_cons, and_or_left, not_or, and_assoc]

include hA

variable {epoch : Nat}

theorem onEpoch_before (n : Network) (h : epoch + FORK_EPOCH_LOOKAHEAD = A) : n.onEpoch cfg epoch =
    let n := if n.isSubscribedToGossipCoreTopics then n.subscribeCoreTopicsAtFork .altair else n
    { n with attnetsService := n.attnetsService.subscribeSubnetsToNextFork .altair } := by
  unfold Network.onEpoch
  unfold FORK_EPOCH_LOOKAHEAD at h ⊢
  rw [getCurrentAndNextFork_eq hA, if_neg (by omega)]
  have hbefore : (epoch : ℕ∞) + (2 : Nat) = (A : ℕ∞) := by exact_mod_cast h
  have hafter : ¬ (epoch : ℕ∞) = (A : ℕ∞) + (2 : Nat) := by exact_mod_cast (by omega : ¬ epoch = A + 2)
  dsimp only
  rw [if_pos hbefore, if_neg hafter]

theorem onEpoch_after (n : Network) (hpos : 0 < A) (h : epoch = A + FORK_EPOCH_LOOKAHEAD) : n.onEpoch cfg epoch =
    let n := n.unsubscribeCoreTopicsAtFork .phase0
    { n with attnetsService := n.attnetsService.unsubscribeSubnetsFromPrevFork .phase0 } := by
  unfold Network.onEpoch
  unfold FORK_EPOCH_LOOKAHEAD at h ⊢
  rw [getCurrentAndNextFork_eq hA, if_neg (by omega)]
  have hbefore : ¬ (epoch : ℕ∞) + (2 : Nat) = (A : ℕ∞) := by exact_mod_cast (by omega : ¬ epoch + 2 = A)
  have hafter : (epoch : ℕ∞) = (A : ℕ∞) + (2 : Nat) := by exact_mod_cast h
  dsimp only
  rw [if_neg hbefore, if_pos hafter]

theorem onEpoch_other (n : Network) (hbefore : epoch + FORK_EPOCH_LOOKAHEAD ≠ A)
    (hafter : ¬ (0 < A ∧ epoch = A + FORK_EPOCH_LOOKAHEAD)) : n.onEpoch cfg epoch = n := by
  unfold Network.onEpoch
  unfold FORK_EPOCH_LOOKAHEAD at *
  rw [getCurrentAndNextFork_eq hA]
  by_cases hle : A ≤ epoch - 2 - 1
  · rw [if_pos hle]
  · rw [if_neg hle]
    have hbefore' : ¬ (epoch : ℕ∞) + (2 : Nat) = (A : ℕ∞) := by exact_mod_cast hbefore
    have hafter' : ¬ (epoch : ℕ∞) = (A : ℕ∞) + (2 : Nat) := by exact_mod_cast (by omega : ¬ epoch = A + 2)
    dsimp only
    rw [if_neg hbefore', if_neg hafter']

omit hA

/-! ## Slots and epochs -/

theorem computeEpochAtSlot_succ (slot : Nat) : computeEpochAtSlot P (slot + 1) = computeEpochAtSlot P slot ∨
    computeEpochAtSlot P (slot + 1) = computeEpochAtSlot P slot + 1 ∧ slot = lastSlot P (computeEpochAtSlot P slot) := by
  unfold lastSlot computeEpochAtSlot computeStartSlotAtEpoch
  rw [Nat.succ_div]
  by_cases hdvd : P.SLOTS_PER_EPOCH ∣ slot + 1
  · rw [if_pos hdvd]
    refine .inr ⟨rfl, ?_⟩
    have hnext : (slot + 1) / P.SLOTS_PER_EPOCH = slot / P.SLOTS_PER_EPOCH + 1 := by
      rw [Nat.succ_div, if_pos hdvd]
    rw [← hnext, Nat.div_mul_cancel hdvd, Nat.add_sub_cancel]
  · rw [if_neg hdvd]
    exact .inl rfl

theorem lastSlot_succ (epoch : Nat) : lastSlot P epoch + 1 = (epoch + 1) * P.SLOTS_PER_EPOCH := by
  exact Nat.sub_add_cancel (Nat.mul_pos (Nat.succ_pos epoch) P.slotsPerEpoch_pos)

theorem computeEpochAtSlot_lastSlot (epoch : Nat) : computeEpochAtSlot P (lastSlot P epoch) = epoch := by
  have hsucc := @lastSlot_succ P epoch
  have hpos := P.slotsPerEpoch_pos
  unfold computeEpochAtSlot
  rw [Nat.div_eq_iff hpos]
  rw [Nat.add_mul, Nat.one_mul, Nat.mul_comm] at hsucc
  rw [Nat.mul_comm]
  omega

theorem lastSlot_mono {epoch epoch' : Nat} (h : epoch ≤ epoch') : lastSlot P epoch ≤ lastSlot P epoch' := by
  have hmul : (epoch + 1) * P.SLOTS_PER_EPOCH ≤ (epoch' + 1) * P.SLOTS_PER_EPOCH :=
    Nat.mul_le_mul_right P.SLOTS_PER_EPOCH (Nat.succ_le_succ h)
  have hsucc := @lastSlot_succ P epoch
  have hsucc' := lastSlot_succ (P := P) epoch'
  omega

/-! ## Subnets that are ready for the fork -/

section Ready

variable {epoch subnet : Nat} {gossip : List AttestationTopic} {needed needed' : Nat → Prop}

theorem ready_of_both (h : ∀ fork, ⟨fork, subnet⟩ ∈ gossip) : Ready P cfg A epoch gossip subnet needed := ⟨fun _ => h _, fun _ => h _⟩

include hA in
theorem Ready.succ (h : Ready P cfg A epoch gossip subnet needed) (hmono : ∀ slot slot', slot ≤ slot' → needed slot' → needed slot) :
    Ready P cfg A (epoch + 1) gossip subnet needed := by
  obtain ⟨hnow, haltair⟩ := h
  rw [getForkName_eq hA, computeEpochAtSlot_lastSlot] at hnow
  refine ⟨fun hneeded => ?_, fun hneeded => ?_⟩
  · rw [getForkName_eq hA, computeEpochAtSlot_lastSlot]
    have hbefore := hmono _ _ (lastSlot_mono (Nat.le_succ epoch)) hneeded
    by_cases hle : A ≤ epoch
    · rw [if_pos hle] at hnow
      rw [if_pos (Nat.le_succ_of_le hle)]
      exact hnow hbefore
    · by_cases hnext : A = epoch + 1
      · rw [if_pos (Nat.le_of_eq hnext)]
        refine haltair ?_
        rw [max_eq_right (by omega), hnext]
        exact hneeded
      · rw [if_neg hle] at hnow
        rw [if_neg (by omega)]
        exact hnow hbefore
  · exact haltair (hmono _ _ (lastSlot_mono (max_le_max_right A (Nat.le_succ epoch))) hneeded)

end Ready

/-! ## The invariant -/

/-- Phase0's topics have been unsubscribed, or there never are any. -/
def Running.HasLeft (P : Preset) (A : Nat) (n : Running) : Prop :=
  A = 0 ∨ A + FORK_EPOCH_LOOKAHEAD < n.epoch P ∨ n.JustLeft P A

/-- **The topics of a network, by the time**: phase0 alone at first; both forks' for what is subscribed anew in the epoch in
which the transition begins; all ready during the transition; and altair alone when phase0 was left. -/
structure ForksInv (P : Preset) (cfg : ChainConfig) (A : Nat) (n : Running) : Prop where
  core : n.network.CoreInv
  early : n.epoch P + FORK_EPOCH_LOOKAHEAD < A → .altair ∉ n.network.subscribedForks ∧
    ∀ topic ∈ n.network.attnetsService.gossip, topic.fork = .phase0
  before : n.epoch P + FORK_EPOCH_LOOKAHEAD = A → n.onEpochRan = false → ∀ subnet,
    ⟨.altair, subnet⟩ ∈ n.network.attnetsService.gossip → ⟨.phase0, subnet⟩ ∈ n.network.attnetsService.gossip
  transition : n.InTransition P A → ∀ subnet, Subscribed n.network.attnetsService.gossip subnet →
    Ready P cfg A (n.epoch P) n.network.attnetsService.gossip subnet fun slot => n.network.attnetsService.Active subnet slot
  left : n.HasLeft P A → .phase0 ∉ n.network.subscribedForks ∧
    ∀ topic ∈ n.network.attnetsService.gossip, topic.subnet < ATTESTATION_SUBNET_COUNT → topic.fork = .altair

theorem start_inv (clock : Nat) (metadata : Metadata) (ran : Bool) : ForksInv P cfg A (.start clock metadata ran) where
  core := ⟨fun _ htopic => absurd htopic List.not_mem_nil, fun _ htopic => absurd htopic List.not_mem_nil⟩
  early _ := ⟨List.not_mem_nil, fun _ htopic => absurd htopic List.not_mem_nil⟩
  before _ _ _ htopic := absurd htopic List.not_mem_nil
  transition _ _ hsubscribed := absurd hsubscribed.choose_spec List.not_mem_nil
  left _ := ⟨List.not_mem_nil, fun _ htopic => absurd htopic List.not_mem_nil⟩

variable {fork : ForkName}

theorem phase0_of_ne (h : fork ≠ .altair) : fork = .phase0 := by
  cases fork with
  | phase0 => rfl
  | altair => exact absurd rfl h

theorem altair_of_ne (h : fork ≠ .phase0) : fork = .altair := by
  cases fork with
  | phase0 => exact absurd rfl h
  | altair => rfl

include hA

theorem getActiveForks_early (epoch : Nat) (h : epoch + FORK_EPOCH_LOOKAHEAD < A) : getActiveForks cfg epoch = [.phase0] := by
  rw [getActiveForks_eq hA, if_pos h]

theorem getActiveForks_late (epoch : Nat) (h : A = 0 ∨ A + FORK_EPOCH_LOOKAHEAD < epoch) : getActiveForks cfg epoch = [.altair] := by
  rw [getActiveForks_eq hA, if_neg (by unfold FORK_EPOCH_LOOKAHEAD at *; omega), if_pos h]

theorem mem_getActiveForks (epoch : Nat) (hpos : 0 < A) (hfirst : A ≤ epoch + FORK_EPOCH_LOOKAHEAD)
    (hlast : epoch ≤ A + FORK_EPOCH_LOOKAHEAD) (fork : ForkName) : fork ∈ getActiveForks cfg epoch := by
  rw [getActiveForks_eq hA, if_neg (by omega), if_neg (by omega)]
  cases fork with
  | phase0 => exact List.mem_cons_self
  | altair => exact List.mem_cons_of_mem _ List.mem_cons_self

/-! ## What one step does -/

section Steps

variable {n n' : Running}

theorem call_inv (hinv : ForksInv P cfg A n) {call : Call} {draws : Draws} {pending : List Call}
    (hready : n.InTransition P A →
      RegistersReady P cfg A n (registrations P n.clock draws call n.network.attnetsService))
    (hheld : n.JustLeft P A → ∀ r ∈ registrations P n.clock draws call n.network.attnetsService,
      n.network.attnetsService.Held r.subnet) :
    ForksInv P cfg A { n with
      network := { n.network with attnetsService := (n.network.attnetsService.call P cfg n.clock draws call).1 }, pending } := by
  have htopics := @call_topics P cfg n.clock n.network.attnetsService call draws
  refine ⟨⟨hinv.core.subscribed, hinv.core.types⟩, fun hearly => ?_, fun hfirst hran subnet haltair => ?_, fun htransition subnet hsubscribed => ?_,
    fun hleft => ?_⟩
  · obtain ⟨hcore, hold⟩ := hinv.early hearly
    refine ⟨hcore, fun topic htopic => ?_⟩
    rcases htopics topic.subnet with ⟨-, h⟩ | ⟨-, -, h⟩ | h
    · exact hold topic ((h topic.fork).1 htopic)
    · rcases (h topic.fork).1 htopic with hmem | hfork
      · exact hold topic hmem
      · have hforks := getActiveForks_early hA (n.epoch P) hearly
        unfold Running.epoch at hforks
        rw [hforks] at hfork
        exact List.mem_singleton.1 hfork
    · exact hold topic ((h topic.fork).1 htopic).1
  · have hactive := mem_getActiveForks hA (n.epoch P) (by dsimp [Running.epoch, FORK_EPOCH_LOOKAHEAD] at hfirst ⊢; omega)
      (Nat.le_of_eq hfirst.symm) (by dsimp [Running.epoch] at hfirst ⊢; omega)
    rcases htopics subnet with ⟨-, h⟩ | ⟨-, -, h⟩ | h
    · exact (h .phase0).2 (hinv.before hfirst hran subnet ((h .altair).1 haltair))
    · exact (h .phase0).2 (.inr (hactive .phase0))
    · exact absurd (hactive .altair) ((h .altair).1 haltair).2
  · have hactive := mem_getActiveForks hA (n.epoch P) htransition.1
      (htransition.2.2.elim Nat.le_of_lt fun h => Nat.le_of_eq h.1) (Nat.le_of_lt htransition.2.1)
    obtain ⟨fork, hfork⟩ := hsubscribed
    rcases htopics subnet with ⟨hkept, h⟩ | ⟨-, -, h⟩ | h
    · -- what is newly active was registered, and is ready as long as it is needed
      have hbefore : Subscribed n.network.attnetsService.gossip subnet := ⟨fork, (h fork).1 hfork⟩
      have hsame : ∀ {needed : Nat → Prop}, Ready P cfg A (n.epoch P) n.network.attnetsService.gossip subnet needed →
          Ready P cfg A (n.epoch P) (n.network.attnetsService.call P cfg n.clock draws call).1.gossip subnet needed :=
        fun hold => ⟨fun hneeded => (h _).2 (hold.1 hneeded), fun hneeded => (h _).2 (hold.2 hneeded)⟩
      refine hsame ⟨fun hneeded => ?_, fun hneeded => ?_⟩
      · rcases call_active call draws hneeded with hold | ⟨r, hr, rfl, hle⟩
        · exact (hinv.transition htransition subnet hbefore).1 hold
        · exact (hready htransition r hr (hkept ⟨r, hr, rfl⟩) hbefore).1 hle
      · rcases call_active call draws hneeded with hold | ⟨r, hr, rfl, hle⟩
        · exact (hinv.transition htransition subnet hbefore).2 hold
        · exact (hready htransition r hr (hkept ⟨r, hr, rfl⟩) hbefore).2 hle
    · exact ready_of_both fun fork => (h fork).2 (.inr (hactive fork))
    · exact absurd (hactive fork) ((h fork).1 hfork).2
  · obtain ⟨hcore, hold⟩ := hinv.left hleft
    refine ⟨hcore, fun topic htopic hlt => ?_⟩
    rcases htopics topic.subnet with ⟨-, h⟩ | ⟨⟨r, hr, hsubnet⟩, hnot, h⟩ | h
    · exact hold topic ((h topic.fork).1 htopic) hlt
    · rcases (h topic.fork).1 htopic with hmem | hfork
      · exact hold topic hmem hlt
      · by_cases hjust : n.JustLeft P A
        · exact absurd (hsubnet ▸ hheld hjust r hr) hnot
        · have hlate : A = 0 ∨ A + FORK_EPOCH_LOOKAHEAD < n.epoch P := by
            rcases hleft with h | h | h
            · exact .inl h
            · exact .inr h
            · exact absurd h hjust
          have hforks := getActiveForks_late hA (n.epoch P) hlate
          unfold Running.epoch at hforks
          rw [hforks] at hfork
          exact List.mem_singleton.1 hfork
    · exact hold topic ((h topic.fork).1 htopic).1 hlt

omit hA in
theorem tick_same (hinv : ForksInv P cfg A n) (h : computeEpochAtSlot P (n.clock + 1) = n.epoch P) :
    ForksInv P cfg A { n with clock := n.clock + 1 } := by
  have hepoch : Running.epoch P { n with clock := n.clock + 1 } = n.epoch P := h
  obtain ⟨core, early, before, transition, left⟩ := hinv
  refine ⟨core, ?_, ?_, ?_, ?_⟩
  · rwa [hepoch]
  · rwa [hepoch]
  · unfold Running.InTransition at transition ⊢
    rwa [hepoch]
  · unfold Running.HasLeft Running.JustLeft at left ⊢
    rwa [hepoch]

theorem tick_next (hinv : ForksInv P cfg A n) (hran : n.onEpochRan = true)
    (h : computeEpochAtSlot P (n.clock + 1) = n.epoch P + 1) :
    ForksInv P cfg A { n with clock := n.clock + 1, onEpochRan := false } := by
  have hepoch : Running.epoch P { n with clock := n.clock + 1, onEpochRan := false } = n.epoch P + 1 := h
  obtain ⟨core, early, before, transition, left⟩ := hinv
  refine ⟨core, fun hearly => ?_, fun hfirst _ subnet haltair => ?_, fun htransition subnet hsubscribed => ?_, fun hleft => ?_⟩
  · rw [hepoch] at hearly
    exact early (by omega)
  · rw [hepoch] at hfirst
    cases (early (by omega)).2 _ haltair
  · unfold Running.InTransition at htransition
    rw [hepoch] at htransition ⊢
    obtain ⟨hpos, hlast, hfirst | ⟨-, hran'⟩⟩ := htransition
    · refine (transition ⟨hpos, by omega, ?_⟩ subnet hsubscribed).succ hA fun slot slot' hle => Active.mono hle
      by_cases hnow : A = n.epoch P + FORK_EPOCH_LOOKAHEAD
      · exact .inr ⟨hnow, hran⟩
      · exact .inl (by omega)
    · cases hran'
  · refine left ?_
    obtain hzero | hlate | ⟨-, -, hran'⟩ := hleft
    · exact .inl hzero
    · by_cases hnow : n.epoch P = A + FORK_EPOCH_LOOKAHEAD
      · by_cases hzero : A = 0
        · exact .inl hzero
        · exact .inr (.inr ⟨Nat.pos_of_ne_zero hzero, hnow, hran⟩)
      · exact .inr (.inl (by omega))
    · cases hran'

omit hA in
theorem beforeFork_ready (hfirst : n.epoch P + FORK_EPOCH_LOOKAHEAD = A) (hmoves : MovesAll P A n)
    (hphase0 : ∀ fork, getForkName P cfg (lastSlot P (n.epoch P)) = fork → fork = .phase0)
    (hbefore : ∀ subnet, ⟨.altair, subnet⟩ ∈ n.network.attnetsService.gossip →
      ⟨.phase0, subnet⟩ ∈ n.network.attnetsService.gossip) {subnet : Nat}
    (hsubscribed : Subscribed (subscribeSubnetsToNextFork .altair n.network.attnetsService).gossip subnet) :
    Ready P cfg A (n.epoch P) (subscribeSubnetsToNextFork .altair n.network.attnetsService).gossip subnet fun slot =>
      n.network.attnetsService.Active subnet slot := by
  obtain ⟨hcommittee, hrandom⟩ := hmoves
  obtain ⟨fork, hfork⟩ := hsubscribed
  rw [mem_subscribeSubnetsToNextFork] at hfork
  unfold Ready
  rw [mem_subscribeSubnetsToNextFork, mem_subscribeSubnetsToNextFork, hphase0 _ rfl]
  by_cases hmem : subnet ∈ n.network.attnetsService.subscriptionsRandom.getAll
  · refine ⟨fun hactive => .inl (not_not.1 fun hnot => ?_), fun _ => .inr ⟨rfl, hmem⟩⟩
    exact hrandom subnet hmem hnot hactive
  · have hphase : ⟨.phase0, subnet⟩ ∈ n.network.attnetsService.gossip := by
      rcases hfork with hfork | ⟨-, hfork⟩
      · cases fork with
        | phase0 => exact hfork
        | altair => exact hbefore subnet hfork
      · exact absurd hfork hmem
    have hhas : n.network.attnetsService.subscriptionsRandom.has subnet = false := by
      rw [Bool.eq_false_iff]
      intro hhas
      obtain ⟨toSlot, htoSlot⟩ := SubnetMap.has_iff.1 hhas
      exact hmem (List.mem_map.2 ⟨(subnet, toSlot), SubnetMap.mem_entries_iff.2 htoSlot, rfl⟩)
    refine ⟨fun _ => .inl hphase, fun hactive => .inl (not_not.1 fun hnot => ?_)⟩
    have hlast : max (n.epoch P) A = A := max_eq_right (by omega)
    rw [hlast] at hactive
    rcases hactive with h | h
    · have hover := hcommittee ⟨.phase0, subnet⟩ hphase hhas hnot
      exact Bool.false_ne_true (hover.symm.trans h)
    · obtain ⟨toSlot, htoSlot, -⟩ := SubnetMap.isActiveAtSlot_iff.1 h
      have hheld := SubnetMap.has_iff.2 ⟨toSlot, htoSlot⟩
      exact Bool.false_ne_true (hhas.symm.trans hheld)

theorem networkOnEpoch_inv (hinv : ForksInv P cfg A n) (hran : n.onEpochRan = false)
    (hmoves : n.epoch P + FORK_EPOCH_LOOKAHEAD = A → MovesAll P A n) :
    ForksInv P cfg A { n with network := n.network.onEpoch cfg (n.epoch P), onEpochRan := true } := by
  by_cases hbefore : n.epoch P + FORK_EPOCH_LOOKAHEAD = A
  · have hlook : n.epoch P + 2 = A := hbefore
    have hphase0 : ∀ fork, getForkName P cfg (lastSlot P (n.epoch P)) = fork → fork = .phase0 := by
      intro fork hfork
      rw [getForkName_eq hA, computeEpochAtSlot_lastSlot, if_neg (by omega)] at hfork
      exact hfork.symm
    have hservice : ∀ n₁ : Network, n₁ = (if n.network.isSubscribedToGossipCoreTopics then
        n.network.subscribeCoreTopicsAtFork .altair else n.network) →
          n₁.CoreInv ∧ n₁.attnetsService = n.network.attnetsService := by
      rintro n₁ rfl
      split
      · exact ⟨hinv.core.subscribe _, Network.attnetsService_subscribe _⟩
      · exact ⟨hinv.core, rfl⟩
    rw [onEpoch_before hA n.network hbefore]
    generalize hn₁ : (if n.network.isSubscribedToGossipCoreTopics then
      n.network.subscribeCoreTopicsAtFork .altair else n.network) = n₁
    obtain ⟨hcore, hsame⟩ := hservice n₁ hn₁.symm
    dsimp only
    rw [hsame]
    refine ⟨⟨hcore.subscribed, hcore.types⟩, fun hearly => ?_, fun _ hran' => ?_, fun _ subnet hsubscribed => ?_, fun hleft => ?_⟩
    · exact absurd hearly (Nat.not_lt_of_le (Nat.le_of_eq hbefore.symm))
    · cases hran'
    · exact beforeFork_ready hbefore (hmoves hbefore) hphase0 (hinv.before hbefore hran) hsubscribed
    · unfold Running.HasLeft Running.JustLeft Running.epoch FORK_EPOCH_LOOKAHEAD at hleft
      unfold Running.epoch at hlook
      dsimp only at hleft
      omega
  · by_cases hafter : 0 < A ∧ n.epoch P = A + FORK_EPOCH_LOOKAHEAD
    · obtain ⟨hpos, hnow⟩ := hafter
      have hcore := hinv.core.unsubscribe .phase0
      rw [onEpoch_after hA n.network hpos hnow]
      dsimp only
      rw [Network.attnetsService_unsubscribe]
      unfold Running.epoch FORK_EPOCH_LOOKAHEAD at hnow
      refine ⟨⟨hcore.subscribed, hcore.types⟩, fun hearly => ?_, fun hfirst => ?_, fun htransition => ?_,
        fun _ => ⟨fun hmem => ?_, fun topic htopic hlt => altair_of_ne fun hphase0 => ?_⟩⟩
      · unfold Running.epoch FORK_EPOCH_LOOKAHEAD at hearly
        dsimp only at hearly
        omega
      · unfold Running.epoch FORK_EPOCH_LOOKAHEAD at hfirst
        dsimp only at hfirst
        omega
      · unfold Running.InTransition Running.epoch FORK_EPOCH_LOOKAHEAD at htransition
        dsimp only at htransition
        omega
      · exact (Network.mem_subscribedForks_unsubscribe.1 hmem).2 rfl
      · have hleft : topic ∈ (unsubscribeSubnetsFromPrevFork .phase0 n.network.attnetsService).gossip := htopic
        rw [mem_unsubscribeSubnetsFromPrevFork] at hleft
        exact hleft.2 ⟨hphase0, hlt⟩
    · rw [onEpoch_other hA n.network hbefore hafter]
      obtain ⟨core, early, before, transition, left⟩ := hinv
      refine ⟨core, early, fun h => absurd h hbefore, fun htransition => transition ?_, fun hleft => left ?_⟩
      · obtain ⟨hpos, hlast, hfirst | ⟨hfirst, -⟩⟩ := htransition
        · exact ⟨hpos, hlast, .inl hfirst⟩
        · exact absurd hfirst.symm hbefore
      · rcases hleft with h | h | ⟨hpos, hnow, -⟩
        · exact .inl h
        · exact .inr (.inl h)
        · exact absurd ⟨hpos, hnow⟩ hafter

omit hA in
theorem ForksInv.withCore (hinv : ForksInv P cfg A n) {network : Network} (hcore : network.CoreInv)
    (hservice : network.attnetsService = n.network.attnetsService)
    (hearly : n.epoch P + FORK_EPOCH_LOOKAHEAD < A → .altair ∈ network.subscribedForks → .altair ∈ n.network.subscribedForks)
    (hleft : n.HasLeft P A → .phase0 ∈ network.subscribedForks → .phase0 ∈ n.network.subscribedForks) :
    ForksInv P cfg A { n with network } := by
  obtain ⟨-, early, before, transition, left⟩ := hinv
  rw [← hservice] at early before transition left
  exact ⟨hcore, fun h => ⟨fun hmem => (early h).1 (hearly h hmem), (early h).2⟩, before, transition,
    fun h => ⟨fun hmem => (left h).1 (hleft h hmem), (left h).2⟩⟩

theorem subscribeGossipCoreTopics_inv (hinv : ForksInv P cfg A n) {headSlot : Nat}
    (hhead : computeEpochAtSlot P headSlot = n.epoch P) (hjust : ¬ n.JustLeft P A) :
    ForksInv P cfg A { n with network := n.network.subscribeGossipCoreTopics P cfg headSlot } := by
  refine hinv.withCore (hinv.core.subscribeAll _) (Network.attnetsService_subscribeAll _) (fun hearly hmem => ?_) fun hleft hmem => ?_
  · refine (Network.mem_subscribedForks_subscribeAll.1 hmem).resolve_right fun hnew => ?_
    rw [hhead, getActiveForks_early hA (n.epoch P) hearly] at hnew
    cases List.mem_singleton.1 hnew
  · refine (Network.mem_subscribedForks_subscribeAll.1 hmem).resolve_right fun hnew => ?_
    rw [hhead, getActiveForks_late hA (n.epoch P) (hleft.imp_right fun h => h.resolve_right hjust)] at hnew
    cases List.mem_singleton.1 hnew

theorem move_inv {label : Move} (hmove : move P cfg label n = some n') (hkeeps : KeepsForks P cfg A n label)
    (hinv : ForksInv P cfg A n) : ForksInv P cfg A n' := by
  cases label with
  | tick =>
    unfold move at hmove
    dsimp only at hmove
    by_cases hsame : computeEpochAtSlot P (n.clock + 1) = n.epoch P
    · rw [if_pos hsame] at hmove
      cases hmove
      exact tick_same hinv hsame
    · rw [if_neg hsame] at hmove
      by_cases hran : n.onEpochRan = true
      · rw [if_pos hran] at hmove
        cases hmove
        exact tick_next hA hinv hran ((computeEpochAtSlot_succ n.clock).resolve_left hsame).1
      · rw [if_neg hran] at hmove
        cases hmove
  | event call =>
    obtain ⟨-, rfl⟩ : _ ∧ _ := by simpa [move] using hmove
    exact ⟨hinv.core, hinv.early, hinv.before, hinv.transition, hinv.left⟩
  | call draws =>
    dsimp only [move] at hmove
    split at hmove
    · cases hmove
    · rename_i call rest hpending
      cases hmove
      obtain ⟨hready, hheld⟩ := hkeeps call (by rw [hpending]; rfl)
      exact call_inv hA hinv hready hheld
  | networkOnEpoch =>
    obtain ⟨hran, rfl⟩ : _ ∧ _ := by simpa [move] using hmove
    exact networkOnEpoch_inv hA hinv hran hkeeps
  | subscribeGossipCoreTopics headSlot =>
    obtain ⟨hhead, rfl⟩ : _ ∧ _ := by simpa [move] using hmove
    exact subscribeGossipCoreTopics_inv hA hinv hhead hkeeps
  | unsubscribeGossipCoreTopics =>
    cases hmove
    exact hinv.withCore (hinv.core.unsubscribeAll _) (Network.attnetsService_unsubscribeAll _)
      (fun _ => Network.mem_subscribedForks_unsubscribeAll) fun _ => Network.mem_subscribedForks_unsubscribeAll

theorem ForksInv.kept (hinv : ForksInv P cfg A n) (hran : n.onEpochRan = true) (hlast : n.clock = lastSlot P (n.epoch P)) :
    ForkKept P cfg n := by
  have hcore : ∀ topic ∈ n.network.coreTopics, topic.fork ∈ n.network.subscribedForks := hinv.core.subscribed
  have hfork : getForkName P cfg n.clock = if A ≤ n.epoch P then .altair else .phase0 := getForkName_eq hA n.clock
  by_cases hearly : n.epoch P + FORK_EPOCH_LOOKAHEAD < A
  · -- only phase0 yet
    obtain ⟨hnone, htopics⟩ := hinv.early hearly
    have hforks := getActiveForks_early hA (n.epoch P) hearly
    refine ⟨fun subnet _ _ hsubscribed => ?_, fun topic htopic _ => ?_, fun topic htopic => ?_⟩
    · obtain ⟨fork, hmem⟩ := hsubscribed
      rw [hfork, if_neg (by omega)]
      exact htopics _ hmem ▸ hmem
    · rw [hforks, htopics topic htopic]
      exact List.mem_singleton.2 rfl
    · rw [hforks, List.mem_singleton]
      exact phase0_of_ne fun h => hnone (h ▸ hcore topic htopic)
  · by_cases hin : n.InTransition P A
    · have hactive := mem_getActiveForks hA (n.epoch P) hin.1 (Nat.le_of_not_lt hearly) (Nat.le_of_lt hin.2.1)
      refine ⟨fun subnet _ hsubnet hsubscribed => ?_, fun topic _ _ => hactive _, fun topic _ => hactive _⟩
      rw [hlast] at hsubnet ⊢
      exact (hinv.transition hin subnet hsubscribed).1 hsubnet
    · -- phase0 was left
      have hleft : n.HasLeft P A := by
        unfold Running.InTransition at hin
        unfold Running.HasLeft Running.JustLeft
        unfold FORK_EPOCH_LOOKAHEAD at *
        by_cases hpos : 0 < A
        · by_cases hnow : n.epoch P = A + 2
          · exact .inr (.inr ⟨hpos, hnow, hran⟩)
          · refine .inr (.inl ?_)
            by_contra hnot
            by_cases hfirst : A = n.epoch P + 2
            · exact hin ⟨hpos, by omega, .inr ⟨hfirst, hran⟩⟩
            · exact hin ⟨hpos, by omega, .inl (by omega)⟩
        · exact .inl (by omega)
      obtain ⟨hnone, htopics⟩ := hinv.left hleft
      have haltair : .altair ∈ getActiveForks cfg (n.epoch P) := by
        rw [getActiveForks_eq hA, if_neg hearly]
        split <;> simp
      refine ⟨fun subnet hlt _ hsubscribed => ?_, fun topic htopic hlt => ?_, fun topic htopic => ?_⟩
      · obtain ⟨fork, hmem⟩ := hsubscribed
        have hle : A ≤ n.epoch P := by
          unfold Running.HasLeft Running.JustLeft FORK_EPOCH_LOOKAHEAD at hleft
          omega
        rw [hfork, if_pos hle]
        exact htopics _ hmem hlt ▸ hmem
      · rw [htopics topic htopic hlt]
        exact haltair
      · rw [altair_of_ne fun h => hnone (h ▸ hcore topic htopic)]
        exact haltair

end Steps

/-! ## Runs -/

/-- **At the end of every epoch** of a run whose steps all keep to the forks, every active subnet that is subscribed at all is
subscribed under the fork of the epoch, and only active forks have topics: whenever altair comes, wherever the run starts, and
however the calls interleave. -/
theorem forkKept_run {clock : Nat} {metadata : Metadata} {ran : Bool} {steps : List (Running × Move)} {n : Running}
    (hrun : Run (move P cfg) (.start clock metadata ran) steps n) (hkeeps : ∀ step ∈ steps, KeepsForks P cfg A step.1 step.2) :
    ∀ step ∈ steps, step.2 = .tick → step.1.EndsEpoch P → ForkKept P cfg step.1 := by
  rintro ⟨m, label⟩ hstep rfl hends
  have hinv : ForksInv P cfg A m := by
    refine hrun.always (start_inv clock metadata ran) (fun m label m' hmove hkeep hinv => move_inv hA hmove hkeep hinv) hkeeps m ?_
    exact List.mem_append_left _ (List.mem_map_of_mem hstep)
  obtain ⟨m', hmove⟩ := hrun.taken _ hstep
  have hran : m.onEpochRan = true := by
    by_contra hran
    unfold move at hmove
    dsimp only at hmove
    rw [if_neg hends, if_neg hran] at hmove
    cases hmove
  exact hinv.kept hA hran ((computeEpochAtSlot_succ m.clock).resolve_left hends).2

omit hA

instance (n : Running) : Decidable (n.EndsEpoch P) := inferInstanceAs (Decidable (_ ≠ _))

instance (gossip : List AttestationTopic) (subnet : Nat) : Decidable (Subscribed gossip subnet) :=
  decidable_of_iff (⟨.phase0, subnet⟩ ∈ gossip ∨ ⟨.altair, subnet⟩ ∈ gossip)
    ⟨fun h => h.elim (fun h => ⟨_, h⟩) fun h => ⟨_, h⟩, fun ⟨fork, h⟩ => match fork, h with
      | .phase0, h => .inl h
      | .altair, h => .inr h⟩

instance (epoch : Nat) (gossip : List AttestationTopic) (subnet : Nat) (needed : Nat → Prop) [DecidablePred needed] :
    Decidable (Ready P cfg A epoch gossip subnet needed) := inferInstanceAs (Decidable ((_ → _) ∧ (_ → _)))

instance (n : Running) (requests : List RequestedSubnet) : Decidable (RegistersReady P cfg A n requests) :=
  inferInstanceAs (Decidable (∀ r ∈ requests, _ → _ → Ready P cfg A _ _ _ (· ≤ r.toSlot)))

instance (s : AttnetsService) (subnet slot : Nat) : Decidable (s.Active subnet slot) := inferInstanceAs (Decidable (_ ∨ _))

instance (n : Running) : Decidable (MovesAll P A n) :=
  inferInstanceAs (Decidable ((∀ topic ∈ n.network.attnetsService.gossip, _ → _ → _) ∧ ∀ subnet ∈ _, _ → ¬ _))

instance (n : Running) : (label : Move) → Decidable (KeepsForks P cfg A n label)
  | .call _ => inferInstanceAs (Decidable (∀ call ∈ n.pending.head?, (_ → RegistersReady P cfg A n _) ∧ (_ → ∀ r ∈ _, _)))
  | .networkOnEpoch => inferInstanceAs (Decidable (_ → MovesAll P A n))
  | .subscribeGossipCoreTopics _ => inferInstanceAs (Decidable (¬ _))
  | .tick => inferInstanceAs (Decidable True)
  | .event _ => inferInstanceAs (Decidable True)
  | .unsubscribeGossipCoreTopics => inferInstanceAs (Decidable True)

/-- Epochs of a minimal network whose altair comes at epoch 3, from the last slot of epoch 0. -/
def Running.first : Running := .start 7 ⟨0, List.replicate ATTESTATION_SUBNET_COUNT false⟩ false

/-- An aggregator of subnet 5 asks for a slot. -/
def asksFor (slot : Nat) : List Move := [.event (.addCommitteeSubscriptions [⟨7, 5, slot, true⟩]), .call .least]

def oneDuty : List Move :=
  [Move.networkOnEpoch, .subscribeGossipCoreTopics 7] ++ asksFor 14 ++ [Move.call .least] ++
    [Move.tick, .networkOnEpoch] ++ List.replicate 8 Move.tick ++ [Move.networkOnEpoch] ++ List.replicate 8 Move.tick ++
      [Move.networkOnEpoch] ++ List.replicate 8 Move.tick

def dutiesInARow : List Move :=
  [Move.networkOnEpoch] ++ asksFor 14 ++ [Move.call .least] ++ [Move.tick, .networkOnEpoch] ++ List.replicate 5 Move.tick ++
    asksFor 22 ++ List.replicate 3 Move.tick ++ [Move.networkOnEpoch] ++ List.replicate 5 Move.tick ++ asksFor 31 ++
      List.replicate 3 Move.tick ++ [Move.networkOnEpoch] ++ List.replicate 7 Move.tick

theorem forkKept_run_oneDuty : let run := exec (move minimal (minimalConfig 3)) oneDuty Running.first
    run.2.clock = 32 ∧ ∀ step ∈ run.1, step.2 = .tick → step.1.EndsEpoch minimal → ForkKept minimal (minimalConfig 3) step.1 := by
  have hkeeps : ∀ step ∈ (exec (move minimal (minimalConfig 3)) oneDuty Running.first).1,
      KeepsForks minimal (minimalConfig 3) 3 step.1 step.2 := by
    decide +kernel
  exact ⟨by decide +kernel, forkKept_run (A := 3) rfl (exec_run _ oneDuty Running.first) hkeeps⟩

/-- **The duty at slot 31 stays on phase0's topic**, though altair has come: its subnet was taken in epoch 0 for the duty of
epoch 1, and is never subscribed again. -/
theorem forkKept_fails : ¬ ∀ (steps : List (Running × Move)) (n : Running), Run (move minimal (minimalConfig 3)) .first steps n →
    ∀ step ∈ steps, step.2 = .tick → step.1.EndsEpoch minimal → ForkKept minimal (minimalConfig 3) step.1 := by
  intro h
  have hrun := exec_run (move minimal (minimalConfig 3)) dutiesInARow Running.first
  generalize hn : (exec (move minimal (minimalConfig 3)) dutiesInARow Running.first).2 = n at hrun
  obtain ⟨n', htick⟩ : ∃ n', move minimal (minimalConfig 3) .tick n = some n' := by
    rw [← hn, ← Option.isSome_iff_exists]
    decide +kernel
  have hkept := h _ _ (hrun.step htick) (n, .tick) (List.mem_append_right _ (List.mem_singleton.2 rfl)) rfl
    (by rw [← hn]; decide +kernel)
  have hmoved := hkept.moved 5 (by decide) (.inl (by rw [← hn]; decide +kernel)) ⟨.phase0, by rw [← hn]; decide +kernel⟩
  rw [← hn] at hmoved
  revert hmoved
  decide +kernel

end Lodestar.Network
