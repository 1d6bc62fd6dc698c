import Lodestar.StateTransition.State
/-!
# AttnetsService — the attestation subnets a node is subscribed to in gossip

Committee subscriptions last until a slot, random ones for a while, and the two maps share one gossip subscription for a
subnet.  A method is written as what it does itself and the methods it then calls, which stand at its end in the source.
-/
namespace Lodestar.Network

open Lib StateTransition

/-! ## Subnets and the slot until they are needed -/

structure RequestedSubnet where
  subnet : Nat
  toSlot : Nat

/-- Track requested subnets by `toSlot`. -/
structure SubnetMap where
  subnets : OrderedMap Nat Nat

namespace SubnetMap

def empty : SubnetMap := ⟨.empty⟩

def size (m : SubnetMap) : Nat := m.subnets.size

def has (m : SubnetMap) (subnet : Nat) : Bool := m.subnets.has subnet

section

variable (m : SubnetMap)

def request (requestedSubnet : RequestedSubnet) : SubnetMap :=
  ⟨m.subnets.set requestedSubnet.subnet (max ((m.subnets.get? requestedSubnet.subnet).getD 0) requestedSubnet.toSlot)⟩

def getToSlot (subnet : Nat) : Option Nat := m.subnets.get? subnet

def isActiveAtSlot (subnet slot : Nat) : Bool := (m.subnets.get? subnet).any fun toSlot => slot ≤ toSlot

def getActive (currentSlot : Nat) : List Nat :=
  (m.subnets.entries.filter fun entry => currentSlot ≤ entry.2).map (·.1)

def getAll : List Nat := m.subnets.entries.map (·.1)

def delete (m : SubnetMap) (subnet : Nat) : SubnetMap := ⟨m.subnets.delete subnet⟩

def getExpired (currentSlot : Nat) : List Nat × SubnetMap :=
  let subnetIds := (m.subnets.entries.filter fun entry => entry.2 < currentSlot).map (·.1)
  (subnetIds, subnetIds.foldl delete m)

end

variable {m : SubnetMap} {subnet slot : Nat}

theorem isActiveAtSlot_iff :
    m.isActiveAtSlot subnet slot = true ↔ ∃ toSlot, m.getToSlot subnet = some toSlot ∧ slot ≤ toSlot := by
  simp [isActiveAtSlot, getToSlot, Option.any_eq_true]

theorem has_iff {subnet : Nat} : m.has subnet = true ↔ ∃ toSlot, m.getToSlot subnet = some toSlot := by
  simp [has, OrderedMap.has, getToSlot, Option.isSome_iff_exists]

theorem getToSlot_request (m : SubnetMap) (r : RequestedSubnet) (subnet : Nat) : (m.request r).getToSlot subnet =
    if subnet = r.subnet then some (max ((m.getToSlot r.subnet).getD 0) r.toSlot) else m.getToSlot subnet :=
  OrderedMap.get?_set _ _ _ _

theorem getToSlot_delete (m : SubnetMap) (subnet subnet' : Nat) :
    (m.delete subnet).getToSlot subnet' = if subnet' = subnet then none else m.getToSlot subnet' :=
  OrderedMap.get?_delete _ _ _

theorem getToSlot_deletes (m : SubnetMap) (subnets : List Nat) (subnet : Nat) :
    (subnets.foldl delete m).getToSlot subnet = if subnet ∈ subnets then none else m.getToSlot subnet := by
  induction subnets generalizing m with
  | nil => simp
  | cons first subnets ih =>
    rw [List.foldl_cons, ih, getToSlot_delete]
    by_cases hmem : subnet ∈ subnets
    · simp [hmem]
    · by_cases heq : subnet = first <;> simp [hmem, heq]

theorem mem_entries_iff {subnet toSlot : Nat} :
    (subnet, toSlot) ∈ m.subnets.entries ↔ m.getToSlot subnet = some toSlot := OrderedMap.get?_eq_some_iff.symm

theorem mem_getExpired :
    subnet ∈ (m.getExpired slot).1 ↔ ∃ toSlot, m.getToSlot subnet = some toSlot ∧ toSlot < slot := by
  simp [getExpired, mem_entries_iff]

theorem getToSlot_getExpired (m : SubnetMap) (slot subnet : Nat) :
    (m.getExpired slot).2.getToSlot subnet = (m.getToSlot subnet).filter fun toSlot => slot ≤ toSlot := by
  have hgone := getToSlot_deletes m (m.getExpired slot).1 subnet
  rw [show (m.getExpired slot).2 = (m.getExpired slot).1.foldl delete m from rfl, hgone]
  cases htoSlot : m.getToSlot subnet with
  | none => simp
  | some toSlot =>
    rw [Option.filter_some]
    by_cases hlt : toSlot < slot
    · rw [if_pos (mem_getExpired.2 ⟨toSlot, htoSlot, hlt⟩), if_neg (by simpa using hlt)]
    · rw [if_neg fun hmem => ?_, if_pos (by simpa using hlt)]
      obtain ⟨toSlot', htoSlot', hlt'⟩ := mem_getExpired.1 hmem
      rw [htoSlot] at htoSlot'
      cases htoSlot'
      exact hlt hlt'

end SubnetMap

/-! ## The active forks -/

structure ForkInfo where
  name : ForkName
  epoch : ℕ∞

def forks (cfg : ChainConfig) : List ForkInfo :=
  [⟨.phase0, GENESIS_EPOCH⟩, ⟨.altair, cfg.ALTAIR_FORK_EPOCH⟩]

def FORK_EPOCH_LOOKAHEAD : Nat := 2

def getCurrentAndNextFork (cfg : ChainConfig) (epoch : Nat) : ForkInfo × Option ForkInfo :=
  let nextForkIdx := (forks cfg).zipIdx.foldl (fun idx entry => if entry.1.epoch ≤ (epoch : ℕ∞) then entry.2 + 1 else idx) 0
  (((forks cfg)[nextForkIdx - 1]?).getD ⟨.phase0, GENESIS_EPOCH⟩, ((forks cfg)[nextForkIdx]?).filter fun fork => fork.epoch ≠ ⊤)

def getActiveForks (cfg : ChainConfig) (epoch : Nat) : List ForkName :=
  -- next fork is still next at forkEpoch + FORK_EPOCH_LOOKAHEAD, and before the first epochs there are none
  let (currentFork, nextFork) := getCurrentAndNextFork cfg (epoch - FORK_EPOCH_LOOKAHEAD - 1)
  match nextFork with
  | none => [currentFork.name]
  | some nextFork =>
    if (epoch : ℕ∞) + FORK_EPOCH_LOOKAHEAD < nextFork.epoch then [currentFork.name]
    else if nextFork.epoch + FORK_EPOCH_LOOKAHEAD < (epoch : ℕ∞) then [nextFork.name]
    else [currentFork.name, nextFork.name]

/-! ## Random choices -/

def EPOCHS_PER_RANDOM_SUBNET_SUBSCRIPTION : Nat := 256
def RANDOM_SUBNETS_PER_VALIDATOR : Nat := 1
def ATTESTATION_SUBNET_COUNT : Nat := 64

def LAST_SEEN_VALIDATOR_TIMEOUT : Nat := 150

/-- What `Math.random` gives one call: an index for each swap of the shuffle, and a length for each new random subnet. -/
structure Draws where
  swap : (i : Nat) → Fin (i + 1)
  slotLen : Nat → Fin EPOCHS_PER_RANDOM_SUBNET_SUBSCRIPTION

/-- Randomize an array of items without mutation: `random` draws an index for each swap. -/
def shuffle {α : Type} (random : (i : Nat) → Fin (i + 1)) (arr : List α) : List α :=
  ((List.range' 1 (arr.length - 1)).reverse.foldl (fun arr i => arr.swapIfInBounds i (random i)) arr.toArray).toList

variable (P : Preset)

/-- A number of epochs from `EPOCHS_PER_RANDOM_SUBNET_SUBSCRIPTION` up to twice that, in slots. -/
def randomSubscriptionSlotLen (draw : Fin EPOCHS_PER_RANDOM_SUBNET_SUBSCRIPTION) : Nat :=
  (draw + EPOCHS_PER_RANDOM_SUBNET_SUBSCRIPTION) * P.SLOTS_PER_EPOCH

/-! ## The service -/

structure CommitteeSubscription where
  validatorIndex : Nat
  subnet : Nat
  slot : Nat
  isAggregator : Bool

/-- A topic of type `beacon_attestation`, in the one encoding. -/
structure AttestationTopic where
  fork : ForkName
  subnet : Nat
deriving DecidableEq

structure Metadata where
  seqNumber : Nat
  attnets : List Bool

structure AttnetsService where
  committeeSubnets : SubnetMap
  subscriptionsCommittee : SubnetMap
  subscriptionsRandom : SubnetMap
  knownValidators : OrderedMap Nat Nat
  gossip : List AttestationTopic
  metadata : Metadata

inductive Call
  | addCommitteeSubscriptions (subscriptions : List CommitteeSubscription)
  | onSlot (slot : Nat)
  | onEpoch (epoch : Nat)
  | unsubscribeExpiredCommitteeSubnets (slot : Nat)
  | unsubscribeExpiredRandomSubnets (slot : Nat)
  | pruneExpiredKnownValidators (currentSlot : Nat)
  | rebalanceRandomSubnets

namespace AttnetsService

def new (metadata : Metadata) : AttnetsService where
  committeeSubnets := .empty
  subscriptionsCommittee := .empty
  subscriptionsRandom := .empty
  knownValidators := .empty
  gossip := []
  metadata

def subscribeTopic (gossip : List AttestationTopic) (topic : AttestationTopic) : List AttestationTopic := gossip.insert topic
def unsubscribeTopic (gossip : List AttestationTopic) (topic : AttestationTopic) : List AttestationTopic := gossip.filter (· ≠ topic)

section

variable (cfg : ChainConfig) (clock : Nat)

def subscribeToSubnets (subnets : List Nat) (s : AttnetsService) : AttnetsService :=
  let forks := getActiveForks cfg (computeEpochAtSlot P clock)
  { s with
    gossip := subnets.foldl (fun gossip subnet =>
      if !s.subscriptionsCommittee.has subnet && !s.subscriptionsRandom.has subnet then
        forks.foldl (fun gossip fork => subscribeTopic gossip ⟨fork, subnet⟩) gossip
      else gossip) s.gossip }

/-- Trigger a gossip un-subscription only if no-one is still subscribed. -/
def unsubscribeSubnets (subnets : List Nat) (slot : Nat) (s : AttnetsService) : AttnetsService :=
  let forks := getActiveForks cfg (computeEpochAtSlot P clock)
  { s with
    gossip := subnets.foldl (fun gossip subnet =>
      if !s.subscriptionsCommittee.isActiveAtSlot subnet slot && !s.subscriptionsRandom.isActiveAtSlot subnet slot then
        forks.foldl (fun gossip fork => unsubscribeTopic gossip ⟨fork, subnet⟩) gossip
      else gossip) s.gossip }

def updateMetadata (s : AttnetsService) : AttnetsService :=
  let subnets := s.subscriptionsRandom.getAll.foldl (fun subnets subnet => subnets.set subnet true)
    (List.replicate ATTESTATION_SUBNET_COUNT false)
  if subnets ≠ s.metadata.attnets then { s with metadata := ⟨s.metadata.seqNumber + 1, subnets⟩ } else s

def subnetsToSubscribe (subscriptions : List CommitteeSubscription) : List RequestedSubnet :=
  (subscriptions.filter (·.isAggregator)).map fun subscription => ⟨subscription.subnet, subscription.slot⟩

def addKnownValidator (state : AttnetsService × Bool) (subscription : CommitteeSubscription) : AttnetsService × Bool :=
  let (s, addedknownValidators) := state
  ({ s with
      knownValidators := s.knownValidators.set subscription.validatorIndex clock
      committeeSubnets := s.committeeSubnets.request ⟨subscription.subnet, subscription.slot + 1⟩ },
    addedknownValidators || !s.knownValidators.has subscription.validatorIndex)

def addCommitteeSubscriptions (subscriptions : List CommitteeSubscription) (s : AttnetsService) : AttnetsService × List Call :=
  let (s, addedknownValidators) := subscriptions.foldl (addKnownValidator clock) (s, false)
  let requests := subnetsToSubscribe subscriptions
  -- Trigger gossip subscription first, in batch
  let s := subscribeToSubnets P cfg clock (requests.map (·.subnet)) s
  -- Then, register the subscriptions
  let s := { s with subscriptionsCommittee := requests.foldl SubnetMap.request s.subscriptionsCommittee }
  (s, if addedknownValidators then [.rebalanceRandomSubnets] else [])

def subscribeSubnetsToNextFork (nextFork : ForkName) (s : AttnetsService) : AttnetsService :=
  { s with gossip := s.subscriptionsRandom.getAll.foldl (fun gossip subnet => subscribeTopic gossip ⟨nextFork, subnet⟩) s.gossip }

def unsubscribeSubnetsFromPrevFork (prevFork : ForkName) (s : AttnetsService) : AttnetsService :=
  { s with
    gossip := (List.range ATTESTATION_SUBNET_COUNT).foldl (fun gossip subnet => unsubscribeTopic gossip ⟨prevFork, subnet⟩)
      s.gossip }

def unsubscribeExpiredCommitteeSubnets (slot : Nat) (s : AttnetsService) : AttnetsService :=
  let (expired, subscriptionsCommittee) := s.subscriptionsCommittee.getExpired slot
  unsubscribeSubnets P cfg clock expired slot { s with subscriptionsCommittee }

def unsubscribeExpiredRandomSubnets (slot : Nat) (s : AttnetsService) : AttnetsService × List Call :=
  let (expired, subscriptionsRandom) := s.subscriptionsRandom.getExpired slot
  (unsubscribeSubnets P cfg clock expired slot { s with subscriptionsRandom }, [.rebalanceRandomSubnets])

def pruneExpiredKnownValidators (currentSlot : Nat) (s : AttnetsService) : AttnetsService × List Call :=
  let expired := s.knownValidators.entries.filter fun entry => entry.2 + LAST_SEEN_VALIDATOR_TIMEOUT < currentSlot
  ({ s with knownValidators := expired.foldl (fun known entry => known.delete entry.1) s.knownValidators },
    if expired.isEmpty then [] else [.rebalanceRandomSubnets])

def subnetDiff (s : AttnetsService) : Int :=
  -- By limiting to ATTESTATION_SUBNET_COUNT, if target is still over subnetDiff equals 0
  let targetRandomSubnetCount := min (s.knownValidators.size * RANDOM_SUBNETS_PER_VALIDATOR) ATTESTATION_SUBNET_COUNT
  (targetRandomSubnetCount : Int) - s.subscriptionsRandom.size

def subnetsToConnect (draws : Draws) (s : AttnetsService) : List RequestedSubnet :=
  let activeSubnets := s.subscriptionsRandom.getActive clock
  let allSubnets := List.range ATTESTATION_SUBNET_COUNT
  let availableSubnets := allSubnets.filter (· ∉ activeSubnets)
  ((shuffle draws.swap availableSubnets).take s.subnetDiff.toNat).zipIdx.map fun (subnet, i) =>
    ⟨subnet, randomSubscriptionSlotLen P (draws.slotLen i) + clock⟩

def toRemoveSubnets (s : AttnetsService) : List Nat :=
  let activeRandomSubnets := s.subscriptionsRandom.getActive clock
  activeRandomSubnets.drop (activeRandomSubnets.length - s.subnetDiff.natAbs)

/-- Called when we have new validators or expired validators. -/
def rebalanceRandomSubnets (draws : Draws) (s : AttnetsService) : AttnetsService :=
  if 0 < s.subnetDiff then
    let requests := subnetsToConnect P clock draws s
    -- Tell gossip to connect to the subnets if not connected already
    let s := subscribeToSubnets P cfg clock (requests.map (·.subnet)) s
    -- Register these new subnets until some future slot
    updateMetadata { s with subscriptionsRandom := requests.foldl SubnetMap.request s.subscriptionsRandom }
  else if s.subnetDiff < 0 then
    let toRemove := toRemoveSubnets clock s
    let s := { s with subscriptionsRandom := toRemove.foldl SubnetMap.delete s.subscriptionsRandom }
    updateMetadata (unsubscribeSubnets P cfg clock toRemove clock s)
  else s

def call (draws : Draws) : Call → AttnetsService → AttnetsService × List Call
  | .addCommitteeSubscriptions subscriptions, s => addCommitteeSubscriptions P cfg clock subscriptions s
  | .onSlot slot, s => (s, [.unsubscribeExpiredCommitteeSubnets slot])
  | .onEpoch epoch, s =>
    let slot := computeStartSlotAtEpoch P epoch
    (s, [.unsubscribeExpiredRandomSubnets slot, .pruneExpiredKnownValidators slot])
  | .unsubscribeExpiredCommitteeSubnets slot, s => (unsubscribeExpiredCommitteeSubnets P cfg clock slot s, [])
  | .unsubscribeExpiredRandomSubnets slot, s => unsubscribeExpiredRandomSubnets P cfg clock slot s
  | .pruneExpiredKnownValidators slot, s => pruneExpiredKnownValidators slot s
  | .rebalanceRandomSubnets, s => (rebalanceRandomSubnets P cfg clock draws s, [])

end

end AttnetsService

end Lodestar.Network
