import Lodestar.Network.DutySubnets
/-!
# Network — the topics that a node is subscribed to through a fork

`Network.onEpoch` subscribes the core topics and the attestation subnets to the next fork two epochs before it, and takes the
previous fork's away two epochs after it.  The rest goes by `getActiveForks`, which lists both forks all along that time.
-/
namespace Lodestar.Network

open Lib StateTransition

/-! ## The core topics -/

inductive CoreType
  | beacon_block
  | beacon_aggregate_and_proof
  | voluntary_exit
  | proposer_slashing
  | attester_slashing
  | sync_committee_contribution_and_proof
deriving DecidableEq

structure CoreTopic where
  type : CoreType
  fork : ForkName
deriving DecidableEq

def coreTypes (fork : ForkName) : List CoreType :=
  [.beacon_block, .beacon_aggregate_and_proof, .voluntary_exit, .proposer_slashing, .attester_slashing] ++
    if fork = .altair then [.sync_committee_contribution_and_proof] else []

end Lodestar.Network

structure Lodestar.Network where
  attnetsService : Lodestar.Network.AttnetsService
  subscribedForks : List Lodestar.StateTransition.ForkName
  coreTopics : List Lodestar.Network.CoreTopic

namespace Lodestar.Network

open Lib StateTransition

def new (metadata : Metadata) : Network := ⟨.new metadata, [], []⟩

section

variable (n : Network)

def isSubscribedToGossipCoreTopics : Bool := 0 < n.subscribedForks.length

def subscribeCoreTopicsAtFork (fork : ForkName) : Network :=
  if fork ∈ n.subscribedForks then n
  else { n with
    subscribedForks := n.subscribedForks ++ [fork]
    coreTopics := (coreTypes fork).foldl (fun topics type => topics.insert ⟨type, fork⟩) n.coreTopics }

def unsubscribeCoreTopicsAtFork (fork : ForkName) : Network :=
  if fork ∉ n.subscribedForks then n
  else { n with
    subscribedForks := n.subscribedForks.filter (· ≠ fork)
    coreTopics := (coreTypes fork).foldl (fun topics type => topics.filter (· ≠ ⟨type, fork⟩)) n.coreTopics }

def subscribeGossipCoreTopics (P : Preset) (cfg : ChainConfig) (headSlot : Nat) (n : Network) : Network :=
  (getActiveForks cfg (computeEpochAtSlot P headSlot)).foldl subscribeCoreTopicsAtFork n

def unsubscribeGossipCoreTopics : Network := n.subscribedForks.foldl unsubscribeCoreTopicsAtFork n

/-- Handle subscriptions through fork transitions. -/
def onEpoch (cfg : ChainConfig) (epoch : Nat) (n : Network) : Network :=
  -- next fork is still next at forkEpoch + FORK_EPOCH_LOOKAHEAD
  let (currentFork, nextFork) := getCurrentAndNextFork cfg (epoch - FORK_EPOCH_LOOKAHEAD - 1)
  match nextFork with
  | none => n
  | some nextFork =>
    -- Before fork transition
    let n := if (epoch : ℕ∞) + FORK_EPOCH_LOOKAHEAD = nextFork.epoch then
        -- Don't subscribe to new fork if the node is not subscribed to any topic
        let n := if n.isSubscribedToGossipCoreTopics then n.subscribeCoreTopicsAtFork nextFork.name else n
        { n with attnetsService := n.attnetsService.subscribeSubnetsToNextFork nextFork.name }
      else n
    -- After fork transition
    if (epoch : ℕ∞) = nextFork.epoch + FORK_EPOCH_LOOKAHEAD then
      let n := n.unsubscribeCoreTopicsAtFork currentFork.name
      { n with attnetsService := n.attnetsService.unsubscribeSubnetsFromPrevFork currentFork.name }
    else n

/-! ## Core topics and the forks they are of -/

def CoreSubscribed : Prop := ∀ topic ∈ n.coreTopics, topic.fork ∈ n.subscribedForks

end

variable {n : Network}

variable {types : List CoreType} {fork : ForkName} {topics : List CoreTopic} {topic : CoreTopic}

theorem mem_insertTypes :
    topic ∈ types.foldl (fun topics type => topics.insert ⟨type, fork⟩) topics ↔
      topic ∈ topics ∨ topic.fork = fork ∧ topic.type ∈ types := by
  induction types generalizing topics with
  | nil => simp
  | cons first types ih =>
    rw [List.foldl_cons, ih, List.mem_insert_iff, CoreTopic.mk.injEq, List.mem_cons, and_or_left, ← or_assoc]
    simp only [and_comm, or_comm]

theorem mem_removeTypes :
    topic ∈ types.foldl (fun topics type => topics.filter (· ≠ ⟨type, fork⟩)) topics ↔
      topic ∈ topics ∧ ¬ (topic.fork = fork ∧ topic.type ∈ types) := by
  obtain ⟨type, fork'⟩ := topic
  induction types generalizing topics with
  | nil => simp
  | cons first types ih =>
    rw [List.foldl_cons, ih, List.mem_filter, decide_eq_true_eq, ne_eq, CoreTopic.mk.injEq, List.mem_cons, and_or_left, not_or,
      and_assoc, and_comm (a := type = first)]

variable {fork fork' : ForkName}

theorem mem_subscribedForks_subscribe :
    fork' ∈ (n.subscribeCoreTopicsAtFork fork).subscribedForks ↔ fork' ∈ n.subscribedForks ∨ fork' = fork := by
  unfold subscribeCoreTopicsAtFork
  by_cases hmem : fork ∈ n.subscribedForks
  · rw [if_pos hmem]
    refine ⟨.inl, fun h => h.elim id fun heq => heq ▸ hmem⟩
  · rw [if_neg hmem]
    simp

theorem mem_subscribedForks_unsubscribe :
    fork' ∈ (n.unsubscribeCoreTopicsAtFork fork).subscribedForks ↔ fork' ∈ n.subscribedForks ∧ fork' ≠ fork := by
  unfold unsubscribeCoreTopicsAtFork
  by_cases hmem : fork ∈ n.subscribedForks
  · rw [if_neg (not_not.2 hmem)]
    simp
  · rw [if_pos hmem]
    refine ⟨fun h => ⟨h, fun heq => hmem (heq ▸ h)⟩, And.left⟩

def TypesOf (n : Network) : Prop := ∀ topic ∈ n.coreTopics, topic.type ∈ coreTypes topic.fork

/-- What the core topics keep: they are of the subscribed forks, and of the types of their fork. -/
structure CoreInv (n : Network) : Prop where
  subscribed : n.CoreSubscribed
  types : n.TypesOf

theorem CoreInv.subscribe (h : n.CoreInv) (fork : ForkName) : (n.subscribeCoreTopicsAtFork fork).CoreInv := by
  by_cases hmem : fork ∈ n.subscribedForks
  · have hsame : n.subscribeCoreTopicsAtFork fork = n := if_pos hmem
    rw [hsame]
    exact h
  · have hnew : ∀ topic ∈ (n.subscribeCoreTopicsAtFork fork).coreTopics,
        topic ∈ n.coreTopics ∨ topic.fork = fork ∧ topic.type ∈ coreTypes fork := by
      intro topic htopic
      unfold subscribeCoreTopicsAtFork at htopic
      rw [if_neg hmem] at htopic
      exact mem_insertTypes.1 htopic
    refine ⟨fun topic htopic => mem_subscribedForks_subscribe.2 ?_, fun topic htopic => ?_⟩
    · exact (hnew topic htopic).imp (h.subscribed topic) And.left
    · rcases hnew topic htopic with hold | ⟨rfl, htype⟩
      · exact h.types topic hold
      · exact htype

theorem CoreInv.unsubscribe (h : n.CoreInv) (fork : ForkName) : (n.unsubscribeCoreTopicsAtFork fork).CoreInv := by
  by_cases hmem : fork ∈ n.subscribedForks
  · have hleft : ∀ topic ∈ (n.unsubscribeCoreTopicsAtFork fork).coreTopics,
        topic ∈ n.coreTopics ∧ ¬ (topic.fork = fork ∧ topic.type ∈ coreTypes fork) := by
      intro topic htopic
      unfold unsubscribeCoreTopicsAtFork at htopic
      rw [if_neg (not_not.2 hmem)] at htopic
      exact mem_removeTypes.1 htopic
    refine ⟨fun topic htopic => mem_subscribedForks_unsubscribe.2 ?_, fun topic htopic => h.types topic (hleft topic htopic).1⟩
    obtain ⟨hold, hnot⟩ := hleft topic htopic
    refine ⟨h.subscribed topic hold, fun heq => hnot ⟨heq, ?_⟩⟩
    exact heq ▸ h.types topic hold
  · have hsame : n.unsubscribeCoreTopicsAtFork fork = n := if_pos hmem
    rw [hsame]
    exact h

theorem CoreInv.subscribeAll (h : n.CoreInv) (forks : List ForkName) : (forks.foldl subscribeCoreTopicsAtFork n).CoreInv := by
  induction forks generalizing n with
  | nil => exact h
  | cons fork forks ih => exact ih (h.subscribe fork)

theorem CoreInv.unsubscribeAll (h : n.CoreInv) (forks : List ForkName) :
    (forks.foldl unsubscribeCoreTopicsAtFork n).CoreInv := by
  induction forks generalizing n with
  | nil => exact h
  | cons fork forks ih => exact ih (h.unsubscribe fork)

variable {forks : List ForkName}

theorem mem_subscribedForks_subscribeAll :
    fork ∈ (forks.foldl subscribeCoreTopicsAtFork n).subscribedForks ↔ fork ∈ n.subscribedForks ∨ fork ∈ forks := by
  induction forks generalizing n with
  | nil => simp
  | cons first forks ih =>
    rw [List.foldl_cons, ih, mem_subscribedForks_subscribe, List.mem_cons, or_assoc]

theorem mem_subscribedForks_unsubscribeAll (h : fork ∈ (forks.foldl unsubscribeCoreTopicsAtFork n).subscribedForks) :
    fork ∈ n.subscribedForks := by
  induction forks generalizing n with
  | nil => exact h
  | cons first forks ih => exact (mem_subscribedForks_unsubscribe.1 (ih h)).1

/-! ## The service is left alone -/

theorem attnetsService_subscribe (fork : ForkName) : (n.subscribeCoreTopicsAtFork fork).attnetsService = n.attnetsService := by
  unfold subscribeCoreTopicsAtFork
  split <;> rfl

theorem attnetsService_unsubscribe (fork : ForkName) :
    (n.unsubscribeCoreTopicsAtFork fork).attnetsService = n.attnetsService := by
  unfold unsubscribeCoreTopicsAtFork
  split <;> rfl

theorem attnetsService_subscribeAll (forks : List ForkName) :
    (forks.foldl subscribeCoreTopicsAtFork n).attnetsService = n.attnetsService := by
  induction forks generalizing n with
  | nil => rfl
  | cons fork forks ih => exact ih.trans (attnetsService_subscribe fork)

theorem attnetsService_unsubscribeAll (forks : List ForkName) :
    (forks.foldl unsubscribeCoreTopicsAtFork n).attnetsService = n.attnetsService := by
  induction forks generalizing n with
  | nil => rfl
  | cons fork forks ih => exact ih.trans (attnetsService_unsubscribe fork)

end Lodestar.Network
