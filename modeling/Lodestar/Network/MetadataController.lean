import Lodestar.Lib.Runs
import Lodestar.Network.AttnetsService
import Lodestar.OpPools.SyncContributionAndProofPool
/-!
# MetadataController — the subnets that a node publishes, and their sequence number

The bitfields are copies of what the two services are subscribed to.  A peer fetches them again when it hears of a sequence number
above the one that it has.  The number goes up with the attestation subnets alone, and the copies are made anew on some of the ways on
which the subscriptions change: `metadata_published`.
-/
namespace Lodestar.Network

open Lib Runs StateTransition
open OpPools (SYNC_COMMITTEE_SUBNET_COUNT)

variable (P : Preset) (cfg : ChainConfig)

/-! ## The sync committee subnets -/

structure SyncnetsService where
  subscriptionsCommittee : SubnetMap
  /-- The topics of type `sync_committee` that gossip is subscribed to. -/
  gossip : List AttestationTopic

namespace SyncnetsService

open AttnetsService (subscribeTopic unsubscribeTopic)

section

variable (clock : Nat)

def subscribeToSubnets (subnets : List Nat) (s : SyncnetsService) : SyncnetsService :=
  let forks := getActiveForks cfg (computeEpochAtSlot P clock)
  { s with
    gossip := subnets.foldl (fun gossip subnet =>
      if !s.subscriptionsCommittee.has subnet then
        forks.foldl (fun gossip fork => subscribeTopic gossip ⟨fork, subnet⟩) gossip
      else gossip) s.gossip }

def unsubscribeSubnets (subnets : List Nat) (s : SyncnetsService) : SyncnetsService :=
  let forks := getActiveForks cfg (computeEpochAtSlot P clock)
  -- No need to check if active in subscriptionsCommittee since we only have a single SubnetMap
  { s with
    gossip := subnets.foldl (fun gossip subnet =>
      forks.foldl (fun gossip fork => unsubscribeTopic gossip ⟨fork, subnet⟩) gossip) s.gossip }

/-- Without its last line, `updateMetadata`. -/
def addCommitteeSubscriptions (subscriptions : List CommitteeSubscription) (s : SyncnetsService) : SyncnetsService :=
  -- Trigger gossip subscription first, in batch
  let s := subscribeToSubnets P cfg clock (subscriptions.map (·.subnet)) s
  -- Then, register the subscriptions
  { s with
    subscriptionsCommittee := (subscriptions.map fun sub => ⟨sub.subnet, sub.slot⟩).foldl SubnetMap.request s.subscriptionsCommittee }

def onEpoch (epoch : Nat) (s : SyncnetsService) : SyncnetsService :=
  let (expired, subscriptionsCommittee) := s.subscriptionsCommittee.getExpired (computeStartSlotAtEpoch P epoch)
  unsubscribeSubnets P cfg clock expired { s with subscriptionsCommittee }

end

end SyncnetsService

/-! ## The metadata -/

/-- `altair.Metadata`. -/
structure PublishedMetadata where
  seqNumber : Nat
  attnets : List Bool
  syncnets : List Bool
deriving DecidableEq

structure SubnetNode where
  attnetsService : AttnetsService
  syncnetsService : SyncnetsService
  syncnets : List Bool

namespace SubnetNode

def json (n : SubnetNode) : PublishedMetadata where
  seqNumber := n.attnetsService.metadata.seqNumber
  attnets := n.attnetsService.metadata.attnets
  syncnets := n.syncnets

def setSyncnets (syncnets : List Bool) (n : SubnetNode) : SubnetNode := { n with syncnets }

def updateSyncnets (n : SubnetNode) : SubnetNode :=
  let subnets := n.syncnetsService.subscriptionsCommittee.getAll.foldl (fun subnets subnet => subnets.set subnet true)
    (List.replicate SYNC_COMMITTEE_SUBNET_COUNT false)
  if subnets ≠ n.syncnets then n.setSyncnets subnets else n

def new (seqNumber : Nat) : SubnetNode where
  attnetsService := .new ⟨seqNumber, List.replicate ATTESTATION_SUBNET_COUNT false⟩
  syncnetsService := ⟨.empty, []⟩
  syncnets := List.replicate SYNC_COMMITTEE_SUBNET_COUNT false

end SubnetNode

/-- `onPing` of a peer with what it has of the node's metadata: whether it asks for it again. -/
def requestsMetadata (stored : Option PublishedMetadata) (seqNumber : Nat) : Bool :=
  match stored with
  | none => true
  | some metadata => metadata.seqNumber < seqNumber

/-! ## The machine -/

inductive SubnetEvent
  | attnets (call : Call) (turns : List (Nat × Draws))
  | addSyncSubscriptions (subscriptions : List CommitteeSubscription) (clock : Nat)
  | syncEpoch (epoch clock : Nat)

def AttnetsService.finish : List (Nat × Draws) → List Call → AttnetsService → Option AttnetsService
  | _, [], s => some s
  | [], _ :: _, _ => none
  | (clock, draws) :: turns, call :: rest, s =>
    let (s, calls) := s.call P cfg clock draws call
    finish turns (calls ++ rest) s

def Call.isEvent : Call → Bool
  | .addCommitteeSubscriptions _ | .onSlot _ | .onEpoch _ => true
  | _ => false

def SubnetNode.next : SubnetEvent → SubnetNode → Option SubnetNode
  | .attnets call turns, n =>
    if call.isEvent then
      (n.attnetsService.finish P cfg turns [call]).map fun attnetsService => { n with attnetsService }
    else none
  | .addSyncSubscriptions subscriptions clock, n =>
    some { n with syncnetsService := n.syncnetsService.addCommitteeSubscriptions P cfg clock subscriptions }.updateSyncnets
  | .syncEpoch epoch clock, n => some { n with syncnetsService := n.syncnetsService.onEpoch P cfg clock epoch }

/-! ## What is to be published -/

def SubnetMap.bits (count : Nat) (m : SubnetMap) : List Bool := (List.range count).map m.has

def AttnetsService.Published (s : AttnetsService) : Prop :=
  s.metadata.attnets = s.subscriptionsRandom.bits ATTESTATION_SUBNET_COUNT

/-- The bitfields are those of the subscriptions. -/
structure SubnetNode.Published (n : SubnetNode) : Prop where
  attnets : n.attnetsService.Published
  syncnets : n.syncnets = n.syncnetsService.subscriptionsCommittee.bits SYNC_COMMITTEE_SUBNET_COUNT

/-- No random subnet has expired, or those left are not as many as are wanted, before or after known validators expire. -/
def AttnetsService.RebalancesExpired (s : AttnetsService) (slot : Nat) : Prop :=
  let (expired, subscriptionsRandom) := s.subscriptionsRandom.getExpired slot
  let left := { s with subscriptionsRandom }
  expired = [] ∨ left.subnetDiff ≠ (0 : Int) ∨ (left.pruneExpiredKnownValidators slot).1.subnetDiff ≠ (0 : Int)

/-- **The events after which the metadata is right**: none brings a sync committee subnet or lets one expire, and an epoch in which
random subnets expire rebalances them. -/
def SubnetNode.Tolerates (n : SubnetNode) : SubnetEvent → Prop
  | .attnets (.onEpoch epoch) _ => n.attnetsService.RebalancesExpired (computeStartSlotAtEpoch P epoch)
  | .attnets _ _ => True
  | .addSyncSubscriptions subscriptions _ =>
    ∀ sub ∈ subscriptions, n.syncnetsService.subscriptionsCommittee.has sub.subnet = true
  | .syncEpoch epoch _ => (n.syncnetsService.subscriptionsCommittee.getExpired (computeStartSlotAtEpoch P epoch)).1 = []

variable {P cfg}

/-! ## Bits -/

theorem foldl_set_true (subnets : List Nat) (bits : List Bool) (i : Nat) :
    (subnets.foldl (fun bits subnet => bits.set subnet true) bits)[i]? = bits[i]?.map (· || decide (i ∈ subnets)) := by
  induction subnets generalizing bits with
  | nil => simp
  | cons subnet subnets ih =>
    rw [List.foldl_cons, ih, List.getElem?_set]
    by_cases heq : subnet = i
    · subst heq
      by_cases hlt : subnet < bits.length <;> simp [hlt]
    · simp [heq, Ne.symm heq]

theorem SubnetMap.foldl_getAll (count : Nat) (m : SubnetMap) :
    m.getAll.foldl (fun subnets subnet => subnets.set subnet true) (List.replicate count false) = m.bits count := by
  apply List.ext_getElem?
  intro i
  rw [foldl_set_true]
  by_cases hlt : i < count
  · have hmem : decide (i ∈ m.getAll) = m.has i := by
      rw [Bool.eq_iff_iff, decide_eq_true_iff]
      exact OrderedMap.has_iff.symm
    simp [SubnetMap.bits, hlt, hmem]
  · simp [SubnetMap.bits, hlt]

namespace SubnetMap

variable {m : SubnetMap}

theorem getExpired_none {slot : Nat} (h : (m.getExpired slot).1 = []) : (m.getExpired slot).2 = m := by
  show (m.getExpired slot).1.foldl delete m = m
  rw [h]
  rfl

theorem has_request {r : RequestedSubnet} (h : m.has r.subnet = true) (subnet : Nat) : (m.request r).has subnet = m.has subnet := by
  rw [Bool.eq_iff_iff, has_iff, has_iff, getToSlot_request]
  by_cases heq : subnet = r.subnet
  · subst heq
    simpa using has_iff.1 h
  · rw [if_neg heq]

theorem bits_requests (count : Nat) {requests : List RequestedSubnet} (h : ∀ r ∈ requests, m.has r.subnet = true) :
    (requests.foldl request m).bits count = m.bits count := by
  induction requests generalizing m with
  | nil => rfl
  | cons r requests ih =>
    rw [List.forall_mem_cons] at h
    have hsame := has_request h.1
    rw [List.foldl_cons, ih fun r' hr' => (hsame r'.subnet).trans (h.2 r' hr')]
    exact List.map_congr_left fun subnet _ => hsame subnet

end SubnetMap

/-! ## The attestation subnets -/

namespace AttnetsService

variable {s s' : AttnetsService} {clock : Nat} {draws : Draws} {turns : List (Nat × Draws)}

/-- The sequence number does not go down, and goes up where the bits change. -/
def Numbered (s s' : AttnetsService) : Prop :=
  s.metadata.seqNumber ≤ s'.metadata.seqNumber ∧
    (s'.metadata.seqNumber = s.metadata.seqNumber → s'.metadata.attnets = s.metadata.attnets)

theorem Numbered.of_eq (h : s'.metadata = s.metadata) : s.Numbered s' := by
  unfold Numbered
  rw [h]
  exact ⟨Nat.le_refl _, fun _ => rfl⟩

theorem Numbered.trans {t : AttnetsService} (h : s.Numbered t) (h' : t.Numbered s') : s.Numbered s' := by
  refine ⟨h.1.trans h'.1, fun heq => ?_⟩
  have hle := h.1
  have hle' := h'.1
  exact (h'.2 (by omega)).trans (h.2 (by omega))

theorem updateMetadata_published (s : AttnetsService) : (updateMetadata s).Published := by
  unfold updateMetadata Published
  rw [SubnetMap.foldl_getAll]
  by_cases hsame : s.subscriptionsRandom.bits ATTESTATION_SUBNET_COUNT = s.metadata.attnets <;> simp [hsame]

theorem updateMetadata_numbered (h : s.metadata = s'.metadata) : s.Numbered (updateMetadata s') := by
  unfold updateMetadata Numbered
  rw [h]
  dsimp only
  split
  · refine ⟨Nat.le_succ _, fun heq => ?_⟩
    dsimp only at heq
    omega
  · exact ⟨Nat.le_refl _, fun _ => rfl⟩

theorem addKnownValidators_frame (clock : Nat) (subscriptions : List CommitteeSubscription) (state : AttnetsService × Bool) :
    (subscriptions.foldl (addKnownValidator clock) state).1.subscriptionsRandom = state.1.subscriptionsRandom ∧
      (subscriptions.foldl (addKnownValidator clock) state).1.metadata = state.1.metadata := by
  induction subscriptions generalizing state with
  | nil => exact ⟨rfl, rfl⟩
  | cons subscription subscriptions ih => exact ih _

theorem rebalanceRandomSubnets_published (h : s.Published ∨ s.subnetDiff ≠ 0) :
    (rebalanceRandomSubnets P cfg clock draws s).Published := by
  unfold rebalanceRandomSubnets
  split
  · exact updateMetadata_published _
  · split
    · exact updateMetadata_published _
    · exact h.resolve_right fun hdiff => hdiff (by omega)

theorem call_numbered (call : Call) (s : AttnetsService) : s.Numbered (s.call P cfg clock draws call).1 := by
  cases call with
  | addCommitteeSubscriptions subscriptions =>
    exact .of_eq (addKnownValidators_frame clock subscriptions (s, false)).2
  | rebalanceRandomSubnets =>
    show s.Numbered (rebalanceRandomSubnets P cfg clock draws s)
    unfold rebalanceRandomSubnets
    split
    · exact updateMetadata_numbered rfl
    · split
      · exact updateMetadata_numbered rfl
      · exact .of_eq rfl
  | _ => exact .of_eq rfl

variable {rest calls : List Call}

theorem finish_cons {call : Call} (h : s.finish P cfg turns (call :: rest) = some s') :
    ∃ clock draws turns', (s.call P cfg clock draws call).1.finish P cfg turns' ((s.call P cfg clock draws call).2 ++ rest) =
      some s' := by
  cases turns with
  | nil => cases h
  | cons turn turns => exact ⟨turn.1, turn.2, turns, h⟩

theorem finish_numbered (h : s.finish P cfg turns calls = some s') : s.Numbered s' := by
  induction turns generalizing s calls with
  | nil =>
    cases calls with
    | nil => exact .of_eq (by cases h; rfl)
    | cons call rest => cases h
  | cons turn turns ih =>
    cases calls with
    | nil => exact .of_eq (by cases h; rfl)
    | cons call rest => exact (call_numbered call s).trans (ih h)

def keepsRandom : Call → Bool
  | .onEpoch _ | .unsubscribeExpiredRandomSubnets _ => false
  | _ => true

theorem call_published {call : Call} (hkeeps : keepsRandom call = true) (h : s.Published) :
    (s.call P cfg clock draws call).1.Published ∧ ∀ later ∈ (s.call P cfg clock draws call).2, keepsRandom later = true := by
  cases call with
  | addCommitteeSubscriptions subscriptions =>
    obtain ⟨hrandom, hmetadata⟩ := addKnownValidators_frame clock subscriptions (s, false)
    refine ⟨?_, fun later hlater => ?_⟩
    · show (subscriptions.foldl (addKnownValidator clock) (s, false)).1.Published
      unfold Published
      rw [hrandom, hmetadata]
      exact h
    · obtain rfl : later = .rebalanceRandomSubnets := by
        simp only [AttnetsService.call, addCommitteeSubscriptions] at hlater
        split at hlater
        · exact List.mem_singleton.1 hlater
        · cases hlater
      rfl
  | onSlot slot => exact ⟨h, fun later hlater => by rw [List.mem_singleton.1 hlater]; rfl⟩
  | onEpoch epoch => cases hkeeps
  | unsubscribeExpiredCommitteeSubnets slot => exact ⟨h, fun later hlater => absurd hlater List.not_mem_nil⟩
  | unsubscribeExpiredRandomSubnets slot => cases hkeeps
  | pruneExpiredKnownValidators slot =>
    refine ⟨h, fun later hlater => ?_⟩
    simp only [AttnetsService.call, pruneExpiredKnownValidators] at hlater
    split at hlater
    · cases hlater
    · rw [List.mem_singleton.1 hlater]
      rfl
  | rebalanceRandomSubnets =>
    exact ⟨rebalanceRandomSubnets_published (.inl h), fun later hlater => absurd hlater List.not_mem_nil⟩

theorem finish_published (h : s.finish P cfg turns calls = some s') (hkeeps : ∀ call ∈ calls, keepsRandom call = true)
    (hs : s.Published) : s'.Published := by
  induction turns generalizing s calls with
  | nil =>
    cases calls with
    | nil => cases h; exact hs
    | cons call rest => cases h
  | cons turn turns ih =>
    cases calls with
    | nil => cases h; exact hs
    | cons call rest =>
      rw [List.forall_mem_cons] at hkeeps
      obtain ⟨hnext, hcalls⟩ := call_published hkeeps.1 hs
      exact ih h (List.forall_mem_append.2 ⟨hcalls, hkeeps.2⟩) hnext

theorem mem_pruneExpiredKnownValidators (slot : Nat) (s : AttnetsService) :
    (pruneExpiredKnownValidators slot s).2 = [.rebalanceRandomSubnets] ∨
      (pruneExpiredKnownValidators slot s).1 = s := by
  unfold pruneExpiredKnownValidators
  cases s.knownValidators.entries.filter fun entry => entry.2 + LAST_SEEN_VALIDATOR_TIMEOUT < slot with
  | nil => exact .inr rfl
  | cons entry expired => exact .inl rfl

theorem rebalance_prune_published {slot : Nat}
    (h : s.finish P cfg turns [.rebalanceRandomSubnets, .pruneExpiredKnownValidators slot] = some s')
    (hs : s.Published ∨ s.subnetDiff ≠ 0 ∨ (s.pruneExpiredKnownValidators slot).1.subnetDiff ≠ 0) : s'.Published := by
  obtain ⟨clock, draws, turns, h⟩ := finish_cons h
  have hprune : ∀ call ∈ [Call.pruneExpiredKnownValidators slot], keepsRandom call = true :=
    List.forall_mem_singleton.2 rfl
  by_cases hdiff : s.Published ∨ s.subnetDiff ≠ 0
  · exact finish_published h hprune (rebalanceRandomSubnets_published hdiff)
  · -- nothing is rebalanced before the known validators expire
    have hsame : rebalanceRandomSubnets P cfg clock draws s = s := by
      unfold rebalanceRandomSubnets
      rw [if_neg (by omega), if_neg (by omega)]
    have h : (rebalanceRandomSubnets P cfg clock draws s).finish P cfg turns [.pruneExpiredKnownValidators slot] = some s' := h
    rw [hsame] at h
    obtain ⟨clock, draws, turns, h⟩ := finish_cons h
    have h : (s.pruneExpiredKnownValidators slot).1.finish P cfg turns ((s.pruneExpiredKnownValidators slot).2 ++ []) = some s' := h
    rcases mem_pruneExpiredKnownValidators slot s with hcalls | hkept
    · rw [hcalls] at h
      obtain ⟨clock, draws, turns, h⟩ := finish_cons h
      refine finish_published h (fun call hcall => absurd hcall List.not_mem_nil) (rebalanceRandomSubnets_published (.inr ?_))
      tauto
    · rw [hkept] at hs
      tauto

theorem onEpoch_published {epoch : Nat} (h : s.finish P cfg turns [.onEpoch epoch] = some s') (hs : s.Published)
    (hexpired : s.RebalancesExpired (computeStartSlotAtEpoch P epoch)) : s'.Published := by
  obtain ⟨clock, draws, turns, h⟩ := finish_cons h
  obtain ⟨clock, draws, turns, h⟩ := finish_cons h
  refine rebalance_prune_published h (hexpired.imp_left fun hnone => ?_)
  show s.metadata.attnets = SubnetMap.bits _ (s.subscriptionsRandom.getExpired (computeStartSlotAtEpoch P epoch)).2
  rw [SubnetMap.getExpired_none hnone]
  exact hs

end AttnetsService

/-! ## Every event -/

namespace SubnetNode

variable {n n' : SubnetNode} {event : SubnetEvent}

theorem next_numbered (h : n.next P cfg event = some n') (htolerates : n.Tolerates P event) (hn : n.Published) :
    n'.Published ∧ n.attnetsService.Numbered n'.attnetsService ∧ n'.syncnets = n.syncnets := by
  cases event with
  | attnets call turns =>
    simp only [next] at h
    split at h
    · rename_i hevent
      obtain ⟨attnetsService, hfinish, rfl⟩ := Option.map_eq_some_iff.1 h
      refine ⟨⟨?_, hn.syncnets⟩, AttnetsService.finish_numbered hfinish, rfl⟩
      cases call with
      | onEpoch epoch => exact AttnetsService.onEpoch_published hfinish hn.attnets htolerates
      | addCommitteeSubscriptions subscriptions =>
        exact AttnetsService.finish_published hfinish (List.forall_mem_singleton.2 rfl) hn.attnets
      | onSlot slot => exact AttnetsService.finish_published hfinish (List.forall_mem_singleton.2 rfl) hn.attnets
      | _ => cases hevent
    · cases h
  | addSyncSubscriptions subscriptions clock =>
    have hbits : (n.syncnetsService.addCommitteeSubscriptions P cfg clock subscriptions).subscriptionsCommittee.bits
        SYNC_COMMITTEE_SUBNET_COUNT = n.syncnets := by
      rw [hn.syncnets]
      exact SubnetMap.bits_requests _ (List.forall_mem_map.2 htolerates)
    have hsame : n' = { n with syncnetsService := n.syncnetsService.addCommitteeSubscriptions P cfg clock subscriptions } := by
      cases h
      unfold updateSyncnets
      rw [SubnetMap.foldl_getAll, hbits]
      exact if_neg fun hne => hne rfl
    rw [hsame]
    exact ⟨⟨hn.attnets, hbits.symm⟩, .of_eq rfl, rfl⟩
  | syncEpoch epoch clock =>
    cases h
    refine ⟨⟨hn.attnets, hn.syncnets.trans ?_⟩, .of_eq rfl, rfl⟩
    show _ = (n.syncnetsService.subscriptionsCommittee.getExpired (computeStartSlotAtEpoch P epoch)).2.bits _
    rw [SubnetMap.getExpired_none htolerates]

/-- **Along a run of such events the bitfields are those of the subscriptions**, two of one sequence number are the same, and a peer that
is not told to ask again has them as they are. -/
theorem metadata_published {start : SubnetNode} {steps : List (SubnetNode × SubnetEvent)} (hstart : start.Published)
    (hrun : Run (next P cfg) start steps n) (htolerates : ∀ step ∈ steps, step.1.Tolerates P step.2) :
    n.Published ∧ ∀ earlier ∈ visited steps n,
      (earlier.json.attnets ≠ n.json.attnets ∨ earlier.json.syncnets ≠ n.json.syncnets →
        earlier.json.seqNumber < n.json.seqNumber) ∧
      (requestsMetadata (some earlier.json) n.json.seqNumber = false → earlier.json = n.json) := by
  have hall : n.Published ∧ ∀ earlier ∈ visited steps n,
      earlier.attnetsService.Numbered n.attnetsService ∧ n.syncnets = earlier.syncnets := by
    induction hrun with
    | refl => exact ⟨hstart, List.forall_mem_singleton.2 ⟨.of_eq rfl, rfl⟩⟩
    | step _ hnext ih =>
      rw [List.forall_mem_append, List.forall_mem_singleton] at htolerates
      obtain ⟨hn, hvisited⟩ := ih htolerates.1
      obtain ⟨hn', hnumbered, hsyncnets⟩ := next_numbered hnext htolerates.2 hn
      refine ⟨hn', forall_visited_append.2 ⟨fun earlier hearlier => ?_, .of_eq rfl, rfl⟩⟩
      obtain ⟨hbefore, hsame⟩ := hvisited earlier hearlier
      exact ⟨hbefore.trans hnumbered, hsyncnets.trans hsame⟩
  refine ⟨hall.1, fun earlier hearlier => ?_⟩
  obtain ⟨⟨hle, hbits⟩, hsyncnets⟩ := hall.2 earlier hearlier
  constructor
  · rintro (hattnets | hsync)
    · exact Nat.lt_of_le_of_ne hle fun heq => hattnets (hbits heq.symm).symm
    · exact absurd hsyncnets.symm hsync
  · intro hkept
    have hseq : n.json.seqNumber = earlier.json.seqNumber := by
      have hnot := of_decide_eq_false hkept
      exact Nat.le_antisymm (Nat.not_lt.1 hnot) hle
    unfold json at hseq ⊢
    rw [PublishedMetadata.mk.injEq]
    exact ⟨hseq.symm, (hbits hseq).symm, hsyncnets.symm⟩

theorem new_published (seqNumber : Nat) : (new seqNumber).Published := ⟨rfl, rfl⟩

def oneSubscription : List CommitteeSubscription := [{ validatorIndex := 0, subnet := 1, slot := 8, isAggregator := true }]

/-- The validator is new, and a random subnet is published. -/
theorem metadata_published_newValidator :
    let draws : Draws := { swap _ := 0, slotLen _ := ⟨0, by decide⟩ }
    ∃ n, (new 0).next minimal (minimalConfig ⊤) (.attnets (.addCommitteeSubscriptions oneSubscription) [(0, draws), (0, draws)]) =
      some n ∧ n.json.seqNumber = 1 ∧ n.Published := by
  intro draws
  have heval : ((new 0).next minimal (minimalConfig ⊤) (.attnets (.addCommitteeSubscriptions oneSubscription)
      [(0, draws), (0, draws)])).map (fun n => n.json.seqNumber) = some 1 := by decide +kernel
  obtain ⟨n, hn, hseq⟩ := Option.map_eq_some_iff.1 heval
  exact ⟨n, hn, hseq, (metadata_published (new_published 0) (Run.refl.step hn) (List.forall_mem_singleton.2 trivial)).1⟩

theorem syncnets_unnumbered : ∃ n n',
    (new 0).next minimal (minimalConfig ⊤) (.addSyncSubscriptions oneSubscription 0) = some n ∧
    n.json.syncnets ≠ (new 0).json.syncnets ∧ n.json.seqNumber = (new 0).json.seqNumber ∧
    requestsMetadata (some (new 0).json) n.json.seqNumber = false ∧
    n.next minimal (minimalConfig ⊤) (.syncEpoch 2 16) = some n' ∧ ¬ n'.Published :=
  ⟨_, _, rfl, by decide, rfl, by decide, rfl, fun h => absurd h.syncnets (by decide)⟩

end SubnetNode

end Lodestar.Network
