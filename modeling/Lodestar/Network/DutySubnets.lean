import Lodestar.Lib.Runs
import Lodestar.Network.AttnetsService
/-!
# DutySubnets — no duty subnet is left without its gossip subscription

A node makes the calls of its attnets service one by one, while the clock moves on and events arrive.  Expiry asks whether the
other map is still active on a subnet, and a new subscription asks whether a map still has it.  So a subnet can be left that a
map has an entry of, and be skipped when it is registered again.
-/
namespace Lodestar.Network

open Lib Runs StateTransition

/-! ## The machine -/

structure Node where
  clock : Nat
  service : AttnetsService
  pending : List Call

inductive Label
  | tick (clock : Nat)
  | event (call : Call)
  | call (draws : Draws)

variable (P : Preset) (cfg : ChainConfig) (fork : ForkName)

def Call.arrives (clock : Nat) : Call → Bool
  | .addCommitteeSubscriptions _ => true
  | .onSlot slot => slot ≤ clock
  | .onEpoch epoch => computeStartSlotAtEpoch P epoch ≤ clock
  | _ => false

def next : Label → Node → Option Node
  | .tick clock, n =>
    if n.clock ≤ clock ∧ getActiveForks cfg (computeEpochAtSlot P clock) = [fork] then some { n with clock } else none
  | .event call, n => if call.arrives P n.clock then some { n with pending := call :: n.pending } else none
  | .call draws, n =>
    match n.pending with
    | [] => none
    | call :: rest =>
      let (service, calls) := n.service.call P cfg n.clock draws call
      some { n with service, pending := calls ++ rest }

def Node.start (clock : Nat) (metadata : Metadata) : Node := ⟨clock, .new metadata, []⟩

namespace AttnetsService

/-- One of the two maps has the subnet, active or over. -/
def Held (s : AttnetsService) (subnet : Nat) : Prop :=
  s.subscriptionsCommittee.has subnet = true ∨ s.subscriptionsRandom.has subnet = true

instance (s : AttnetsService) (subnet : Nat) : Decidable (s.Held subnet) := inferInstanceAs (Decidable (_ ∨ _))

def Active (s : AttnetsService) (subnet slot : Nat) : Prop :=
  s.subscriptionsCommittee.isActiveAtSlot subnet slot = true ∨ s.subscriptionsRandom.isActiveAtSlot subnet slot = true

def DutiesSubscribed (s : AttnetsService) (slot : Nat) : Prop :=
  ∀ subnet, s.Active subnet slot → ⟨fork, subnet⟩ ∈ s.gossip

def registrations (clock : Nat) (draws : Draws) : Call → AttnetsService → List RequestedSubnet
  | .addCommitteeSubscriptions subscriptions, _ => subnetsToSubscribe subscriptions
  | .rebalanceRandomSubnets, s => subnetsToConnect P clock draws s
  | _, _ => []

/-- No subnet that is registered for the slot or a later one is still held and was left in gossip. -/
def LeavesNone (s : AttnetsService) (slot : Nat) (requests : List RequestedSubnet) : Prop :=
  ∀ r ∈ requests, slot ≤ r.toSlot → s.Held r.subnet → ⟨fork, r.subnet⟩ ∈ s.gossip

instance (s : AttnetsService) (slot : Nat) (requests : List RequestedSubnet) : Decidable (s.LeavesNone fork slot requests) :=
  inferInstanceAs (Decidable (∀ r ∈ requests, _))

end AttnetsService

open AttnetsService

def RegistersKept (n : Node) : Label → Prop
  | .call draws => ∀ call ∈ n.pending.head?, n.service.LeavesNone fork n.clock (registrations P n.clock draws call n.service)
  | _ => True

instance (n : Node) : (label : Label) → Decidable (RegistersKept P fork n label)
  | .call draws => inferInstanceAs (Decidable (∀ call ∈ n.pending.head?, _))
  | .tick _ => inferInstanceAs (Decidable True)
  | .event _ => inferInstanceAs (Decidable True)

/-! ## Registering and giving up -/

namespace SubnetMap

variable {m : SubnetMap} {subnet slot : Nat}

theorem isActiveAtSlot_request {r : RequestedSubnet} :
    (m.request r).isActiveAtSlot subnet slot = true ↔
      m.isActiveAtSlot subnet slot = true ∨ r.subnet = subnet ∧ slot ≤ r.toSlot := by
  rw [isActiveAtSlot_iff, isActiveAtSlot_iff, getToSlot_request]
  by_cases heq : subnet = r.subnet
  · subst heq
    cases m.getToSlot r.subnet with
    | none => simp
    | some toSlot => simp
  · rw [if_neg heq]
    constructor
    · exact .inl
    · rintro (h | ⟨h, -⟩)
      · exact h
      · exact absurd h.symm heq

theorem isActiveAtSlot_requests {requests : List RequestedSubnet} :
    (requests.foldl request m).isActiveAtSlot subnet slot = true ↔
      m.isActiveAtSlot subnet slot = true ∨ ∃ r ∈ requests, r.subnet = subnet ∧ slot ≤ r.toSlot := by
  induction requests generalizing m with
  | nil => simp
  | cons r requests ih =>
    rw [List.foldl_cons, ih, isActiveAtSlot_request, or_assoc]
    simp only [List.mem_cons, exists_eq_or_imp]

theorem isActiveAtSlot_of_getToSlot {m m' : SubnetMap}
    (h : ∀ toSlot, m'.getToSlot subnet = some toSlot → m.getToSlot subnet = some toSlot)
    (hactive : m'.isActiveAtSlot subnet slot = true) : m.isActiveAtSlot subnet slot = true := by
  rw [isActiveAtSlot_iff] at hactive ⊢
  obtain ⟨toSlot, htoSlot, hle⟩ := hactive
  exact ⟨toSlot, h toSlot htoSlot, hle⟩

theorem isActiveAtSlot_of_getExpired {slot' subnet slot : Nat} (hactive : (m.getExpired slot').2.isActiveAtSlot subnet slot = true) :
    m.isActiveAtSlot subnet slot = true :=
  isActiveAtSlot_of_getToSlot
    (fun _ htoSlot => (Option.filter_eq_some_iff.1 ((getToSlot_getExpired m slot' subnet).symm.trans htoSlot)).1) hactive

theorem isActiveAtSlot_of_deletes {subnets : List Nat} (hactive : (subnets.foldl delete m).isActiveAtSlot subnet slot = true) :
    m.isActiveAtSlot subnet slot = true := by
  refine isActiveAtSlot_of_getToSlot (fun toSlot htoSlot => ?_) hactive
  rw [getToSlot_deletes] at htoSlot
  split at htoSlot
  · cases htoSlot
  · exact htoSlot

end SubnetMap

namespace AttnetsService

variable {P cfg fork} {clock : Nat} {s s' : AttnetsService}

variable {gossip : List AttestationTopic} {topic topic' : AttestationTopic}

theorem mem_subscribeTopic :
    topic ∈ subscribeTopic gossip topic' ↔ topic = topic' ∨ topic ∈ gossip := List.mem_insert_iff

theorem mem_unsubscribeTopic :
    topic ∈ unsubscribeTopic gossip topic' ↔ topic ∈ gossip ∧ topic ≠ topic' := by
  simp [unsubscribeTopic]

variable {forks : List ForkName} {subnet : Nat} {topic : AttestationTopic}

theorem mem_subscribeTopics :
    topic ∈ forks.foldl (fun gossip fork => subscribeTopic gossip ⟨fork, subnet⟩) gossip ↔
      topic ∈ gossip ∨ topic.fork ∈ forks ∧ topic.subnet = subnet := by
  induction forks generalizing gossip with
  | nil => simp
  | cons first forks ih =>
    rw [List.foldl_cons, ih, mem_subscribeTopic, AttestationTopic.mk.injEq, List.mem_cons, or_and_right, or_assoc,
      or_left_comm]

theorem mem_unsubscribeTopics :
    topic ∈ forks.foldl (fun gossip fork => unsubscribeTopic gossip ⟨fork, subnet⟩) gossip ↔
      topic ∈ gossip ∧ ¬ (topic.fork ∈ forks ∧ topic.subnet = subnet) := by
  induction forks generalizing gossip with
  | nil => simp
  | cons first forks ih =>
    rw [List.foldl_cons, ih, mem_unsubscribeTopic, ne_eq, AttestationTopic.mk.injEq, List.mem_cons, or_and_right, not_or, and_assoc]

variable {subnets : List Nat}

theorem mem_subscribeToSubnets :
    topic ∈ (subscribeToSubnets P cfg clock subnets s).gossip ↔ topic ∈ s.gossip ∨
      topic.fork ∈ getActiveForks cfg (computeEpochAtSlot P clock) ∧ topic.subnet ∈ subnets ∧ ¬ s.Held topic.subnet := by
  unfold subscribeToSubnets
  dsimp only
  generalize s.gossip = gossip
  induction subnets generalizing gossip with
  | nil => simp
  | cons first subnets ih =>
    rw [List.foldl_cons, ih, List.mem_cons]
    by_cases hheld : s.Held first
    · have hskip : (!s.subscriptionsCommittee.has first && !s.subscriptionsRandom.has first) = false := by
        rcases hheld with h | h <;> simp [h]
      rw [hskip, if_neg Bool.false_ne_true]
      constructor
      · rintro (h | ⟨hfork, h, hnot⟩)
        · exact .inl h
        · exact .inr ⟨hfork, .inr h, hnot⟩
      · rintro (h | ⟨hfork, heq | h, hnot⟩)
        · exact .inl h
        · exact absurd hheld (heq ▸ hnot)
        · exact .inr ⟨hfork, h, hnot⟩
    · have hnew : (!s.subscriptionsCommittee.has first && !s.subscriptionsRandom.has first) = true := by
        simpa [Held] using hheld
      rw [hnew, if_pos rfl, mem_subscribeTopics]
      constructor
      · rintro ((h | ⟨hfork, heq⟩) | ⟨hfork, h, hnot⟩)
        · exact .inl h
        · exact .inr ⟨hfork, .inl heq, heq ▸ hheld⟩
        · exact .inr ⟨hfork, .inr h, hnot⟩
      · rintro (h | ⟨hfork, heq | h, hnot⟩)
        · exact .inl (.inl h)
        · exact .inl (.inr ⟨hfork, heq⟩)
        · exact .inr ⟨hfork, h, hnot⟩

variable {slot : Nat}

theorem mem_unsubscribeSubnets :
    topic ∈ (unsubscribeSubnets P cfg clock subnets slot s).gossip ↔ topic ∈ s.gossip ∧
      (topic.fork ∈ getActiveForks cfg (computeEpochAtSlot P clock) → topic.subnet ∈ subnets → s.Active topic.subnet slot) := by
  unfold unsubscribeSubnets
  dsimp only
  generalize s.gossip = gossip
  induction subnets generalizing gossip with
  | nil => simp
  | cons first subnets ih =>
    rw [List.foldl_cons, ih, List.mem_cons]
    by_cases hactive : s.Active first slot
    · have hskip : (!s.subscriptionsCommittee.isActiveAtSlot first slot && !s.subscriptionsRandom.isActiveAtSlot first slot)
          = false := by
        rcases hactive with h | h <;> simp [h]
      rw [hskip, if_neg Bool.false_ne_true]
      refine and_congr_right fun _ => ⟨fun h hfork hmem => ?_, fun h hfork hmem => h hfork (.inr hmem)⟩
      rcases hmem with heq | hmem
      · exact heq ▸ hactive
      · exact h hfork hmem
    · have hleave : (!s.subscriptionsCommittee.isActiveAtSlot first slot && !s.subscriptionsRandom.isActiveAtSlot first slot)
          = true := by
        simpa [Active] using hactive
      rw [hleave, if_pos rfl, mem_unsubscribeTopics, and_assoc]
      refine and_congr_right fun _ => ⟨fun h hfork hmem => ?_, fun h => ⟨fun heq => ?_, fun hfork hmem => h hfork (.inr hmem)⟩⟩
      · rcases hmem with heq | hmem
        · exact absurd ⟨hfork, heq⟩ h.1
        · exact h.2 hfork hmem
      · exact hactive (heq.2 ▸ h heq.1 (.inl heq.2))

theorem dutiesSubscribed_register {requests : List RequestedSubnet} (hduties : s.DutiesSubscribed fork clock)
    (hactive : ∀ subnet, s'.Active subnet clock ↔
      s.Active subnet clock ∨ ∃ r ∈ requests, r.subnet = subnet ∧ clock ≤ r.toSlot)
    (hgossip : ∀ subnet, ⟨fork, subnet⟩ ∈ s'.gossip ↔
      ⟨fork, subnet⟩ ∈ s.gossip ∨ subnet ∈ requests.map (·.subnet) ∧ ¬ s.Held subnet) :
    s'.DutiesSubscribed fork clock ↔ s.LeavesNone fork clock requests := by
  constructor
  · intro h r hr hle hheld
    rcases (hgossip r.subnet).1 (h r.subnet ((hactive r.subnet).2 (.inr ⟨r, hr, rfl, hle⟩))) with hkept | ⟨-, hnot⟩
    · exact hkept
    · exact absurd hheld hnot
  · intro h subnet hsubnet
    rw [hgossip]
    rcases (hactive subnet).1 hsubnet with hold | ⟨r, hr, rfl, hle⟩
    · exact .inl (hduties subnet hold)
    · by_cases hheld : s.Held r.subnet
      · exact .inl (h r hr hle hheld)
      · exact .inr ⟨List.mem_map_of_mem hr, hheld⟩

theorem Active.mono {subnet slot slot' : Nat} (h : slot ≤ slot') (hactive : s.Active subnet slot') : s.Active subnet slot := by
  refine hactive.imp (fun h' => ?_) fun h' => ?_
  all_goals
    obtain ⟨toSlot, htoSlot, hle⟩ := SubnetMap.isActiveAtSlot_iff.1 h'
    exact SubnetMap.isActiveAtSlot_iff.2 ⟨toSlot, htoSlot, Nat.le_trans h hle⟩

theorem dutiesSubscribed_giveUp (hduties : s.DutiesSubscribed fork clock) (hslot : slot ≤ clock)
    (hactive : ∀ subnet, s'.Active subnet clock → s.Active subnet clock)
    (hgossip : ∀ subnet, ⟨fork, subnet⟩ ∈ s.gossip → s'.Active subnet slot → ⟨fork, subnet⟩ ∈ s'.gossip) :
    s'.DutiesSubscribed fork clock := by
  intro subnet hsubnet
  exact hgossip subnet (hduties subnet (hactive subnet hsubnet)) (hsubnet.mono hslot)

/-! ## What one call does -/

theorem updateMetadata_duties : (updateMetadata s).DutiesSubscribed fork clock ↔ s.DutiesSubscribed fork clock := by
  unfold updateMetadata
  dsimp only
  split <;> exact Iff.rfl

theorem addKnownValidators_subscriptions (subscriptions : List CommitteeSubscription) (state : AttnetsService × Bool) :
    let state' := subscriptions.foldl (addKnownValidator clock) state
    state'.1.subscriptionsCommittee = state.1.subscriptionsCommittee ∧
      state'.1.subscriptionsRandom = state.1.subscriptionsRandom ∧ state'.1.gossip = state.1.gossip := by
  refine List.foldlRecOn subscriptions (addKnownValidator clock) (motive := fun state' =>
    state'.1.subscriptionsCommittee = state.1.subscriptionsCommittee ∧
      state'.1.subscriptionsRandom = state.1.subscriptionsRandom ∧ state'.1.gossip = state.1.gossip) ⟨rfl, rfl, rfl⟩ ?_
  intro state' h subscription _
  exact h

theorem addCommitteeSubscriptions_duties (hforks : getActiveForks cfg (computeEpochAtSlot P clock) = [fork])
    (hduties : s.DutiesSubscribed fork clock) (subscriptions : List CommitteeSubscription) :
    (addCommitteeSubscriptions P cfg clock subscriptions s).1.DutiesSubscribed fork clock ↔
      s.LeavesNone fork clock (subnetsToSubscribe subscriptions) := by
  obtain ⟨hcommittee, hrandom, hgossip⟩ := @addKnownValidators_subscriptions clock subscriptions (s, false)
  unfold addCommitteeSubscriptions
  generalize subscriptions.foldl (addKnownValidator clock) (s, false) = state at *
  refine dutiesSubscribed_register hduties (fun subnet => ?_) fun subnet => ?_
  · unfold Active
    dsimp only [subscribeToSubnets]
    rw [SubnetMap.isActiveAtSlot_requests, hcommittee, hrandom, or_right_comm]
  · have hheld : state.1.Held subnet ↔ s.Held subnet := by
      unfold Held
      rw [hcommittee, hrandom]
    rw [← hgossip, ← hheld, mem_subscribeToSubnets, hforks]
    simp

theorem leavesNone_nil : s.LeavesNone fork clock [] := fun _ hr => absurd hr List.not_mem_nil

theorem unsubscribeExpiredCommitteeSubnets_duties (hduties : s.DutiesSubscribed fork clock) (hslot : slot ≤ clock) :
    (unsubscribeExpiredCommitteeSubnets P cfg clock slot s).DutiesSubscribed fork clock := by
  exact dutiesSubscribed_giveUp hduties hslot (fun subnet hactive => hactive.imp_left SubnetMap.isActiveAtSlot_of_getExpired)
    fun subnet hmem hactive => mem_unsubscribeSubnets.2 ⟨hmem, fun _ _ => hactive⟩

theorem unsubscribeExpiredRandomSubnets_duties (hduties : s.DutiesSubscribed fork clock) (hslot : slot ≤ clock) :
    (unsubscribeExpiredRandomSubnets P cfg clock slot s).1.DutiesSubscribed fork clock := by
  exact dutiesSubscribed_giveUp hduties hslot (fun subnet hactive => hactive.imp_right SubnetMap.isActiveAtSlot_of_getExpired)
    fun subnet hmem hactive => mem_unsubscribeSubnets.2 ⟨hmem, fun _ _ => hactive⟩

theorem subnetsToConnect_eq_nil {draws : Draws} (h : ¬ 0 < s.subnetDiff) : subnetsToConnect P clock draws s = [] := by
  unfold subnetsToConnect
  dsimp only
  rw [Int.toNat_of_nonpos (by omega), List.take_zero, List.zipIdx_nil, List.map_nil]

theorem rebalanceRandomSubnets_duties (hforks : getActiveForks cfg (computeEpochAtSlot P clock) = [fork])
    (hduties : s.DutiesSubscribed fork clock) (draws : Draws) :
    (rebalanceRandomSubnets P cfg clock draws s).DutiesSubscribed fork clock ↔
      s.LeavesNone fork clock (subnetsToConnect P clock draws s) := by
  unfold rebalanceRandomSubnets
  by_cases hmissing : 0 < s.subnetDiff
  · rw [if_pos hmissing]
    refine updateMetadata_duties.trans ?_
    refine dutiesSubscribed_register hduties (fun subnet => ?_) fun subnet => ?_
    · unfold Active
      rw [SubnetMap.isActiveAtSlot_requests, or_assoc]
      rfl
    · refine mem_subscribeToSubnets.trans ?_
      rw [hforks]
      simp
  · rw [if_neg hmissing, subnetsToConnect_eq_nil hmissing]
    refine ⟨fun _ => leavesNone_nil, fun _ => ?_⟩
    split
    · refine updateMetadata_duties.2 ?_
      exact dutiesSubscribed_giveUp hduties (Nat.le_refl clock)
        (fun subnet hactive => hactive.imp_right SubnetMap.isActiveAtSlot_of_deletes)
        fun subnet hmem hactive => mem_unsubscribeSubnets.2 ⟨hmem, fun _ _ => hactive⟩
    · exact hduties

end AttnetsService

/-! ## What one step does -/

variable {P cfg fork}

def Call.Due (P : Preset) (clock : Nat) : Call → Prop
  | .onSlot slot => slot ≤ clock
  | .onEpoch epoch => computeStartSlotAtEpoch P epoch ≤ clock
  | .unsubscribeExpiredCommitteeSubnets slot => slot ≤ clock
  | .unsubscribeExpiredRandomSubnets slot => slot ≤ clock
  | _ => True

variable {call : Call}

theorem Call.Due.mono {clock clock' : Nat} (h : clock ≤ clock') (hdue : call.Due P clock) : call.Due P clock' := by
  cases call with
  | onSlot slot => exact Nat.le_trans hdue h
  | onEpoch epoch => exact Nat.le_trans hdue h
  | unsubscribeExpiredCommitteeSubnets slot => exact Nat.le_trans hdue h
  | unsubscribeExpiredRandomSubnets slot => exact Nat.le_trans hdue h
  | addCommitteeSubscriptions subscriptions => trivial
  | pruneExpiredKnownValidators slot => trivial
  | rebalanceRandomSubnets => trivial

variable {clock : Nat}

theorem Call.due_of_arrives (h : call.arrives P clock = true) : call.Due P clock := by
  cases call <;> simp_all [Call.arrives, Call.Due]

variable {s : AttnetsService}

theorem call_duties (hforks : getActiveForks cfg (computeEpochAtSlot P clock) = [fork]) (hduties : s.DutiesSubscribed fork clock)
    (hdue : call.Due P clock) (draws : Draws) :
    (s.call P cfg clock draws call).1.DutiesSubscribed fork clock ↔
      s.LeavesNone fork clock (registrations P clock draws call s) := by
  cases call with
  | addCommitteeSubscriptions subscriptions => exact addCommitteeSubscriptions_duties hforks hduties subscriptions
  | onSlot slot => exact iff_of_true hduties leavesNone_nil
  | onEpoch epoch => exact iff_of_true hduties leavesNone_nil
  | unsubscribeExpiredCommitteeSubnets slot =>
    exact iff_of_true (unsubscribeExpiredCommitteeSubnets_duties hduties hdue) leavesNone_nil
  | unsubscribeExpiredRandomSubnets slot =>
    exact iff_of_true (unsubscribeExpiredRandomSubnets_duties hduties hdue) leavesNone_nil
  | pruneExpiredKnownValidators slot => exact iff_of_true hduties leavesNone_nil
  | rebalanceRandomSubnets => exact rebalanceRandomSubnets_duties hforks hduties draws

theorem call_due (hdue : call.Due P clock) (draws : Draws) :
    ∀ call' ∈ (s.call P cfg clock draws call).2, call'.Due P clock := by
  intro call' hmem
  cases call with
  | addCommitteeSubscriptions subscriptions =>
    unfold AttnetsService.call addCommitteeSubscriptions at hmem
    dsimp only at hmem
    split at hmem
    · rw [List.mem_singleton.1 hmem]
      trivial
    · cases hmem
  | onSlot slot =>
    rw [List.mem_singleton.1 hmem]
    exact hdue
  | onEpoch epoch =>
    rcases List.mem_pair.1 hmem with rfl | rfl
    · exact hdue
    · trivial
  | unsubscribeExpiredCommitteeSubnets slot => cases hmem
  | unsubscribeExpiredRandomSubnets slot =>
    rw [List.mem_singleton.1 hmem]
    trivial
  | pruneExpiredKnownValidators slot =>
    unfold AttnetsService.call pruneExpiredKnownValidators at hmem
    dsimp only at hmem
    split at hmem
    · cases hmem
    · rw [List.mem_singleton.1 hmem]
      trivial
  | rebalanceRandomSubnets => cases hmem

structure Node.Sound (P : Preset) (cfg : ChainConfig) (fork : ForkName) (n : Node) : Prop where
  forks : getActiveForks cfg (computeEpochAtSlot P n.clock) = [fork]
  due : ∀ call ∈ n.pending, call.Due P n.clock

theorem next_call {n n' : Node} {draws : Draws} (hnext : next P cfg fork (.call draws) n = some n') :
    ∃ call rest, n.pending = call :: rest ∧ n' = { n with
      service := (n.service.call P cfg n.clock draws call).1
      pending := (n.service.call P cfg n.clock draws call).2 ++ rest } := by
  dsimp only [next] at hnext
  split at hnext
  · cases hnext
  · rename_i call rest hpending
    cases hnext
    exact ⟨call, rest, hpending, rfl⟩

section

variable (n : Node) (label : Label) (n' : Node) (hnext : next P cfg fork label n = some n') (hn : n.Sound P cfg fork)
include hnext hn

theorem next_sound : n'.Sound P cfg fork := by
  cases label with
  | tick clock =>
    obtain ⟨⟨hle, hforks⟩, rfl⟩ : _ ∧ _ := by simpa [next] using hnext
    exact ⟨hforks, fun call hcall => (hn.due call hcall).mono hle⟩
  | event call =>
    obtain ⟨harrives, rfl⟩ : _ ∧ _ := by simpa [next] using hnext
    refine ⟨hn.forks, fun call' hcall => ?_⟩
    rcases List.mem_cons.1 hcall with rfl | hcall
    · exact Call.due_of_arrives harrives
    · exact hn.due call' hcall
  | call draws =>
    obtain ⟨call, rest, hpending, rfl⟩ := next_call hnext
    refine ⟨hn.forks, fun call' hcall => ?_⟩
    rcases List.mem_append.1 hcall with hcall | hcall
    · exact call_due (hn.due call (by rw [hpending]; exact List.mem_cons_self)) draws call' hcall
    · exact hn.due call' (by rw [hpending]; exact List.mem_cons_of_mem _ hcall)

theorem next_duties (hduties : n.service.DutiesSubscribed fork n.clock) :
    n'.service.DutiesSubscribed fork n'.clock ↔ RegistersKept P fork n label := by
  cases label with
  | tick clock =>
    obtain ⟨⟨hle, -⟩, rfl⟩ : _ ∧ _ := by simpa [next] using hnext
    exact iff_of_true (fun subnet hactive => hduties subnet (hactive.mono hle)) trivial
  | event call =>
    obtain ⟨-, rfl⟩ : _ ∧ _ := by simpa [next] using hnext
    exact iff_of_true hduties trivial
  | call draws =>
    obtain ⟨call, rest, hpending, rfl⟩ := next_call hnext
    have hdue := hn.due call (by rw [hpending]; exact List.mem_cons_self)
    refine (call_duties hn.forks hduties hdue draws).trans ?_
    unfold RegistersKept
    rw [hpending, List.head?_cons]
    simp

end

/-! ## Runs -/

/-- **Every subnet that is active at the current slot is subscribed in gossip, all along a run, exactly where no call registers
a subnet that a map still holds and gossip was unsubscribed from.** -/
theorem dutySubnets_subscribed_iff {clock : Nat} {metadata : Metadata} {steps : List (Node × Label)} {n : Node}
    (hforks : getActiveForks cfg (computeEpochAtSlot P clock) = [fork])
    (hrun : Run (next P cfg fork) (.start clock metadata) steps n) :
    (∀ m ∈ visited steps n, m.service.DutiesSubscribed fork m.clock) ↔ ∀ step ∈ steps, RegistersKept P fork step.1 step.2 := by
  refine hrun.always_iff (I := Node.Sound P cfg fork) ⟨hforks, fun call hcall => absurd hcall List.not_mem_nil⟩ ?_
    next_sound next_duties
  intro subnet hactive
  rcases hactive with h | h <;> cases h

def Draws.least : Draws := ⟨fun i => Fin.last i, fun _ => ⟨0, by decide⟩⟩

/-- An aggregator of subnet 0 asks for it at slot 9, and the node takes it as its random subnet too, until slot 2057. -/
def subscribesAtNine : List Label :=
  [.event (.addCommitteeSubscriptions [⟨7, 0, 20, true⟩]), .call .least, .call .least,
    .tick 21, .event (.onSlot 21), .call .least, .call .least]

def returnsTwice : List Label :=
  [.tick 2055, .event (.addCommitteeSubscriptions [⟨7, 0, 2060, true⟩]), .call .least,
    .tick 2061, .event (.onSlot 2061), .call .least, .call .least,
    .event (.addCommitteeSubscriptions [⟨7, 0, 2063, true⟩]), .call .least]

def Node.first : Node := .start 9 ⟨0, List.replicate ATTESTATION_SUBNET_COUNT false⟩

theorem dutySubnets_subscribed_iff_first :
    let run := exec (next minimal (minimalConfig ⊤) .phase0) subscribesAtNine .first
    run.1.length = 7 ∧ run.2.service.gossip = [⟨.phase0, 0⟩] ∧
      ∀ m ∈ visited run.1 run.2, m.service.DutiesSubscribed .phase0 m.clock := by
  refine ⟨by decide +kernel, by decide +kernel, ?_⟩
  have hforks : getActiveForks (minimalConfig ⊤) (computeEpochAtSlot minimal 9) = [.phase0] := by decide +kernel
  exact (dutySubnets_subscribed_iff hforks (exec_run _ subscribesAtNine Node.first)).2 (by decide +kernel)

/-- **The duty at slot 2063 stays without its gossip subscription**: the random entry that is over hides that gossip was
unsubscribed when the duty at slot 2060 was. -/
theorem dutySubnets_unsubscribed : ¬ ∀ (steps : List (Node × Label)) (n : Node),
    Run (next minimal (minimalConfig ⊤) .phase0) .first steps n →
      ∀ m ∈ visited steps n, m.service.DutiesSubscribed .phase0 m.clock := by
  intro h
  have hrun := exec_run (next minimal (minimalConfig ⊤) .phase0) (subscribesAtNine ++ returnsTwice) .first
  have hduties := h _ _ hrun _ (List.mem_append_right _ (List.mem_singleton.2 rfl)) 0 (.inl (by decide +kernel))
  revert hduties
  decide +kernel

end Lodestar.Network
