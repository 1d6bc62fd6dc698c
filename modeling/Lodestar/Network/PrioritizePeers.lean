import Mathlib.Data.List.Basic
import Mathlib.Data.List.Count
import Mathlib.Data.Int.Order.Basic
import Mathlib.Order.Lattice
import Lodestar.Network.AttnetsService
/-!
# PrioritizePeers — which peers to disconnect and which subnets to look for peers of

Peers with a duty are never disconnected, so `maxPeers` is kept exactly where no more peers than that have one.  The queries for
sync subnets are in one list with those for attestation subnets (`prioritizePeers_right_iff`).
-/
namespace Lodestar.Network

open Lib

def MAX_TARGET_SUBNET_PEERS : Nat := 6

structure ConnectedPeer (Score : Type) where
  /-- `id.toB58String()`. -/
  id : String
  attnets : List Bool
  syncnets : List Bool
  score : Score

structure AttSubnetQuery where
  subnetId : Nat
  maxPeersToDiscover : Nat
deriving DecidableEq

structure PrioritizeOpts where
  targetPeers : Nat
  maxPeers : Nat

structure PrioritizedPeers where
  peersToDisconnect : List String
  peersToConnect : Nat
  discv5Queries : List AttSubnetQuery

def sortBy {α Score : Type} [LinearOrder Score] (arr : List α) (condition : α → Score) : List α :=
  arr.mergeSort fun a b => decide (condition a ≤ condition b)

/-! ## The subnets -/

def serves (subnets : List Bool) (subnetId : Nat) : Bool := subnets[subnetId]?.getD false

structure Duties where
  peerHasDuty : OrderedMap String Bool
  discv5Queries : List AttSubnetQuery

def targetPeersPerSubnet (maxPeers : Nat) (subnets : List Nat) : Nat :=
  min MAX_TARGET_SUBNET_PEERS (max 1 (maxPeers / subnets.length))

def countPeer (bits : List Bool) (id : String) (work : OrderedMap String Bool × OrderedMap Nat Nat) (subnetId : Nat) :
    OrderedMap String Bool × OrderedMap Nat Nat :=
  if serves bits subnetId then (work.1.set id true, work.2.set subnetId (1 + (work.2.get? subnetId).getD 0)) else work

variable {Score : Type}

section

variable (subnetKey : ConnectedPeer Score → List Bool)

section

variable (subnets : List Nat) (connectedPeers : List (ConnectedPeer Score))

def countPeers (peerHasDuty : OrderedMap String Bool) : OrderedMap String Bool × OrderedMap Nat Nat :=
  connectedPeers.foldl (fun work peer => subnets.foldl (countPeer (subnetKey peer) peer.id) work) (peerHasDuty, .empty)

def subnetQuery (target : Nat) (peersPerSubnet : OrderedMap Nat Nat) (subnetId : Nat) : Option AttSubnetQuery :=
  let peersInSubnet := (peersPerSubnet.get? subnetId).getD 0
  if peersInSubnet < target then some ⟨subnetId, target - peersInSubnet⟩ else none

def prioritizeSubnets (maxPeers : Nat) (duties : Duties) : Duties :=
  if subnets.length > 0 then
    let (peerHasDuty, peersPerSubnet) := countPeers subnetKey subnets connectedPeers duties.peerHasDuty
    { peerHasDuty
      discv5Queries := duties.discv5Queries ++ subnets.filterMap (subnetQuery (targetPeersPerSubnet maxPeers subnets) peersPerSubnet) }
  else duties

end

def prioritizePeers [LinearOrder Score] (random : (i : Nat) → Fin (i + 1)) (connectedPeers : List (ConnectedPeer Score))
    (activeAttnets activeSyncnets : List Nat) (opts : PrioritizeOpts) : PrioritizedPeers :=
  let duties := prioritizeSubnets (·.attnets) activeAttnets connectedPeers opts.maxPeers ⟨.empty, []⟩
  let duties := prioritizeSubnets (·.syncnets) activeSyncnets connectedPeers opts.maxPeers duties
  let connectedPeerCount := connectedPeers.length
  -- Need more peers
  if connectedPeerCount < opts.targetPeers then ⟨[], opts.targetPeers - connectedPeerCount, duties.discv5Queries⟩
  -- Too much peers, disconnect worst
  else if connectedPeerCount > opts.targetPeers then
    let connectedPeersWithoutDuty := connectedPeers.filter fun peer => !((duties.peerHasDuty.get? peer.id).getD false)
    -- sort from least score to high
    let worstPeers := sortBy (shuffle random connectedPeersWithoutDuty) (·.score)
    ⟨(worstPeers.take (connectedPeerCount - opts.targetPeers)).map (·.id), 0, duties.discv5Queries⟩
  else ⟨[], 0, duties.discv5Queries⟩

/-! ## What is counted -/

theorem countPeer_counts (bits : List Bool) (id : String) (s : Nat) : ∀ (subnets : List Nat)
    (work : OrderedMap String Bool × OrderedMap Nat Nat), ((subnets.foldl (countPeer bits id) work).2.get? s).getD 0 =
      (work.2.get? s).getD 0 + if serves bits s then subnets.count s else 0
  | [], _ => by simp
  | subnetId :: subnets, work => by
    rw [List.foldl_cons, countPeer_counts bits id s subnets, List.count_cons]
    unfold countPeer
    by_cases hs : s = subnetId
    · subst hs
      by_cases hserves : serves bits s
      · simp only [hserves, if_true, OrderedMap.get?_set, Option.getD_some, beq_self_eq_true]
        omega
      · simp [hserves]
    · by_cases hserves : serves bits subnetId
      · simp [hserves, OrderedMap.get?_set, hs, Ne.symm hs]
      · simp [hserves, Ne.symm hs]

theorem countPeer_duty (bits : List Bool) (id id' : String) : ∀ (subnets : List Nat)
    (work : OrderedMap String Bool × OrderedMap Nat Nat),
    ((subnets.foldl (countPeer bits id) work).1.get? id').getD false = true ↔
      (work.1.get? id').getD false = true ∨ (id' = id ∧ ∃ s ∈ subnets, serves bits s = true)
  | [], _ => by simp
  | subnetId :: subnets, work => by
    rw [List.foldl_cons, countPeer_duty bits id id' subnets]
    unfold countPeer
    by_cases hserves : serves bits subnetId
    · rw [if_pos hserves]
      by_cases hid : id' = id
      · simp [OrderedMap.get?_set, hid, hserves]
      · simp [OrderedMap.get?_set, hid]
    · rw [if_neg hserves]
      simp [hserves]

def peersServing (connectedPeers : List (ConnectedPeer Score)) (s : Nat) : Nat :=
  connectedPeers.countP fun peer => serves (subnetKey peer) s

variable {subnets : List Nat}

theorem foldl_counts (subnetKey : ConnectedPeer Score → List Bool) (hnodup : subnets.Nodup) {s : Nat} (hs : s ∈ subnets) :
    ∀ (connectedPeers : List (ConnectedPeer Score)) (work : OrderedMap String Bool × OrderedMap Nat Nat),
    ((connectedPeers.foldl (fun work peer => subnets.foldl (countPeer (subnetKey peer) peer.id) work) work).2.get? s).getD 0 =
      (work.2.get? s).getD 0 + peersServing subnetKey connectedPeers s
  | [], _ => rfl
  | peer :: connectedPeers, work => by
    rw [List.foldl_cons, foldl_counts subnetKey hnodup hs connectedPeers, countPeer_counts, List.count_eq_one_of_mem hnodup hs]
    unfold peersServing
    rw [List.countP_cons]
    omega

theorem foldl_duty (subnetKey : ConnectedPeer Score → List Bool) (subnets : List Nat) (id : String) :
    ∀ (connectedPeers : List (ConnectedPeer Score)) (work : OrderedMap String Bool × OrderedMap Nat Nat),
    ((connectedPeers.foldl (fun work peer => subnets.foldl (countPeer (subnetKey peer) peer.id) work) work).1.get? id).getD false = true ↔
      (work.1.get? id).getD false = true ∨ ∃ peer ∈ connectedPeers, peer.id = id ∧ ∃ s ∈ subnets, serves (subnetKey peer) s = true
  | [], _ => by simp
  | peer :: connectedPeers, work => by
    rw [List.foldl_cons, foldl_duty subnetKey subnets id connectedPeers, countPeer_duty]
    simp only [List.mem_cons, exists_eq_or_imp, or_assoc, eq_comm (a := id)]

/-! ## One kind of subnets -/

def Missing (subnets : List Nat) (connectedPeers : List (ConnectedPeer Score)) (maxPeers : Nat) (query : AttSubnetQuery) : Prop :=
  query.subnetId ∈ subnets ∧ peersServing subnetKey connectedPeers query.subnetId < targetPeersPerSubnet maxPeers subnets ∧
    query.maxPeersToDiscover = targetPeersPerSubnet maxPeers subnets - peersServing subnetKey connectedPeers query.subnetId

def ServesOne (subnets : List Nat) (peer : ConnectedPeer Score) : Prop :=
  ∃ s ∈ subnets, serves (subnetKey peer) s = true

end

theorem prioritizeSubnets_queries (subnetKey : ConnectedPeer Score → List Bool) (hnodup : subnets.Nodup)
    (connectedPeers : List (ConnectedPeer Score)) (maxPeers : Nat) (duties : Duties) (query : AttSubnetQuery) :
    query ∈ (prioritizeSubnets subnetKey subnets connectedPeers maxPeers duties).discv5Queries ↔
      query ∈ duties.discv5Queries ∨ Missing subnetKey subnets connectedPeers maxPeers query := by
  unfold prioritizeSubnets Missing
  split
  · dsimp only
    rw [List.mem_append, List.mem_filterMap]
    refine or_congr_right ?_
    have hcount : ∀ s ∈ subnets, ((countPeers subnetKey subnets connectedPeers duties.peerHasDuty).2.get? s).getD 0 =
        peersServing subnetKey connectedPeers s := by
      intro s hs
      exact (foldl_counts subnetKey hnodup hs connectedPeers _).trans (Nat.zero_add _)
    constructor
    · rintro ⟨s, hs, hquery⟩
      unfold subnetQuery at hquery
      rw [hcount s hs, Option.ite_none_right_eq_some] at hquery
      obtain ⟨hlt, hquery⟩ := hquery
      cases hquery
      exact ⟨hs, hlt, rfl⟩
    · rintro ⟨hs, hlt, hmissing⟩
      refine ⟨query.subnetId, hs, ?_⟩
      unfold subnetQuery
      rw [hcount _ hs, if_pos hlt, ← hmissing]
  · rename_i hempty
    refine (or_iff_left ?_).symm
    rintro ⟨hs, -⟩
    exact hempty (List.length_pos_of_mem hs)

theorem prioritizeSubnets_duty (subnetKey : ConnectedPeer Score → List Bool) (subnets : List Nat)
    (connectedPeers : List (ConnectedPeer Score)) (maxPeers : Nat) (duties : Duties) (id : String) :
    ((prioritizeSubnets subnetKey subnets connectedPeers maxPeers duties).peerHasDuty.get? id).getD false = true ↔
      (duties.peerHasDuty.get? id).getD false = true ∨ ∃ peer ∈ connectedPeers, peer.id = id ∧ ServesOne subnetKey subnets peer := by
  unfold prioritizeSubnets
  split
  · exact foldl_duty subnetKey subnets id connectedPeers _
  · rename_i hempty
    refine (or_iff_left ?_).symm
    rintro ⟨_, -, -, s, hs, -⟩
    exact hempty (List.length_pos_of_mem hs)

/-! ## Who stays -/

variable {α : Type}

theorem swapIfInBounds_perm (a : Array α) (i j : Nat) : (a.swapIfInBounds i j).Perm a := by
  unfold Array.swapIfInBounds
  split
  · split
    · exact Array.swap_perm _ _
    · exact .refl a
  · exact .refl a

theorem shuffle_perm (random : (i : Nat) → Fin (i + 1)) (arr : List α) : (shuffle random arr).Perm arr := by
  have hloop : ∀ (indices : List Nat) (a : Array α),
      (indices.foldl (fun arr i => arr.swapIfInBounds i (random i)) a).Perm a := by
    intro indices
    induction indices with
    | nil => exact fun a => .refl a
    | cons i indices ih => exact fun a => (ih _).trans (swapIfInBounds_perm a i _)
  exact (hloop _ arr.toArray).toList

variable [LinearOrder Score]

theorem le_of_mem_take_sortBy {arr : List α} {condition : α → Score} {n : Nat} {a b : α} (ha : a ∈ (sortBy arr condition).take n)
    (hb : b ∈ sortBy arr condition) (hnot : b ∉ (sortBy arr condition).take n) :
    condition a ≤ condition b := by
  have hsorted : (sortBy arr condition).Pairwise fun a b => condition a ≤ condition b := by
    refine (List.pairwise_mergeSort ?_ ?_ arr).imp fun {a b} hab => of_decide_eq_true hab
    · intro a b c hab hbc
      exact decide_eq_true (le_trans (of_decide_eq_true hab) (of_decide_eq_true hbc))
    · intro a b
      rw [Bool.or_eq_true, decide_eq_true_eq, decide_eq_true_eq]
      exact le_total (condition a) (condition b)
  rw [← List.take_append_drop n (sortBy arr condition)] at hsorted hb
  exact (List.pairwise_append.1 hsorted).2.2 a ha b ((List.mem_append.1 hb).resolve_left hnot)

variable {random : (i : Nat) → Fin (i + 1)} {connectedPeers : List (ConnectedPeer Score)} {activeAttnets activeSyncnets : List Nat}
  {opts : PrioritizeOpts}

def hasDuty (activeAttnets activeSyncnets : List Nat) (peer : ConnectedPeer Score) : Bool :=
  activeAttnets.any (serves peer.attnets) || activeSyncnets.any (serves peer.syncnets)

def remaining (connectedPeers : List (ConnectedPeer Score)) (result : PrioritizedPeers) : List (ConnectedPeer Score) :=
  connectedPeers.filter fun peer => decide (peer.id ∉ result.peersToDisconnect)

structure Prioritized (connectedPeers : List (ConnectedPeer Score)) (activeAttnets activeSyncnets : List Nat) (opts : PrioritizeOpts)
    (result : PrioritizedPeers) : Prop where
  dutyKept : ∀ peer ∈ connectedPeers, peer.id ∈ result.peersToDisconnect → hasDuty activeAttnets activeSyncnets peer = false
  worstFirst : ∀ kept ∈ connectedPeers, kept.id ∉ result.peersToDisconnect → hasDuty activeAttnets activeSyncnets kept = false →
    ∀ gone ∈ connectedPeers, gone.id ∈ result.peersToDisconnect → gone.score ≤ kept.score
  enough : min connectedPeers.length opts.targetPeers ≤ (remaining connectedPeers result).length
  notTooMany : (remaining connectedPeers result).length ≤ opts.maxPeers
  queries : ∀ query, query ∈ result.discv5Queries ↔ Missing (·.attnets) activeAttnets connectedPeers opts.maxPeers query

structure Disconnects (random : (i : Nat) → Fin (i + 1)) (connectedPeers : List (ConnectedPeer Score))
    (activeAttnets activeSyncnets : List Nat) (opts : PrioritizeOpts) (result : PrioritizedPeers) : Prop where
  disconnected : result.peersToDisconnect = ((sortBy (shuffle random
    (connectedPeers.filter fun peer => !hasDuty activeAttnets activeSyncnets peer)) (·.score)).take
      (connectedPeers.length - opts.targetPeers)).map (·.id)
  queries : ∀ query, query ∈ result.discv5Queries ↔ Missing (·.attnets) activeAttnets connectedPeers opts.maxPeers query ∨
    Missing (·.syncnets) activeSyncnets connectedPeers opts.maxPeers query

/-- **What the function does**: the worst peers without a duty go, and both kinds of subnets have their queries. -/
theorem prioritizePeers_disconnects (hids : (connectedPeers.map (·.id)).Nodup) (hattnets : activeAttnets.Nodup)
    (hsyncnets : activeSyncnets.Nodup) : Disconnects random connectedPeers activeAttnets activeSyncnets opts
      (prioritizePeers random connectedPeers activeAttnets activeSyncnets opts) := by
  have hqueries : ∀ query, query ∈ (prioritizeSubnets (·.syncnets) activeSyncnets connectedPeers opts.maxPeers
      (prioritizeSubnets (·.attnets) activeAttnets connectedPeers opts.maxPeers ⟨.empty, []⟩)).discv5Queries ↔
        Missing (·.attnets) activeAttnets connectedPeers opts.maxPeers query ∨
          Missing (·.syncnets) activeSyncnets connectedPeers opts.maxPeers query := by
    intro query
    rw [prioritizeSubnets_queries _ hsyncnets, prioritizeSubnets_queries _ hattnets]
    simp
  have hduty : connectedPeers.filter (fun peer => !(((prioritizeSubnets (·.syncnets) activeSyncnets connectedPeers opts.maxPeers
      (prioritizeSubnets (·.attnets) activeAttnets connectedPeers opts.maxPeers ⟨.empty, []⟩)).peerHasDuty.get? peer.id).getD false)) =
        connectedPeers.filter fun peer => !hasDuty activeAttnets activeSyncnets peer := by
    refine List.filter_congr fun peer hpeer => congrArg _ (Bool.eq_iff_iff.2 ?_)
    -- a peer with the same id is the same peer
    have hone : ∀ {Q : ConnectedPeer Score → Prop}, (∃ peer' ∈ connectedPeers, peer'.id = peer.id ∧ Q peer') ↔ Q peer := by
      intro Q
      constructor
      · rintro ⟨peer', hpeer', hid, hQ⟩
        rwa [List.inj_on_of_nodup_map hids hpeer' hpeer hid] at hQ
      · exact fun hQ => ⟨peer, hpeer, rfl, hQ⟩
    rw [prioritizeSubnets_duty, prioritizeSubnets_duty, hone, hone]
    unfold hasDuty ServesOne
    simp [OrderedMap.get?, OrderedMap.empty]
  unfold prioritizePeers
  dsimp only
  rw [hduty]
  split
  · rename_i hfew
    refine ⟨?_, hqueries⟩
    have hzero : connectedPeers.length - opts.targetPeers = 0 := by omega
    rw [hzero]
    rfl
  · split
    · exact ⟨rfl, hqueries⟩
    · refine ⟨?_, hqueries⟩
      have hzero : connectedPeers.length - opts.targetPeers = 0 := by omega
      rw [hzero]
      rfl

namespace Disconnects

variable {result : PrioritizedPeers}

def worstPeers (random : (i : Nat) → Fin (i + 1)) (connectedPeers : List (ConnectedPeer Score)) (activeAttnets activeSyncnets : List Nat) :
    List (ConnectedPeer Score) :=
  sortBy (shuffle random (connectedPeers.filter fun peer => !hasDuty activeAttnets activeSyncnets peer)) (·.score)

theorem worstPeers_perm : (worstPeers random connectedPeers activeAttnets activeSyncnets).Perm
    (connectedPeers.filter fun peer => !hasDuty activeAttnets activeSyncnets peer) :=
  (List.mergeSort_perm _ _).trans (shuffle_perm random _)

variable {peer : ConnectedPeer Score}

theorem mem_worstPeers : peer ∈ worstPeers random connectedPeers activeAttnets activeSyncnets ↔
    peer ∈ connectedPeers ∧ hasDuty activeAttnets activeSyncnets peer = false := by
  rw [worstPeers_perm.mem_iff, List.mem_filter, Bool.not_eq_true']

section

variable (h : Disconnects random connectedPeers activeAttnets activeSyncnets opts result)
  (hids : (connectedPeers.map (·.id)).Nodup)
include h hids

theorem mem_iff (hpeer : peer ∈ connectedPeers) : peer.id ∈ result.peersToDisconnect ↔
      peer ∈ (worstPeers random connectedPeers activeAttnets activeSyncnets).take (connectedPeers.length - opts.targetPeers) := by
  rw [h.disconnected, List.mem_map]
  constructor
  · rintro ⟨gone, hgone, hid⟩
    rwa [List.inj_on_of_nodup_map hids (mem_worstPeers.1 (List.mem_of_mem_take hgone)).1 hpeer hid] at hgone
  · exact fun hmem => ⟨peer, hmem, rfl⟩

theorem length_remaining : (remaining connectedPeers result).length =
      max (connectedPeers.countP (hasDuty activeAttnets activeSyncnets)) (min connectedPeers.length opts.targetPeers) := by
  have hnodup : connectedPeers.Nodup := hids.of_map _
  have hworst : (worstPeers random connectedPeers activeAttnets activeSyncnets).Nodup :=
    worstPeers_perm.nodup_iff.2 (hnodup.filter _)
  have hgone : (connectedPeers.filter fun peer => decide (peer.id ∈ result.peersToDisconnect)).Perm
      ((worstPeers random connectedPeers activeAttnets activeSyncnets).take (connectedPeers.length - opts.targetPeers)) := by
    refine (List.perm_ext_iff_of_nodup (hnodup.filter _) (hworst.sublist (List.take_sublist _ _))).2 fun peer => ?_
    rw [List.mem_filter, decide_eq_true_eq]
    constructor
    · rintro ⟨hpeer, hdisconnect⟩
      exact (h.mem_iff hids hpeer).1 hdisconnect
    · intro htake
      have hpeer := (mem_worstPeers.1 (List.mem_of_mem_take htake)).1
      exact ⟨hpeer, (h.mem_iff hids hpeer).2 htake⟩
  have hsplit : connectedPeers.length = (connectedPeers.filter fun peer => decide (peer.id ∈ result.peersToDisconnect)).length +
      (remaining connectedPeers result).length := by
    unfold remaining
    simp only [decide_not]
    exact List.length_eq_length_filter_add _
  have hfree : connectedPeers.length = connectedPeers.countP (hasDuty activeAttnets activeSyncnets) +
      (connectedPeers.filter fun peer => !hasDuty activeAttnets activeSyncnets peer).length := by
    rw [List.countP_eq_length_filter]
    exact List.length_eq_length_filter_add _
  rw [hgone.length_eq, List.length_take, worstPeers_perm.length_eq] at hsplit
  omega

end

end Disconnects

/-- An active sync subnet is short of peers only where the attestation subnet of the same number is short of as many. -/
def SyncnetsCovered (connectedPeers : List (ConnectedPeer Score)) (activeAttnets activeSyncnets : List Nat) (maxPeers : Nat) : Prop :=
  ∀ query, Missing (·.syncnets) activeSyncnets connectedPeers maxPeers query → Missing (·.attnets) activeAttnets connectedPeers maxPeers query

/-- **The documented conditions hold exactly where at most `maxPeers` peers have a duty and the sync subnets are not short of
peers** in any other way than attestation subnets are. -/
theorem prioritizePeers_right_iff (random : (i : Nat) → Fin (i + 1)) (connectedPeers : List (ConnectedPeer Score))
    (activeAttnets activeSyncnets : List Nat) (opts : PrioritizeOpts) (hids : (connectedPeers.map (·.id)).Nodup)
    (hattnets : activeAttnets.Nodup) (hsyncnets : activeSyncnets.Nodup) (htarget : opts.targetPeers ≤ opts.maxPeers) :
    Prioritized connectedPeers activeAttnets activeSyncnets opts
        (prioritizePeers random connectedPeers activeAttnets activeSyncnets opts) ↔
      connectedPeers.countP (hasDuty activeAttnets activeSyncnets) ≤ opts.maxPeers ∧
        SyncnetsCovered connectedPeers activeAttnets activeSyncnets opts.maxPeers := by
  have h := @prioritizePeers_disconnects Score _ random connectedPeers activeAttnets activeSyncnets opts hids hattnets hsyncnets
  have hlength := h.length_remaining hids
  constructor
  · intro hright
    refine ⟨?_, fun query hquery => (hright.queries query).1 ((h.queries query).2 (.inr hquery))⟩
    have := hright.notTooMany
    omega
  · rintro ⟨hduty, hcovered⟩
    refine ⟨fun peer hpeer hgone => ?_, fun kept hkept hstays hfree gone hgone hdisconnect => ?_, ?_, ?_, fun query => ?_⟩
    · exact (Disconnects.mem_worstPeers.1 (List.mem_of_mem_take ((h.mem_iff hids hpeer).1 hgone))).2
    · exact le_of_mem_take_sortBy ((h.mem_iff hids hgone).1 hdisconnect) (Disconnects.mem_worstPeers.2 ⟨hkept, hfree⟩)
        fun htake => hstays ((h.mem_iff hids hkept).2 htake)
    · omega
    · omega
    · rw [h.queries]
      exact or_iff_left_of_imp (hcovered query)

/-- One peer on subnet 3 and three with none, of different scores. -/
def fourPeers : List (ConnectedPeer Int) :=
  [⟨"peer-0", [false, false, false, true], [], 0⟩, ⟨"peer-1", [], [], 0⟩, ⟨"peer-2", [], [], -20⟩, ⟨"peer-3", [], [], -40⟩]

theorem prioritizePeers_right_four :
    Prioritized fourPeers [3] [] ⟨1, 1⟩ (prioritizePeers (fun i => Fin.last i) fourPeers [3] [] ⟨1, 1⟩) ↔
      fourPeers.countP (hasDuty [3] []) ≤ 1 ∧ SyncnetsCovered fourPeers [3] [] 1 :=
  prioritizePeers_right_iff (fun i => Fin.last i) fourPeers [3] [] ⟨1, 1⟩ (by decide) (by decide) (by decide) (by decide)

def twoOnDuty : List (ConnectedPeer Int) := [⟨"peer-0", [true], [], 0⟩, ⟨"peer-1", [true], [], 0⟩]

/-- Both stay, where at most one should. -/
theorem twoOnDuty_exceed : ¬ ∀ (random : (i : Nat) → Fin (i + 1)) (connectedPeers : List (ConnectedPeer Int))
    (activeAttnets activeSyncnets : List Nat) (opts : PrioritizeOpts), (connectedPeers.map (·.id)).Nodup → activeAttnets.Nodup →
      activeSyncnets.Nodup → opts.targetPeers ≤ opts.maxPeers → Prioritized connectedPeers activeAttnets activeSyncnets opts
        (prioritizePeers random connectedPeers activeAttnets activeSyncnets opts) := by
  intro h
  have hids : (twoOnDuty.map (·.id)).Nodup := by decide
  have hright := h (fun i => Fin.last i) twoOnDuty [0] [] ⟨1, 1⟩ hids (by decide) (by decide) (by decide)
  have hdisconnects := @prioritizePeers_disconnects Int _ (fun i => Fin.last i) twoOnDuty [0] [] ⟨1, 1⟩ hids (by decide) (by decide)
  have hmany := hright.notTooMany
  rw [hdisconnects.length_remaining hids] at hmany
  exact absurd hmany (by decide)

end Lodestar.Network
