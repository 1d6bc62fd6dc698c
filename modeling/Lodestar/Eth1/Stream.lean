import Mathlib.Data.List.Induction
import Lodestar.Eth1.Types
import Lodestar.StateTransition.Genesis
/-!
# Stream — the ranges and batches in which deposits are fetched before genesis

The two streams ask the node for its height, fetch the deposits up to the block at the follow distance, and start their next
range at the block where the last one ended.  The first yields deposits block by block, the second a range with the block at
its end.
-/
namespace Lodestar.Eth1

open Lib StateTransition

structure Eth1Chain where
  timestamp : Nat → Nat
  blockHash : Nat → Root
  events : List DepositEvent
  index_eq : ∀ (i : Nat) (event : DepositEvent), events[i]? = some event → event.index = i
  ordered : events.Pairwise (fun a b => a.blockNumber ≤ b.blockNumber)
  /-- The contract's tree has 32 levels. -/
  length_le : events.length ≤ 2 ^ 32

namespace Eth1Chain

section

variable (chain : Eth1Chain)

def getDepositEvents (fromBlock toBlock : Nat) : List DepositEvent :=
  chain.events.filter fun event => decide (fromBlock ≤ event.blockNumber) && decide (event.blockNumber ≤ toBlock)

def countUpTo (blockNumber : Nat) : Nat :=
  chain.events.countP fun event => decide (event.blockNumber ≤ blockNumber)

variable {event : DepositEvent}

theorem lt_countUpTo_iff {i : Nat} (h : chain.events[i]? = some event) (blockNumber : Nat) :
    i < chain.countUpTo blockNumber ↔ event.blockNumber ≤ blockNumber :=
  lt_countP_iff DepositEvent.blockNumber blockNumber chain.ordered h

theorem countUpTo_le (blockNumber : Nat) : chain.countUpTo blockNumber ≤ chain.events.length :=
  List.countP_le_length

theorem countUpTo_mono {a b : Nat} (h : a ≤ b) : chain.countUpTo a ≤ chain.countUpTo b := by
  refine List.countP_mono_left fun event _ hevent => ?_
  rw [decide_eq_true_eq] at hevent ⊢
  exact hevent.trans h

end

theorem mem_getDepositEvents {chain : Eth1Chain} {fromBlock toBlock : Nat} :
    event ∈ chain.getDepositEvents fromBlock toBlock ↔
      event ∈ chain.events ∧ fromBlock ≤ event.blockNumber ∧ event.blockNumber ≤ toBlock := by
  unfold getDepositEvents
  rw [List.mem_filter, Bool.and_eq_true, decide_eq_true_eq, decide_eq_true_eq]

end Eth1Chain

/-! ## Parameters -/

structure StreamConfig extends GenesisConfig where
  ETH1_FOLLOW_DISTANCE : Nat
  SECONDS_PER_ETH1_BLOCK : Nat
  secondsPerEth1Block_pos : 0 < SECONDS_PER_ETH1_BLOCK
  maxBlocksPerPoll : Nat
  /-- `provider.deployBlock`. -/
  deployBlock : Nat

variable (cfg : StreamConfig)

def getRemoteFollowBlock (remoteHighestBlock : Nat) : Nat := remoteHighestBlock - cfg.ETH1_FOLLOW_DISTANCE

def optimizeNextBlockDiffForGenesis (timestamp : Nat) : Nat :=
  let timeToGenesis : Int := (cfg.MIN_GENESIS_TIME : Int) - cfg.GENESIS_DELAY - timestamp
  let numBlocksToGenesis := timeToGenesis / (cfg.SECONDS_PER_ETH1_BLOCK : Int)
  if numBlocksToGenesis ≤ 2 then 1 else (max 1 (numBlocksToGenesis / 2)).toNat

def nextToBlock (remoteFollowBlock toBlock timestamp : Nat) : Nat :=
  min remoteFollowBlock (toBlock + min (optimizeNextBlockDiffForGenesis cfg timestamp) cfg.maxBlocksPerPoll)

/-! ## Batches by block -/

structure IBatchDepositEvents where
  blockNumber : Nat
  depositEvents : List DepositEvent

def groupDepositEventsByBlock (depositEvents : List DepositEvent) : List IBatchDepositEvents :=
  let sorted := depositEvents.mergeSort fun event1 event2 => decide (event1.index ≤ event2.index)
  let depositsByBlockMap : OrderedMap Nat (List DepositEvent) := sorted.foldl (fun depositsByBlockMap deposit =>
    depositsByBlockMap.set deposit.blockNumber ((depositsByBlockMap.get? deposit.blockNumber).getD [] ++ [deposit])) .empty
  depositsByBlockMap.entries.map fun entry => ⟨entry.1, entry.2⟩

structure Batched (events : List DepositEvent) (batches : List IBatchDepositEvents) : Prop where
  increasing : batches.Pairwise (fun a b => a.blockNumber < b.blockNumber)
  events_eq : ∀ batch ∈ batches, batch.depositEvents = events.filter fun event => decide (event.blockNumber = batch.blockNumber)
  covers : ∀ event ∈ events, ∃ batch ∈ batches, batch.blockNumber = event.blockNumber
  occurs : ∀ batch ∈ batches, ∃ event ∈ events, event.blockNumber = batch.blockNumber

/-- The map that the loop over sorted events builds. -/
structure Grouped (events : List DepositEvent) (m : OrderedMap Nat (List DepositEvent)) : Prop where
  increasing : (m.entries.map (·.1)).Pairwise (· < ·)
  mem_keys : ∀ blockNumber, blockNumber ∈ m.entries.map (·.1) ↔ ∃ event ∈ events, event.blockNumber = blockNumber
  get?_eq : ∀ blockNumber, (m.get? blockNumber).getD [] = events.filter fun event => decide (event.blockNumber = blockNumber)

theorem Grouped.nil : Grouped [] .empty where
  increasing := .nil
  mem_keys blockNumber := by
    constructor
    · intro h
      cases h
    · rintro ⟨event, hevent, -⟩
      cases hevent
  get?_eq _ := rfl

variable {events : List DepositEvent}

theorem Grouped.concat {m : OrderedMap Nat (List DepositEvent)} (h : Grouped events m) {deposit : DepositEvent}
    (hlast : ∀ event ∈ events, event.blockNumber ≤ deposit.blockNumber) : Grouped (events ++ [deposit])
      (m.set deposit.blockNumber ((m.get? deposit.blockNumber).getD [] ++ [deposit])) where
  increasing := by
    rw [OrderedMap.keys_set]
    by_cases hhas : m.has deposit.blockNumber = true
    · rw [if_pos hhas]
      exact h.increasing
    · rw [if_neg hhas, List.pairwise_append]
      refine ⟨h.increasing, List.pairwise_singleton _ _, fun key hkey last hlast' => ?_⟩
      obtain rfl : last = deposit.blockNumber := List.mem_singleton.1 hlast'
      obtain ⟨event, hevent, rfl⟩ := (h.mem_keys key).1 hkey
      refine Nat.lt_of_le_of_ne (hlast event hevent) fun heq => hhas ?_
      rw [OrderedMap.has_iff, ← heq]
      exact hkey
  mem_keys blockNumber := by
    have hkeys : blockNumber ∈ (m.set deposit.blockNumber ((m.get? deposit.blockNumber).getD [] ++ [deposit])).entries.map (·.1) ↔
        blockNumber ∈ m.entries.map (·.1) ∨ blockNumber = deposit.blockNumber := by
      rw [OrderedMap.keys_set]
      by_cases hhas : m.has deposit.blockNumber = true
      · rw [if_pos hhas]
        rw [OrderedMap.has_iff] at hhas
        constructor
        · exact fun hmem => .inl hmem
        · rintro (hmem | rfl)
          · exact hmem
          · exact hhas
      · rw [if_neg hhas, List.mem_append, List.mem_singleton]
    rw [hkeys, h.mem_keys]
    constructor
    · rintro (⟨event, hevent, rfl⟩ | rfl)
      · exact ⟨event, List.mem_append_left _ hevent, rfl⟩
      · exact ⟨deposit, by simp, rfl⟩
    · rintro ⟨event, hevent, rfl⟩
      rcases List.mem_append.1 hevent with hevent | hevent
      · exact .inl ⟨event, hevent, rfl⟩
      · rw [List.mem_singleton.1 hevent]
        exact .inr rfl
  get?_eq blockNumber := by
    rw [OrderedMap.get?_set, List.filter_append]
    by_cases hblock : blockNumber = deposit.blockNumber
    · subst hblock
      rw [if_pos rfl, Option.getD_some, h.get?_eq, List.filter_cons_of_pos (by simp), List.filter_nil]
    · rw [if_neg hblock, h.get?_eq, List.filter_cons_of_neg (by simpa using fun heq => hblock heq.symm), List.filter_nil,
        List.append_nil]

theorem batched_group (hindex : events.Pairwise (fun a b => a.index ≤ b.index))
    (hblock : events.Pairwise (fun a b => a.blockNumber ≤ b.blockNumber)) :
    Batched events (groupDepositEventsByBlock events) := by
  have hgrouped : ∀ before : List DepositEvent, before <+: events → Grouped before
      (before.foldl (fun (m : OrderedMap Nat (List DepositEvent)) deposit =>
        m.set deposit.blockNumber ((m.get? deposit.blockNumber).getD [] ++ [deposit])) .empty) := by
    intro before
    induction before using List.reverseRecOn with
    | nil => exact fun _ => .nil
    | append_singleton before deposit ih =>
      intro hpre
      rw [List.foldl_concat]
      refine (ih ((List.prefix_append before [deposit]).trans hpre)).concat fun event hevent => ?_
      exact (List.pairwise_append.1 (hblock.sublist hpre.sublist)).2.2 event hevent deposit (by simp)
  have hsort : events.mergeSort (fun event1 event2 => decide (event1.index ≤ event2.index)) = events := by
    refine List.mergeSort_of_pairwise (hindex.imp fun h => ?_)
    simpa using h
  unfold groupDepositEventsByBlock
  dsimp only
  rw [hsort]
  have h := hgrouped events (List.prefix_refl events)
  revert h
  generalize events.foldl (fun (m : OrderedMap Nat (List DepositEvent)) deposit =>
    m.set deposit.blockNumber ((m.get? deposit.blockNumber).getD [] ++ [deposit])) .empty = m
  intro h
  refine ⟨?_, fun batch hbatch => ?_, fun event hevent => ?_, fun batch hbatch => ?_⟩
  · rw [List.pairwise_map]
    exact List.pairwise_map.1 h.increasing
  · obtain ⟨entry, hentry, rfl⟩ := List.mem_map.1 hbatch
    have hget : m.get? entry.1 = some entry.2 := OrderedMap.get?_eq_some_iff.2 hentry
    have heq := h.get?_eq entry.1
    rw [hget] at heq
    exact heq
  · obtain ⟨entry, hentry, hkey⟩ := List.mem_map.1 ((h.mem_keys event.blockNumber).2 ⟨event, hevent, rfl⟩)
    exact ⟨_, List.mem_map_of_mem hentry, hkey⟩
  · obtain ⟨entry, hentry, rfl⟩ := List.mem_map.1 hbatch
    exact (h.mem_keys entry.1).1 (List.mem_map_of_mem hentry)

namespace Eth1Chain

theorem index_pairwise (chain : Eth1Chain) : chain.events.Pairwise (fun a b => a.index ≤ b.index) := by
  rw [List.pairwise_iff_getElem]
  intro i j hi hj hij
  rw [chain.index_eq i _ (List.getElem?_eq_getElem hi), chain.index_eq j _ (List.getElem?_eq_getElem hj)]
  exact hij.le

theorem batched_getDepositEvents (chain : Eth1Chain) (fromBlock toBlock : Nat) :
    Batched (chain.getDepositEvents fromBlock toBlock) (groupDepositEventsByBlock (chain.getDepositEvents fromBlock toBlock)) :=
  batched_group (chain.index_pairwise.sublist List.filter_sublist) (chain.ordered.sublist List.filter_sublist)

theorem batch_eq (chain : Eth1Chain) {fromBlock toBlock : Nat} {batch : IBatchDepositEvents}
    (hbatch : batch ∈ groupDepositEventsByBlock (chain.getDepositEvents fromBlock toBlock)) :
    fromBlock ≤ batch.blockNumber ∧ batch.blockNumber ≤ toBlock ∧
      batch.depositEvents = chain.getDepositEvents batch.blockNumber batch.blockNumber := by
  have hbatched := chain.batched_getDepositEvents fromBlock toBlock
  obtain ⟨event, hevent, hblock⟩ := hbatched.occurs batch hbatch
  obtain ⟨-, hfrom, hto⟩ := mem_getDepositEvents.1 hevent
  refine ⟨by omega, by omega, ?_⟩
  rw [hbatched.events_eq batch hbatch]
  unfold getDepositEvents
  rw [List.filter_filter]
  refine List.filter_congr fun e _ => ?_
  rw [Bool.eq_iff_iff]
  simp only [Bool.and_eq_true, decide_eq_true_eq]
  omega

end Eth1Chain

end Lodestar.Eth1
