import Mathlib.Data.List.Dedup
import Lodestar.Eth1.Types
import Lodestar.Util.Math
/-!
# Eth1Data — the deposit count and root of a sequence of blocks

A stream of deposits, the newest first, is read down to the first deposit below the blocks.  The deposit of a block is found
by binary search among the newest deposits of each block, and its root in the tree cut after it.  `deposit_eq` says that the
search finds the newest deposit of the stream up to the block.
-/
namespace Lodestar.Eth1

open Lib

/-! ## Binary search -/

/-- The texts of what `binarySearchLte` throws. -/
def searchError : Util.ErrorBinarySearch Nat → Eth1Error
  | .ErrorNoValues => .error "Empty array to perform binary search"
  | .ErrorNoValueMinValue value minValue =>
    .error ("Target value " ++ toString value ++ " is less than min value " ++ toString minValue)

variable {items deposits found : List DepositEvent}

theorem binarySearchLte_spec (hsorted : items.Pairwise (fun a b => a.blockNumber < b.blockNumber)) (value : Nat) :
    (∃ item, (Util.binarySearchLte items value (·.blockNumber)).mapError searchError = .ok item ∧ item ∈ items ∧
      item.blockNumber ≤ value ∧ ∀ other ∈ items, other.blockNumber ≤ value → other.blockNumber ≤ item.blockNumber) ∨
    (∃ error, (Util.binarySearchLte items value (·.blockNumber)).mapError searchError = .error error) ∧
      ∀ item ∈ items, value < item.blockNumber := by
  rcases Util.binarySearchLte_cases (hsorted.imp Nat.le_of_lt) value with
    ⟨item, hfound, hgreatest⟩ | ⟨rfl, hthrown⟩ | ⟨first, -, habove, hthrown⟩
  · rw [hfound]
    exact .inl ⟨item, rfl, hgreatest.mem, hgreatest.le, hgreatest.greatest⟩
  · rw [hthrown]
    exact .inr ⟨⟨_, rfl⟩, nofun⟩
  · rw [hthrown]
    exact .inr ⟨⟨_, rfl⟩, habove⟩

/-! ## Trees -/

def popMany {T : Type} : Nat → List T → List T
  | 0, tree => tree
  | n + 1, tree => popMany n tree.dropLast

def getTreeAtIndex {T : Type} (tree : List T) (index : Nat) : Except Eth1Error (List T) :=
  let maxIndex : Int := tree.length - 1
  if (index : Int) > maxIndex then
    .error (.error ("Cannot get tree for index: " ++ toString index ++ ", maxIndex: " ++ toString maxIndex))
  else .ok (popMany (tree.length - 1 - index) tree)

theorem popMany_eq {T : Type} : ∀ (n : Nat) (tree : List T), popMany n tree = tree.take (tree.length - n)
  | 0, tree => by
    unfold popMany
    rw [Nat.sub_zero, List.take_length]
  | n + 1, tree => by
    unfold popMany
    rw [popMany_eq n, List.dropLast_eq_take, List.length_take, List.take_take]
    congr 1
    omega

variable {index fromBlock blockNumber toBlock : Nat}

theorem getTreeAtIndex_eq {T : Type} {tree : List T} (h : index < tree.length) :
    getTreeAtIndex tree index = .ok (tree.take (index + 1)) := by
  unfold getTreeAtIndex
  rw [if_neg (by omega), popMany_eq]
  congr 2
  omega

/-! ## Deposits of a range of blocks -/

/-- The loop of `getDepositsByBlockNumber` over the stream: takes deposits until one is under the range. -/
def collectDeposits (fromBlock toBlock : Nat) :
    OrderedMap Nat DepositEvent → List (Except Eth1Error DepositEvent) → Except Eth1Error (OrderedMap Nat DepositEvent)
  | depositCountMap, [] => .ok depositCountMap
  | _, .error error :: _ => .error error
  | depositCountMap, .ok deposit :: stream =>
    let depositCountMap :=
      if deposit.blockNumber ≤ toBlock ∧ depositCountMap.has deposit.blockNumber = false then
        depositCountMap.set deposit.blockNumber deposit
      else depositCountMap
    if deposit.blockNumber < fromBlock then .ok depositCountMap else collectDeposits fromBlock toBlock depositCountMap stream

def getDepositsByBlockNumber (fromBlock toBlock : Nat) (stream : List (Except Eth1Error DepositEvent)) :
    Except Eth1Error (List DepositEvent) := do
  let depositCountMap ← collectDeposits fromBlock toBlock .empty stream
  return (depositCountMap.entries.map (·.2)).mergeSort fun a b => decide (a.blockNumber ≤ b.blockNumber)

def getDepositRootByDepositCount (hashTreeRoot : List Root → Root) (depositCounts : List Nat) (depositRootTree : List Root) :
    Except Eth1Error (OrderedMap Nat Root) := do
  -- Unique + sort numerically in descending order
  let depositCounts := depositCounts.dedup.mergeSort fun a b => decide (b ≤ a)
  match depositCounts.head? with
  | none => pure ()
  | some depositCount =>
    let maxIndex : Int := depositCount - 1
    let treeLength : Int := depositRootTree.length - 1
    if maxIndex > treeLength then
      throw (.error ("Not enough deposit roots for index " ++ toString maxIndex ++ ", current length " ++ toString treeLength))
  let (map, _) ← depositCounts.foldlM (fun (map, depositRootTree) depositCount => do
    let depositRootTree ← getTreeAtIndex depositRootTree (depositCount - 1)
    return (map.set depositCount (hashTreeRoot depositRootTree), depositRootTree)) (OrderedMap.empty, depositRootTree)
  return map

def considered (blocks : List Eth1Block) : Option Nat → List Eth1Block
  | none | some 0 => blocks
  | some (last + 1) => blocks.filter fun block => decide (block.blockNumber ≤ last + 1)

def getEth1DataForBlocks (hashTreeRoot : List Root → Root) (blocks : List Eth1Block)
    (depositDescendingStream : List (Except Eth1Error DepositEvent)) (depositRootTree : List Root)
    (lastProcessedDepositBlockNumber : Option Nat) : Except Eth1Error (List Eth1DataOfBlock) := do
  -- Exclude blocks for which there is no valid eth1 data deposit
  let blocks := considered blocks lastProcessedDepositBlockNumber
  match blocks.head?, blocks.getLast? with
  | some first, some last =>
    let fromBlock := first.blockNumber
    let toBlock := last.blockNumber
    let depositsByBlockNumber ← getDepositsByBlockNumber fromBlock toBlock depositDescendingStream
    if depositsByBlockNumber.length = 0 then
      throw (.error ("No deposits found for block range [" ++ toString fromBlock ++ ", " ++ toString toBlock ++ "]"))
    let depositCounts := depositsByBlockNumber.map fun event => event.index + 1
    let depositRootByDepositCount ← getDepositRootByDepositCount hashTreeRoot depositCounts depositRootTree
    blocks.mapM fun block => do
      let deposit ← (Util.binarySearchLte depositsByBlockNumber block.blockNumber (·.blockNumber)).mapError searchError
      let depositCount := deposit.index + 1
      match depositRootByDepositCount.get? depositCount with
      | none => throw (.error ("No depositRoot for depositCount " ++ toString depositCount))
      | some depositRoot => return { block with depositCount, depositRoot }
  -- A valid block can be constructed using previous `state.eth1Data`, don't throw
  | _, _ => return []

/-! ## The deposit of a block -/

def reached (fromBlock : Nat) : List DepositEvent → List DepositEvent
  | [] => []
  | deposit :: deposits => if deposit.blockNumber < fromBlock then [deposit] else deposit :: reached fromBlock deposits

theorem reached_subset (fromBlock : Nat) : ∀ deposits : List DepositEvent, reached fromBlock deposits ⊆ deposits
  | [] => List.Subset.refl _
  | deposit :: deposits => by
    unfold reached
    split
    · intro x hx
      rw [List.mem_singleton.1 hx]
      exact List.mem_cons_self
    · exact List.cons_subset_cons deposit (reached_subset fromBlock deposits)

theorem collectDeposits_eq (fromBlock toBlock : Nat) : ∀ (deposits seen : List DepositEvent)
    (map : OrderedMap Nat DepositEvent),
    (∀ k, map.get? k = if k ≤ toBlock then seen.find? (fun e => decide (e.blockNumber = k)) else none) →
    ∃ map', collectDeposits fromBlock toBlock map (deposits.map .ok) = .ok map' ∧ ∀ k, map'.get? k = if k ≤ toBlock then
        (seen ++ reached fromBlock deposits).find? (fun e => decide (e.blockNumber = k)) else none
  | [], seen, map, hmap => by
    refine ⟨map, rfl, fun k => ?_⟩
    unfold reached
    rw [List.append_nil]
    exact hmap k
  | deposit :: deposits, seen, map, hmap => by
    have hstep : ∀ k, (if deposit.blockNumber ≤ toBlock ∧ map.has deposit.blockNumber = false then
          map.set deposit.blockNumber deposit else map).get? k =
        if k ≤ toBlock then (seen ++ [deposit]).find? (fun e => decide (e.blockNumber = k)) else none := by
      intro k
      have hhas : map.has deposit.blockNumber = false ↔ map.get? deposit.blockNumber = none := by
        unfold OrderedMap.has
        rw [Option.isSome_eq_false_iff, Option.isNone_iff_eq_none]
      by_cases hset : deposit.blockNumber ≤ toBlock ∧ map.has deposit.blockNumber = false
      · have hnone := hhas.1 hset.2
        rw [hmap, if_pos hset.1] at hnone
        rw [if_pos hset, OrderedMap.get?_set, hmap, List.find?_append]
        by_cases hk : k = deposit.blockNumber
        · subst hk
          rw [if_pos rfl, if_pos hset.1, hnone]
          simp
        · have hk' : ¬ deposit.blockNumber = k := fun h => hk h.symm
          rw [if_neg hk]
          simp [hk']
      · rw [if_neg hset, hmap, List.find?_append]
        by_cases hk : k ≤ toBlock
        · rw [if_pos hk, if_pos hk]
          by_cases heq : deposit.blockNumber = k
          · -- the block has a deposit already
            have hsome : seen.find? (fun e => decide (e.blockNumber = k)) ≠ none := by
              intro hnone
              refine hset ⟨heq ▸ hk, hhas.2 ?_⟩
              rw [hmap, heq, if_pos hk, hnone]
            obtain ⟨event, hevent⟩ := Option.ne_none_iff_exists'.1 hsome
            rw [hevent]
            rfl
          · simp [heq]
        · rw [if_neg hk, if_neg hk]
    rw [List.map_cons]
    unfold collectDeposits reached
    by_cases hstop : deposit.blockNumber < fromBlock
    · rw [if_pos hstop, if_pos hstop]
      exact ⟨_, rfl, hstep⟩
    · rw [if_neg hstop, if_neg hstop]
      obtain ⟨map', hrun, hmap'⟩ := collectDeposits_eq fromBlock toBlock deposits (seen ++ [deposit]) _ hstep
      refine ⟨map', hrun, fun k => ?_⟩
      rw [hmap', List.append_assoc, List.singleton_append]

theorem getDepositsByBlockNumber_eq (fromBlock toBlock : Nat) (deposits : List DepositEvent) :
    ∃ found, getDepositsByBlockNumber fromBlock toBlock (deposits.map .ok) = .ok found ∧
      found.Pairwise (fun a b => a.blockNumber < b.blockNumber) ∧
      ∀ event, event ∈ found ↔ event.blockNumber ≤ toBlock ∧
        (reached fromBlock deposits).find? (fun e => decide (e.blockNumber = event.blockNumber)) = some event := by
  obtain ⟨map, hrun, hmap⟩ := collectDeposits_eq fromBlock toBlock deposits [] .empty fun k => by
    split <;> rfl
  have hkey : ∀ e ∈ map.entries, e.1 = e.2.blockNumber := by
    intro e he
    have hget := OrderedMap.get?_eq_some_iff.2 he
    rw [hmap] at hget
    split at hget
    · have hfound := List.find?_some hget
      exact (of_decide_eq_true hfound).symm
    · cases hget
  refine ⟨(map.entries.map (·.2)).mergeSort fun a b => decide (a.blockNumber ≤ b.blockNumber), ?_, ?_, fun event => ?_⟩
  · unfold getDepositsByBlockNumber
    rw [hrun]
    rfl
  · have hle : ((map.entries.map (·.2)).mergeSort fun a b => decide (a.blockNumber ≤ b.blockNumber)).Pairwise
        (fun a b => decide (a.blockNumber ≤ b.blockNumber) = true) :=
      List.pairwise_mergeSort (fun a b c hab hbc => by
        rw [decide_eq_true_eq] at hab hbc ⊢
        omega) (fun a b => by
        rw [Bool.or_eq_true, decide_eq_true_eq, decide_eq_true_eq]
        omega) _
    have hne : ((map.entries.map (·.2)).mergeSort fun a b => decide (a.blockNumber ≤ b.blockNumber)).Pairwise
        (fun a b => a.blockNumber ≠ b.blockNumber) := by
      refine (List.mergeSort_perm _ _).symm.pairwise ?_ fun hab => hab.symm
      have hnodup := map.nodup
      rw [List.Nodup, List.pairwise_map] at hnodup
      rw [List.pairwise_map]
      refine hnodup.imp_of_mem fun ha hb hab => ?_
      rw [← hkey _ ha, ← hkey _ hb]
      exact hab
    refine (hle.and hne).imp fun hab => ?_
    rw [decide_eq_true_eq] at hab
    omega
  · rw [List.mem_mergeSort, List.mem_map]
    constructor
    · rintro ⟨e, he, rfl⟩
      have hget := OrderedMap.get?_eq_some_iff.2 he
      rw [hkey e he, hmap] at hget
      split at hget
      · rename_i hle
        exact ⟨hle, hget⟩
      · cases hget
    · rintro ⟨hle, hfind⟩
      refine ⟨(event.blockNumber, event), OrderedMap.get?_eq_some_iff.1 ?_, rfl⟩
      rw [hmap, if_pos hle]
      exact hfind

theorem find?_reached (hfrom : fromBlock ≤ blockNumber) {event : DepositEvent} :
    ∀ {deposits : List DepositEvent}, deposits.Pairwise (fun a b => b.blockNumber ≤ a.blockNumber) →
    deposits.find? (fun e => decide (e.blockNumber ≤ blockNumber)) = some event →
    (reached fromBlock deposits).find? (fun e => decide (e.blockNumber = event.blockNumber)) = some event
  | [], _, h => by cases h
  | deposit :: deposits, hsorted, h => by
    have hle : event.blockNumber ≤ blockNumber := by simpa using List.find?_some h
    rw [List.find?_cons] at h
    unfold reached
    by_cases hdeposit : deposit.blockNumber ≤ blockNumber
    · rw [decide_eq_true hdeposit] at h
      cases h
      split <;> simp
    · rw [decide_eq_false hdeposit] at h
      have hstop : ¬ deposit.blockNumber < fromBlock := by omega
      have hne : ¬ deposit.blockNumber = event.blockNumber := by omega
      rw [if_neg hstop, List.find?_cons, decide_eq_false hne]
      exact find?_reached hfrom (List.pairwise_cons.1 hsorted).2 h

theorem deposit_eq (hsorted : deposits.Pairwise (fun a b => b.blockNumber ≤ a.blockNumber))
    (hfound : getDepositsByBlockNumber fromBlock toBlock (deposits.map .ok) = .ok found) (hfrom : fromBlock ≤ blockNumber)
    (hto : blockNumber ≤ toBlock) :
    match deposits.find? (fun e => decide (e.blockNumber ≤ blockNumber)) with
    | some event => (Util.binarySearchLte found blockNumber (·.blockNumber)).mapError searchError = .ok event ∧ event ∈ found
    | none => ∃ error, (Util.binarySearchLte found blockNumber (·.blockNumber)).mapError searchError = .error error := by
  obtain ⟨found', hrun, hascending, hmem⟩ := getDepositsByBlockNumber_eq fromBlock toBlock deposits
  rw [hrun] at hfound
  cases hfound
  have hsearch := binarySearchLte_spec hascending blockNumber
  cases hfind : deposits.find? (fun e => decide (e.blockNumber ≤ blockNumber)) with
  | none =>
    rcases hsearch with ⟨item, -, hitem, hle, -⟩ | ⟨herror, -⟩
    · have hdeposit := reached_subset fromBlock _ (List.mem_of_find?_eq_some ((hmem item).1 hitem).2)
      have hnone := List.find?_eq_none.1 hfind item hdeposit
      exact absurd (decide_eq_true hle) hnone
    · exact herror
  | some event =>
    have hle : event.blockNumber ≤ blockNumber := by simpa using List.find?_some hfind
    have hevent : event ∈ found := (hmem event).2 ⟨hle.trans hto, find?_reached hfrom hsorted hfind⟩
    rcases hsearch with ⟨item, hitem, hin, hitemle, hmax⟩ | ⟨-, habove⟩
    · refine ⟨?_, hevent⟩
      -- both are the first of the greatest block
      have hge : event.blockNumber ≤ item.blockNumber := hmax event hevent hle
      have hle' : item.blockNumber ≤ event.blockNumber := by
        have hdeposit := reached_subset fromBlock _ (List.mem_of_find?_eq_some ((hmem item).1 hin).2)
        obtain ⟨-, before, after, rfl, hbefore⟩ := List.find?_eq_some_iff_append.1 hfind
        rcases List.mem_append.1 hdeposit with hdeposit | hdeposit
        · have := hbefore item hdeposit
          simp at this
          omega
        · rcases List.mem_cons.1 hdeposit with rfl | hdeposit
          · exact Nat.le_refl _
          · exact (List.pairwise_cons.1 (List.pairwise_append.1 hsorted).2.1).1 item hdeposit
      have heq : item.blockNumber = event.blockNumber := by omega
      have hfirst := ((hmem item).1 hin).2
      have hfirst' := ((hmem event).1 hevent).2
      rw [heq, hfirst'] at hfirst
      cases hfirst
      exact hitem
    · have := habove event hevent
      omega

/-! ## The root of a count -/

variable {tree : List Root}

theorem foldlM_roots (hashTreeRoot : List Root → Root) : ∀ (counts : List Nat) (map : OrderedMap Nat Root)
    (cut : Nat), (∀ count ∈ counts, 0 < count ∧ count ≤ cut) → counts.Pairwise (fun a b => b ≤ a) → cut ≤ tree.length →
    ∃ result, counts.foldlM (fun (state : OrderedMap Nat Root × List Root) depositCount => do
        let depositRootTree ← getTreeAtIndex state.2 (depositCount - 1)
        return (state.1.set depositCount (hashTreeRoot depositRootTree), depositRootTree)) (map, tree.take cut) = .ok result ∧
      ∀ k, result.1.get? k = if k ∈ counts then some (hashTreeRoot (tree.take k)) else map.get? k
  | [], map, cut, _, _, _ => ⟨_, rfl, fun k => by simp⟩
  | count :: counts, map, cut, hcounts, hsorted, hcut => by
    obtain ⟨hpos, hle⟩ := hcounts count List.mem_cons_self
    obtain ⟨hbelow, hsorted'⟩ := List.pairwise_cons.1 hsorted
    have htree : getTreeAtIndex (tree.take cut) (count - 1) = .ok (tree.take count) := by
      rw [getTreeAtIndex_eq (by rw [List.length_take]; omega), List.take_take]
      congr 2
      omega
    obtain ⟨result, hrun, hresult⟩ := foldlM_roots hashTreeRoot counts (map.set count (hashTreeRoot (tree.take count))) count
      (fun other hother => ⟨(hcounts other (List.mem_cons_of_mem _ hother)).1, hbelow other hother⟩) hsorted' (hle.trans hcut)
    refine ⟨result, ?_, fun k => ?_⟩
    · rw [List.foldlM_cons, htree]
      exact hrun
    · rw [hresult, OrderedMap.get?_set]
      by_cases hk : k ∈ counts
      · simp [hk]
      · by_cases heq : k = count
        · simp [heq]
        · simp [hk, heq]

theorem getDepositRootByDepositCount_eq (hashTreeRoot : List Root → Root) {counts : List Nat}
    (hcounts : ∀ count ∈ counts, 0 < count ∧ count ≤ tree.length) :
    ∃ map, getDepositRootByDepositCount hashTreeRoot counts tree = .ok map ∧
      ∀ count ∈ counts, map.get? count = some (hashTreeRoot (tree.take count)) := by
  have hsorted : (counts.dedup.mergeSort fun a b => decide (b ≤ a)).Pairwise (fun a b => b ≤ a) :=
    List.pairwise_mergeSort' (· ≥ ·) counts.dedup
  have hmem : ∀ count, count ∈ (counts.dedup.mergeSort fun a b => decide (b ≤ a)) ↔ count ∈ counts := by
    intro count
    rw [List.mem_mergeSort, List.mem_dedup]
  have hbound : ∀ count ∈ (counts.dedup.mergeSort fun a b => decide (b ≤ a)), 0 < count ∧ count ≤ tree.length :=
    fun count hcount => hcounts count ((hmem count).1 hcount)
  obtain ⟨result, hrun, hresult⟩ := foldlM_roots hashTreeRoot _ .empty tree.length hbound hsorted (Nat.le_refl _)
  rw [List.take_length] at hrun
  refine ⟨result.1, ?_, fun count hcount => ?_⟩
  · unfold getDepositRootByDepositCount
    dsimp only
    cases hhead : (counts.dedup.mergeSort fun a b => decide (b ≤ a)).head? with
    | none =>
      rw [hrun]
      rfl
    | some first =>
      have hfirst := hbound first (List.mem_of_head? hhead)
      dsimp only
      rw [if_neg (by omega)]
      rw [hrun]
      rfl
  · rw [hresult, if_pos ((hmem count).2 hcount)]

/-! ## The deposits up to a block -/

namespace DepositLog

variable {values : Eth1Values} (log : DepositLog values)

theorem find?_reverse (blockNumber : Nat) :
    match log.events.reverse.find? (fun e => decide (e.blockNumber ≤ blockNumber)) with
    | some event => event.index + 1 = log.countUpTo blockNumber
    | none => log.countUpTo blockNumber = 0 := by
  cases hfind : log.events.reverse.find? (fun e => decide (e.blockNumber ≤ blockNumber)) with
  | none =>
    refine List.countP_eq_zero.2 fun event hevent => ?_
    exact List.find?_eq_none.1 hfind event (List.mem_reverse.2 hevent)
  | some event =>
    obtain ⟨hle, after, before, hsplit, hafter⟩ := List.find?_eq_some_iff_append.1 hfind
    rw [decide_eq_true_eq] at hle
    have hevents : log.events = before.reverse ++ event :: after.reverse := by
      rw [← List.reverse_reverse log.events, hsplit]
      simp
    have hindex : event.index = before.reverse.length := by
      refine log.index_eq _ event ?_
      rw [hevents, List.getElem?_append_right (Nat.le_refl _), Nat.sub_self]
      rfl
    have hordered := log.ordered
    rw [hevents, List.pairwise_append] at hordered
    have hbefore : before.reverse.countP (fun e => decide (e.blockNumber ≤ blockNumber)) = before.reverse.length := by
      rw [List.countP_eq_length]
      intro e he
      have := hordered.2.2 e he event List.mem_cons_self
      exact decide_eq_true (by omega)
    have hafter' : after.reverse.countP (fun e => decide (e.blockNumber ≤ blockNumber)) = 0 := by
      rw [List.countP_eq_zero]
      intro e he
      have := hafter e (List.mem_reverse.1 he)
      simpa using this
    dsimp only
    unfold countUpTo
    rw [hevents, List.countP_append, List.countP_cons_of_pos (by simpa using hle), hbefore, hafter', hindex]

theorem mem_of_countUpTo {blockNumber : Nat} : 0 < log.countUpTo blockNumber ↔ ∃ event ∈ log.events, event.blockNumber ≤ blockNumber := by
  unfold countUpTo
  simp

end DepositLog

variable {blocks : List Eth1Block}

theorem mem_considered {last : Option Nat} {block : Eth1Block} (h : block ∈ considered blocks last) :
    block ∈ blocks := by
  unfold considered at h
  split at h
  · exact h
  · exact h
  · exact List.mem_of_mem_filter h

theorem blockNumber_le_of_sorted (h : blocks.Pairwise (fun a b => a.blockNumber ≤ b.blockNumber)) {first last : Eth1Block}
    (hfirst : blocks.head? = some first) (hlast : blocks.getLast? = some last) :
    ∀ block ∈ blocks, first.blockNumber ≤ block.blockNumber ∧ block.blockNumber ≤ last.blockNumber := by
  intro block hblock
  obtain ⟨rest, rfl⟩ := List.head?_eq_some_iff.1 hfirst
  obtain ⟨init, hinit⟩ := List.getLast?_eq_some_iff.1 hlast
  constructor
  · rcases List.mem_cons.1 hblock with rfl | hblock
    · exact Nat.le_refl _
    · exact (List.pairwise_cons.1 h).1 block hblock
  · rw [hinit] at h hblock
    rcases List.mem_append.1 hblock with hblock | hblock
    · exact (List.pairwise_append.1 h).2.2 block hblock last List.mem_cons_self
    · rw [List.mem_singleton.1 hblock]

theorem considered_sublist (blocks : List Eth1Block) (last : Option Nat) : (considered blocks last).Sublist blocks := by
  unfold considered
  split
  · exact List.Sublist.refl _
  · exact List.Sublist.refl _
  · exact List.filter_sublist

def dataOf {values : Eth1Values} (hashTreeRoot : List Root → Root) (log : DepositLog values) (tree : List Root)
    (block : Eth1Block) : Eth1DataOfBlock :=
  { block with
    depositCount := log.countUpTo block.blockNumber
    depositRoot := hashTreeRoot (tree.take (log.countUpTo block.blockNumber)) }

theorem getEth1DataForBlocks_eq {values : Eth1Values} (hashTreeRoot : List Root → Root)
    (hblocks : blocks.Pairwise (fun a b => a.blockNumber ≤ b.blockNumber)) (log : DepositLog values)
    (htree : log.events.length ≤ tree.length) (last : Option Nat) :
    ((∀ block ∈ considered blocks last, 0 < log.countUpTo block.blockNumber) →
      getEth1DataForBlocks hashTreeRoot blocks (log.events.reverse.map .ok) tree last =
        .ok ((considered blocks last).map (dataOf hashTreeRoot log tree))) ∧
    ((∃ block ∈ considered blocks last, log.countUpTo block.blockNumber = 0) →
      ∃ error, getEth1DataForBlocks hashTreeRoot blocks (log.events.reverse.map .ok) tree last = .error error) := by
  have hsorted := hblocks.sublist (considered_sublist blocks last)
  unfold getEth1DataForBlocks
  generalize considered blocks last = considered at hsorted
  dsimp only
  cases hhead : considered.head? with
  | none =>
    rw [List.head?_eq_none_iff] at hhead
    subst hhead
    refine ⟨fun _ => rfl, ?_⟩
    rintro ⟨block, hblock, -⟩
    exact absurd hblock List.not_mem_nil
  | some first =>
    obtain ⟨final, hlast⟩ : ∃ final, considered.getLast? = some final := by
      cases hnone : considered.getLast? with
      | some final => exact ⟨final, rfl⟩
      | none =>
        rw [List.getLast?_eq_none_iff] at hnone
        rw [hnone] at hhead
        cases hhead
    have hrange := blockNumber_le_of_sorted hsorted hhead hlast
    have hdescending : log.events.reverse.Pairwise (fun a b => b.blockNumber ≤ a.blockNumber) :=
      List.pairwise_reverse.2 log.ordered
    obtain ⟨found, hfound, -, hmem⟩ := getDepositsByBlockNumber_eq first.blockNumber final.blockNumber log.events.reverse
    have hcounts : ∀ count ∈ found.map (fun event => event.index + 1), 0 < count ∧ count ≤ tree.length := by
      intro count hcount
      obtain ⟨event, hevent, rfl⟩ := List.mem_map.1 hcount
      have hstored : event ∈ log.events :=
        List.mem_reverse.1 (reached_subset _ _ (List.mem_of_find?_eq_some ((hmem event).1 hevent).2))
      obtain ⟨i, hi⟩ := List.getElem?_of_mem hstored
      have hindex := log.index_eq i event hi
      have hlt := (List.getElem?_eq_some_iff.1 hi).1
      omega
    obtain ⟨map, hmap, hroot⟩ := getDepositRootByDepositCount_eq hashTreeRoot hcounts
    -- the pass over one block
    have hblock : ∀ block ∈ considered,
        (0 < log.countUpTo block.blockNumber → found ≠ [] ∧
          ((Util.binarySearchLte found block.blockNumber (·.blockNumber)).mapError searchError >>= fun deposit =>
            match map.get? (deposit.index + 1) with
            | none => throw (.error ("No depositRoot for depositCount " ++ toString (deposit.index + 1)))
            | some depositRoot => return { block with depositCount := deposit.index + 1, depositRoot }) =
            .ok (dataOf hashTreeRoot log tree block)) ∧
        (log.countUpTo block.blockNumber = 0 →
          ∃ error, (Util.binarySearchLte found block.blockNumber (·.blockNumber)).mapError searchError = .error error) := by
      intro block hblock
      obtain ⟨hfrom, hto⟩ := hrange block hblock
      have hdeposit := deposit_eq hdescending hfound hfrom hto
      have hcount := log.find?_reverse block.blockNumber
      cases hfind : log.events.reverse.find? (fun e => decide (e.blockNumber ≤ block.blockNumber)) with
      | none =>
        rw [hfind] at hdeposit hcount
        exact ⟨fun hpos => by omega, fun _ => hdeposit⟩
      | some event =>
        rw [hfind] at hdeposit hcount
        obtain ⟨hsearch, hevent⟩ := hdeposit
        refine ⟨fun _ => ⟨List.ne_nil_of_mem hevent, ?_⟩, fun hzero => by omega⟩
        rw [hsearch, bind_eq_ok]
        refine ⟨event, rfl, ?_⟩
        rw [hroot _ (List.mem_map_of_mem hevent), hcount]
        rfl
    have hfirst : first ∈ considered := List.mem_of_head? hhead
    rw [hlast]
    dsimp only
    rw [hfound]
    constructor
    · intro hall
      have hne : ¬ found.length = 0 := by
        rw [List.length_eq_zero_iff]
        exact ((hblock first hfirst).1 (hall first hfirst)).1
      show (if found.length = 0 then _ else _ >>= _) = _
      rw [if_neg hne, hmap]
      exact mapM_eq_map considered fun block hmem => ((hblock block hmem).1 (hall block hmem)).2
    · rintro ⟨block, hmem', hzero⟩
      show ∃ error, (if found.length = 0 then _ else _ >>= _) = _
      by_cases hempty : found.length = 0
      · rw [if_pos hempty]
        exact ⟨_, rfl⟩
      · rw [if_neg hempty, hmap]
        obtain ⟨error, herror⟩ := (hblock block hmem').2 hzero
        refine mapM_eq_error ⟨block, hmem', error, ?_⟩
        rw [herror]
        rfl

end Lodestar.Eth1
