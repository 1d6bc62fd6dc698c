import Mathlib.Data.List.Induction
import Lodestar.Eth1.DepositsCache
/-!
# ForBlockProduction — the updates that follow the eth1 chain

An update fetches the deposits behind the last processed block up to the follow distance and stores them; the pointer goes to
the end of the range whether that is above it or below.  `Follows` is what a reported height has to meet, and `Tracks` what
every update keeps when it does: the stored deposits are those of the blocks up to the pointer.
-/
namespace Lodestar.Eth1

open Lib Lib.SortedMap Db Db.BeaconDb Eth1DepositsCache
open scoped Lib.BigEndian

structure Eth1Config where
  ETH1_FOLLOW_DISTANCE : Nat
  /-- `eth1Provider.deployBlock`. -/
  deployBlock : Nat

structure Eth1Provider where
  getBlockNumber : Except String Nat
  getDepositEvents : (fromBlock toBlock : Nat) → Except String (List DepositEvent)
  getBlocksByNumber : (fromBlock toBlock : Nat) → Except String (List Eth1Block)

structure Eth1ForBlockProduction where
  depositsCache : Eth1DepositsCache
  lastProcessedDepositBlockNumber : Option Nat := none

namespace Eth1ForBlockProduction

variable (values : Eth1Values) (config : Eth1Config)

def MAX_BLOCKS_PER_BLOCK_QUERY : Nat := 1000

def MAX_BLOCKS_PER_LOG_QUERY : Nat := 1000

def getFromBlockToFetch (lastCachedBlock : Option Nat) : Nat :=
  max (match lastCachedBlock with
    | none | some 0 => 0
    | some (last + 1) => last + 1 + 1) config.deployBlock

/-- Block zero is read from the database again, like no block. -/
def getLastProcessedDepositBlockNumber (s : Eth1ForBlockProduction) :
    Except Eth1Error (Option Nat) × Eth1ForBlockProduction :=
  match s.lastProcessedDepositBlockNumber with
  | some (last + 1) => (.ok (some (last + 1)), s)
  | none | some 0 =>
    match getHighestDepositEventBlockNumber values s.depositsCache with
    | .error error => (.error error, s)
    | .ok highest => (.ok highest, { s with lastProcessedDepositBlockNumber := highest })

section

variable (provider : Eth1Provider) (remoteFollowBlock : Nat) (s : Eth1ForBlockProduction)

def updateDepositCache : Except Eth1Error Bool × Eth1ForBlockProduction :=
  match getLastProcessedDepositBlockNumber values s with
  | (.error error, s) => (.error error, s)
  | (.ok lastProcessedDepositBlockNumber, s) =>
    let fromBlock := getFromBlockToFetch config lastProcessedDepositBlockNumber
    let toBlock := min remoteFollowBlock (fromBlock + MAX_BLOCKS_PER_LOG_QUERY - 1)
    match provider.getDepositEvents fromBlock toBlock with
    | .error message => (.error (.provider message), s)
    | .ok depositEvents =>
      match add values s.depositsCache depositEvents with
      | (.error error, depositsCache) => (.error error, { s with depositsCache })
      | (.ok (), depositsCache) =>
        -- Store the `toBlock` since that block may not contain
        (.ok (decide (toBlock ≥ remoteFollowBlock)), ⟨depositsCache, some toBlock⟩)

def getHighestCachedBlockNumber (db : Store) : Except Eth1Error (Option Nat) := do
  let highestEth1Data ← ofDb ((eth1Data values.toValues).lastValue db)
  return highestEth1Data.map values.eth1BlockNumber

def addEth1Datas (db : Store) (eth1Datas : List Eth1DataOfBlock) : Store :=
  (eth1Data values.toValues).batchPut db (eth1Datas.map fun data => (.number data.timestamp, values.ofEth1Data data))

def updateBlockCache : Except Eth1Error Bool × Eth1ForBlockProduction :=
  match getHighestCachedBlockNumber values s.depositsCache.db with
  | .error error => (.error error, s)
  | .ok lastCachedBlock =>
    match getLastProcessedDepositBlockNumber values s with
    | (.error error, s) => (.error error, s)
    | (.ok lastProcessedDepositBlockNumber, s) =>
      match getLowestDepositEventBlockNumber values s.depositsCache with
      | .error error => (.error error, s)
      | .ok lowestEventBlockNumber =>
        match lowestEventBlockNumber, lastProcessedDepositBlockNumber with
        | some lowestEventBlockNumber, some lastProcessedDepositBlockNumber =>
          let fromBlock := max (getFromBlockToFetch config lastCachedBlock) lowestEventBlockNumber
          -- Block range is inclusive
          let toBlock := min remoteFollowBlock
            (min (fromBlock + MAX_BLOCKS_PER_BLOCK_QUERY - 1) lastProcessedDepositBlockNumber)
          match provider.getBlocksByNumber fromBlock toBlock with
          | .error message => (.error (.provider message), s)
          | .ok eth1Blocks =>
            match Eth1DepositsCache.getEth1DataForBlocks values s.depositsCache eth1Blocks
                (some lastProcessedDepositBlockNumber) with
            | (.error error, depositsCache) => (.error error, { s with depositsCache })
            | (.ok eth1Datas, depositsCache) =>
              (.ok (decide (toBlock ≥ remoteFollowBlock)),
                { s with depositsCache := { depositsCache with db := addEth1Datas values depositsCache.db eth1Datas } })
        -- Do not fetch any blocks if no deposits have been fetched yet
        | _, _ => (.ok false, s)

end

def update (provider : Eth1Provider) (s : Eth1ForBlockProduction) : Except Eth1Error Bool × Eth1ForBlockProduction :=
  match provider.getBlockNumber with
  | .error message => (.error (.provider message), s)
  | .ok remoteHighestBlock =>
    let remoteFollowBlock := remoteHighestBlock - config.ETH1_FOLLOW_DISTANCE
    match updateDepositCache values config provider remoteFollowBlock s with
    | (.error error, s) => (.error error, s)
    | (.ok catchedUpDeposits, s) =>
      match updateBlockCache values config provider remoteFollowBlock s with
      | (.error error, s) => (.error error, s)
      | (.ok catchedUpBlocks, s) => (.ok (catchedUpDeposits && catchedUpBlocks), s)

/-- The state after updates, each seeing the node as it is then; one that throws leaves what it had done. -/
def updates (s : Eth1ForBlockProduction) (providers : List Eth1Provider) : Eth1ForBlockProduction :=
  providers.foldl (fun s provider => (update values config provider s).2) s

/-! ## What an update keeps -/

def lastProcessed (s : Eth1ForBlockProduction) : Except Eth1Error (Option Nat) :=
  match s.lastProcessedDepositBlockNumber with
  | some (last + 1) => .ok (some (last + 1))
  | none | some 0 => getHighestDepositEventBlockNumber values s.depositsCache

/-- Unless the fetch fails, the follow block is not below the last processed block, and that is not block zero. -/
def Follows (provider : Eth1Provider) (s : Eth1ForBlockProduction) : Prop :=
  ∀ height last events, provider.getBlockNumber = .ok height → lastProcessed values s = .ok (some last) →
    provider.getDepositEvents (getFromBlockToFetch config (some last))
      (min (height - config.ETH1_FOLLOW_DISTANCE) (getFromBlockToFetch config (some last) + MAX_BLOCKS_PER_LOG_QUERY - 1)) =
        .ok events →
    0 < last ∧ last ≤ height - config.ETH1_FOLLOW_DISTANCE

variable {values config}

section

variable (log : DepositLog values)

/-- The node gives the deposits of the log in a range of blocks it has; a range that ends before it starts has none. -/
def Serves (provider : Eth1Provider) : Prop :=
  ∀ height fromBlock toBlock events, provider.getBlockNumber = .ok height → toBlock ≤ height →
    provider.getDepositEvents fromBlock toBlock = .ok events →
    events = log.events.filter fun e => decide (fromBlock ≤ e.blockNumber) && decide (e.blockNumber ≤ toBlock)

def pointer (s : Eth1ForBlockProduction) : Nat := s.lastProcessedDepositBlockNumber.getD 0

def WholeBlocks (n : Nat) : Prop :=
  ∀ (i j : Nat) event event', log.events[i]? = some event → log.events[j]? = some event' → i < n → n ≤ j →
    event.blockNumber < event'.blockNumber

def UpTo (n : Nat) (last : Option Nat) : Prop :=
  ∀ (i : Nat) event, log.events[i]? = some event → (i < n ↔ ∃ block ∈ last, event.blockNumber ≤ block)

/-- The stored deposits are a prefix of the log, of whole blocks, and up to the pointer when there is one. -/
def Tracks (s : Eth1ForBlockProduction) : Prop :=
  ∃ n, Stored s.depositsCache (log.take n) ∧ WholeBlocks log n ∧
    ∀ last, s.lastProcessedDepositBlockNumber = some (last + 1) → UpTo log n (some (last + 1))

end

variable {log : DepositLog values} {n block toBlock height : Nat}

theorem UpTo.wholeBlocks (h : UpTo log n (some block)) : WholeBlocks log n := by
  intro i j event event' hi hj hlt hle
  obtain ⟨_, hsome, hbefore⟩ := (h i event hi).1 hlt
  cases hsome
  have hafter : ¬ event'.blockNumber ≤ block := fun hbelow => by
    have := (h j event' hj).2 ⟨block, rfl, hbelow⟩
    omega
  omega

theorem WholeBlocks.upTo (h : WholeBlocks log n) :
    UpTo log n ((log.take n).events.getLast?.map (·.blockNumber)) := by
  intro i event hi
  cases hlast : (log.take n).events.getLast? with
  | none =>
    rw [List.getLast?_eq_none_iff] at hlast
    have hzero : ¬ i < n := by
      intro hlt
      have hmem : (log.take n).events[i]? = some event := by
        show (log.events.take n)[i]? = _
        rw [List.getElem?_take, if_pos hlt]
        exact hi
      rw [hlast] at hmem
      cases hmem
    simp [hzero]
  | some newest =>
    have hnewest := List.getLast?_eq_getElem? ▸ hlast
    obtain ⟨hbound, -⟩ := List.getElem?_eq_some_iff.1 hnewest
    have hnewest' : log.events[(log.take n).events.length - 1]? = some newest := by
      have htake : (log.events.take n)[(log.take n).events.length - 1]? = some newest := hnewest
      rw [List.getElem?_take] at htake
      split at htake
      · exact htake
      · cases htake
    have hle : (log.take n).events.length = min n log.events.length := List.length_take
    have hi' := (List.getElem?_eq_some_iff.1 hi).1
    rw [Option.map_some]
    constructor
    · intro hlt
      refine ⟨_, rfl, ?_⟩
      have hordered := log.lt_countUpTo_iff hi newest.blockNumber
      have hordered' := log.lt_countUpTo_iff hnewest' newest.blockNumber
      omega
    · rintro ⟨_, hsome, hbelow⟩
      cases hsome
      by_contra hnot
      have := h _ i newest event hnewest' hi (by omega) (by omega)
      omega

theorem getLastProcessed_eq {s : Eth1ForBlockProduction} (h : Tracks log s) :
    ∃ last s' n, getLastProcessedDepositBlockNumber values s = (.ok last, s') ∧ lastProcessed values s = .ok last ∧
      s'.depositsCache = s.depositsCache ∧ Tracks log s' ∧ pointer s ≤ pointer s' ∧ pointer s' = last.getD 0 ∧
      Stored s.depositsCache (log.take n) ∧ UpTo log n last := by
  obtain ⟨n, hstored, hwhole, hpointer⟩ := h
  unfold getLastProcessedDepositBlockNumber lastProcessed
  have hread : ∀ pointer, s.lastProcessedDepositBlockNumber = pointer → pointer.getD 0 = 0 →
      ∃ last s' n, (match getHighestDepositEventBlockNumber values s.depositsCache with
        | .error error => (Except.error error, s)
        | .ok highest => (.ok highest, { s with lastProcessedDepositBlockNumber := highest })) = (.ok last, s') ∧
        getHighestDepositEventBlockNumber values s.depositsCache = .ok last ∧ s'.depositsCache = s.depositsCache ∧
        Tracks log s' ∧ Eth1ForBlockProduction.pointer s ≤ Eth1ForBlockProduction.pointer s' ∧
        Eth1ForBlockProduction.pointer s' = last.getD 0 ∧ Stored s.depositsCache (log.take n) ∧ UpTo log n last := by
    intro pointer hs hzero
    rw [hstored.getHighest_eq]
    refine ⟨_, _, n, rfl, rfl, rfl, ⟨n, hstored, hwhole, fun last hlast => ?_⟩, ?_, rfl, hstored, hwhole.upTo⟩
    · have hupTo := hwhole.upTo
      dsimp only at hlast
      rw [hlast] at hupTo
      exact hupTo
    · show s.lastProcessedDepositBlockNumber.getD 0 ≤ _
      rw [hs, hzero]
      exact Nat.zero_le _
  cases hs : s.lastProcessedDepositBlockNumber with
  | none => exact hread none hs rfl
  | some last =>
    cases last with
    | zero => exact hread (some 0) hs rfl
    | succ last =>
      have hvalue : pointer s = last + 1 := by
        unfold pointer
        rw [hs]
        rfl
      exact ⟨_, s, n, rfl, rfl, rfl, ⟨n, hstored, hwhole, hpointer⟩, Nat.le_refl _, hvalue, hstored, hpointer last hs⟩

section

variable (hdeploy : ∀ event ∈ log.events, config.deployBlock ≤ event.blockNumber)
include hdeploy

theorem fetched_eq {last : Option Nat} (hupTo : UpTo log n last) (hpos : ∀ block ∈ last, 0 < block) :
    (log.events.filter fun e => decide (getFromBlockToFetch config last ≤ e.blockNumber) && decide (e.blockNumber ≤ toBlock)) =
      (log.events.take (log.countUpTo toBlock)).drop n := by
  refine filter_eq_drop_take _ _ _ fun i event hi => ?_
  rw [Bool.and_eq_true, decide_eq_true_eq, decide_eq_true_eq, log.lt_countUpTo_iff hi]
  refine and_congr_left fun _ => ?_
  have hbound := hdeploy event (List.mem_of_getElem? hi)
  have hi' := hupTo i event hi
  unfold getFromBlockToFetch
  cases last with
  | none =>
    have hnot : ¬ i < n := by
      rw [hi']
      rintro ⟨block, hblock, -⟩
      cases hblock
    dsimp only
    omega
  | some block =>
    have hblock := hpos block rfl
    obtain ⟨block, rfl⟩ : ∃ k, block = k + 1 := ⟨block - 1, by omega⟩
    have hiff : i < n ↔ event.blockNumber ≤ block + 1 := by
      rw [hi']
      simp
    dsimp only
    omega

variable {provider : Eth1Provider}

theorem updateDepositCache_keeps (hserves : Serves log provider) {s : Eth1ForBlockProduction} (h : Tracks log s)
    (hheight : provider.getBlockNumber = .ok height) (hfollows : Follows values config provider s) :
    Tracks log (updateDepositCache values config provider (height - config.ETH1_FOLLOW_DISTANCE) s).2 ∧
      pointer s ≤ pointer (updateDepositCache values config provider (height - config.ETH1_FOLLOW_DISTANCE) s).2 ∧
      ((∃ catchedUp, (updateDepositCache values config provider (height - config.ETH1_FOLLOW_DISTANCE) s).1 = .ok catchedUp) ∨
        ∃ message, (updateDepositCache values config provider (height - config.ETH1_FOLLOW_DISTANCE) s).1 =
          .error (.provider message)) := by
  obtain ⟨last, s', n, hread, hlast, hcache, htracks, hpointer, hvalue, hstored, hupTo⟩ := getLastProcessed_eq h
  unfold updateDepositCache
  rw [hread]
  dsimp only
  generalize hto : min (height - config.ETH1_FOLLOW_DISTANCE)
    (getFromBlockToFetch config last + MAX_BLOCKS_PER_LOG_QUERY - 1) = toBlock
  cases hevents : provider.getDepositEvents (getFromBlockToFetch config last) toBlock with
  | error message => exact ⟨htracks, hpointer, .inr ⟨message, rfl⟩⟩
  | ok events =>
    have hbounds : ∀ block ∈ last, 0 < block ∧ block ≤ height - config.ETH1_FOLLOW_DISTANCE := by
      rintro block rfl
      refine hfollows height block events hheight hlast ?_
      rw [hto]
      exact hevents
    have hfetched : events = (log.events.take (log.countUpTo toBlock)).drop n := by
      rw [hserves height _ _ events hheight (by omega) hevents]
      exact fetched_eq hdeploy hupTo fun block hblock => (hbounds block hblock).1
    -- the range ends at the last processed block or behind it
    have hle : last.getD 0 ≤ toBlock := by
      cases last with
      | none => exact Nat.zero_le _
      | some block =>
        have hblock := hbounds block rfl
        have hfrom : block + 1 ≤ getFromBlockToFetch config (some block) := by
          obtain ⟨block, rfl⟩ : ∃ k, block = k + 1 := ⟨block - 1, by omega⟩
          exact Nat.le_max_left _ _
        show block ≤ toBlock
        omega
    have hcount : min n log.events.length ≤ log.countUpTo toBlock := by
      rcases Nat.eq_zero_or_pos (min n log.events.length) with hzero | hpos
      · omega
      · obtain ⟨event, hevent⟩ : ∃ event, log.events[min n log.events.length - 1]? = some event :=
          ⟨_, List.getElem?_eq_getElem (by omega)⟩
        obtain ⟨block, rfl, hblock⟩ := (hupTo _ event hevent).1 (by omega)
        have := (log.lt_countUpTo_iff hevent toBlock).2 (hblock.trans hle)
        omega
    have hlog : (log.take (log.countUpTo toBlock)).events = (log.take n).events ++ events := by
      show log.events.take _ = log.events.take n ++ events
      have htake : log.events.take n = (log.events.take (log.countUpTo toBlock)).take n := by
        rw [List.take_take, List.take_eq_take_iff]
        omega
      rw [hfetched, htake, List.take_append_drop]
    rw [← hcache] at hstored
    obtain ⟨cache, hadd, hstored'⟩ := hstored.add_eq hlog
    dsimp only
    rw [hadd]
    have hupTo' : UpTo log (log.countUpTo toBlock) (some toBlock) := by
      intro i event hi
      rw [log.lt_countUpTo_iff hi]
      simp
    refine ⟨⟨_, hstored', hupTo'.wholeBlocks, fun block hblock => ?_⟩, ?_, .inl ⟨_, rfl⟩⟩
    · cases hblock
      exact hupTo'
    · rw [hvalue] at hpointer
      exact hpointer.trans hle

end

variable {cache : Eth1DepositsCache}

theorem stored_addEth1Datas (h : Stored cache log) (eth1Datas : List Eth1DataOfBlock) :
    Stored { cache with db := addEth1Datas values cache.db eth1Datas } log where
  events := by
    refine Stored.frame_batchPut (eth1Data values.toValues) h.events ?_ _
    show Bucket.phase0_depositEvent.value ≠ Bucket.phase0_eth1Data.value
    decide
  roots := by
    refine Stored.frame_batchPut (eth1Data values.toValues) h.roots ?_ _
    show Bucket.index_depositDataRoot.value ≠ Bucket.phase0_eth1Data.value
    decide
  tree := h.tree

theorem Tracks.of_stored {s : Eth1ForBlockProduction} (h : Tracks log s)
    (hcache : ∀ log' : DepositLog values, Stored s.depositsCache log' → Stored cache log') :
    Tracks log { s with depositsCache := cache } := by
  obtain ⟨n, hstored, hwhole, hpointer⟩ := h
  exact ⟨n, hcache _ hstored, hwhole, hpointer⟩

theorem updateBlockCache_keeps (provider : Eth1Provider) {s : Eth1ForBlockProduction} (h : Tracks log s) (remoteFollowBlock : Nat) :
    Tracks log (updateBlockCache values config provider remoteFollowBlock s).2 ∧
      pointer s ≤ pointer (updateBlockCache values config provider remoteFollowBlock s).2 := by
  unfold updateBlockCache
  cases getHighestCachedBlockNumber values s.depositsCache.db with
  | error error => exact ⟨h, Nat.le_refl _⟩
  | ok lastCachedBlock =>
    obtain ⟨last, s', n, hread, -, -, htracks, hpointer, -⟩ := getLastProcessed_eq h
    rw [hread]
    dsimp only
    cases getLowestDepositEventBlockNumber values s'.depositsCache with
    | error error => exact ⟨htracks, hpointer⟩
    | ok lowest =>
      cases lowest with
      | none => exact ⟨htracks, hpointer⟩
      | some lowest =>
        cases last with
        | none => exact ⟨htracks, hpointer⟩
        | some last =>
          dsimp only
          cases provider.getBlocksByNumber _ _ with
          | error message => exact ⟨htracks, hpointer⟩
          | ok eth1Blocks =>
            have hkeeps : ∀ log' : DepositLog values, Stored s'.depositsCache log' →
                Stored (Eth1DepositsCache.getEth1DataForBlocks values s'.depositsCache eth1Blocks (some last)).2 log' :=
              fun log' hstored => (getEth1DataForBlocks_stored hstored (some last)).2.1
            dsimp only
            revert hkeeps
            cases Eth1DepositsCache.getEth1DataForBlocks values s'.depositsCache eth1Blocks (some last) with
            | mk result cache =>
              intro hkeeps
              cases result with
              | error error => exact ⟨htracks.of_stored hkeeps, hpointer⟩
              | ok eth1Datas =>
                exact ⟨htracks.of_stored fun log' hstored => stored_addEth1Datas (hkeeps log' hstored) eth1Datas, hpointer⟩

/-- Adding deposits of the update does not throw: it returns, or the node failed. -/
def AddsDeposits (values : Eth1Values) (config : Eth1Config) (provider : Eth1Provider) (s : Eth1ForBlockProduction) : Prop :=
  ∀ height, provider.getBlockNumber = .ok height →
    (updateDepositCache values config provider (height - config.ETH1_FOLLOW_DISTANCE) s).1 ≠
        .error (.error "DuplicateDistinctLog") ∧
      (updateDepositCache values config provider (height - config.ETH1_FOLLOW_DISTANCE) s).1 ≠
        .error (.error "Non consecutive logs")

theorem update_keeps (hdeploy : ∀ event ∈ log.events, config.deployBlock ≤ event.blockNumber) (hserves : Serves log provider)
    {s : Eth1ForBlockProduction} (h : Tracks log s) (hfollows : Follows values config provider s) :
    Tracks log (update values config provider s).2 ∧ pointer s ≤ pointer (update values config provider s).2 ∧
      AddsDeposits values config provider s := by
  cases hheight : provider.getBlockNumber with
  | error message =>
    have hupdate : update values config provider s = (.error (.provider message), s) := by
      unfold update
      rw [hheight]
    rw [hupdate]
    refine ⟨h, Nat.le_refl _, fun height heq => ?_⟩
    rw [hheight] at heq
    cases heq
  | ok height =>
    obtain ⟨htracks, hpointer, hresult⟩ := updateDepositCache_keeps hdeploy hserves h hheight hfollows
    have hadds : AddsDeposits values config provider s := by
      intro height' heq
      rw [hheight] at heq
      cases heq
      rcases hresult with ⟨catchedUp, hok⟩ | ⟨message, herror⟩
      · rw [hok]
        simp
      · rw [herror]
        simp
    unfold update
    rw [hheight]
    dsimp only
    revert htracks hpointer
    cases updateDepositCache values config provider (height - config.ETH1_FOLLOW_DISTANCE) s with
    | mk result s' =>
      intro htracks hpointer
      cases result with
      | error error => exact ⟨htracks, hpointer, hadds⟩
      | ok catchedUpDeposits =>
        obtain ⟨htracks', hpointer'⟩ := @updateBlockCache_keeps values config log provider s' htracks
          (height - config.ETH1_FOLLOW_DISTANCE)
        revert htracks' hpointer'
        dsimp only
        cases updateBlockCache values config provider (height - config.ETH1_FOLLOW_DISTANCE) s' with
        | mk result s'' =>
          intro htracks' hpointer'
          cases result with
          | error error => exact ⟨htracks', hpointer.trans hpointer', hadds⟩
          | ok catchedUpBlocks => exact ⟨htracks', hpointer.trans hpointer', hadds⟩

/-- **In a run whose every update follows the chain** the pointer never goes back, the stored deposits are a prefix of the
log, and adding deposits does not throw. -/
theorem updates_follow (log : DepositLog values) (hdeploy : ∀ event ∈ log.events, config.deployBlock ≤ event.blockNumber)
    (providers : List Eth1Provider) (hserves : ∀ provider ∈ providers, Serves log provider)
    (s : Eth1ForBlockProduction) (hstart : s.lastProcessedDepositBlockNumber = none) (n : Nat)
    (hstored : Stored s.depositsCache (log.take n)) (hwhole : WholeBlocks log n)
    (hfollows : ∀ before provider, before ++ [provider] <+: providers →
      Follows values config provider (updates values config s before)) :
    ∀ before provider, before ++ [provider] <+: providers →
      pointer (updates values config s before) ≤ pointer (updates values config s (before ++ [provider])) ∧
      (∃ n, Stored (updates values config s (before ++ [provider])).depositsCache (log.take n)) ∧
      AddsDeposits values config provider (updates values config s before) := by
  have htracks : ∀ before, before <+: providers → Tracks log (updates values config s before) := by
    intro before
    induction before using List.reverseRecOn with
    | nil =>
      intro _
      refine ⟨n, hstored, hwhole, fun last hlast => ?_⟩
      rw [show (updates values config s []).lastProcessedDepositBlockNumber = none from hstart] at hlast
      cases hlast
    | append_singleton before provider ih =>
      intro hpre
      have hbefore := ih ((List.prefix_append before [provider]).trans hpre)
      have hmem : provider ∈ providers := hpre.subset (by simp)
      rw [show updates values config s (before ++ [provider]) = _ from List.foldl_append]
      exact (update_keeps hdeploy (hserves provider hmem) hbefore (hfollows before provider hpre)).1
  intro before provider hpre
  have hmem : provider ∈ providers := hpre.subset (by simp)
  have hbefore := htracks before ((List.prefix_append before [provider]).trans hpre)
  obtain ⟨⟨m, hstored', -⟩, hpointer, hadds⟩ :=
    update_keeps hdeploy (hserves provider hmem) hbefore (hfollows before provider hpre)
  rw [show updates values config s (before ++ [provider]) = _ from List.foldl_append]
  exact ⟨hpointer, ⟨m, hstored'⟩, hadds⟩

/-! ## A node that goes back by a block -/

def plainConfig : Eth1Config := ⟨2048, 0⟩

def lateDeposit : DepositLog plainEth1Values := plainLog [2] (by decide) (by decide) (by decide)

def nodeAt (height : Nat) : Eth1Provider where
  getBlockNumber := .ok height
  getDepositEvents fromBlock toBlock :=
    .ok (lateDeposit.events.filter fun e => decide (fromBlock ≤ e.blockNumber) && decide (e.blockNumber ≤ toBlock))
  getBlocksByNumber _ _ := .error "header not found"

def fresh : Eth1ForBlockProduction := ⟨⟨.empty, none⟩, none⟩

theorem serves_nodeAt (height : Nat) : Serves lateDeposit (nodeAt height) := by
  intro _ fromBlock toBlock events _ _ h
  cases h
  rfl

theorem follows_two (before : List Eth1Provider) (provider : Eth1Provider)
    (hpre : before ++ [provider] <+: [nodeAt 2050, nodeAt 2051]) :
    Follows plainEth1Values plainConfig provider (updates plainEth1Values plainConfig fresh before) := by
  obtain ⟨rest, hrest⟩ := hpre
  intro height last events hheight hlast _
  rcases before with _ | ⟨first, _ | ⟨second, before⟩⟩
  · have hnone : lastProcessed plainEth1Values (updates plainEth1Values plainConfig fresh []) = .ok none := by decide
    cases hlast
  · simp only [List.cons_append, List.nil_append, List.cons.injEq] at hrest
    obtain ⟨rfl, rfl, -⟩ := hrest
    cases hlast
    cases hheight
    decide
  · simp at hrest

theorem updates_follow_two :
    pointer (updates plainEth1Values plainConfig fresh [nodeAt 2050]) ≤
        pointer (updates plainEth1Values plainConfig fresh [nodeAt 2050, nodeAt 2051]) ∧
      (∃ n, Stored (updates plainEth1Values plainConfig fresh [nodeAt 2050, nodeAt 2051]).depositsCache (lateDeposit.take n)) ∧
      AddsDeposits plainEth1Values plainConfig (nodeAt 2051) (updates plainEth1Values plainConfig fresh [nodeAt 2050]) := by
  refine updates_follow lateDeposit (fun _ _ => Nat.zero_le _) [nodeAt 2050, nodeAt 2051] ?_ fresh rfl 0 Stored.nil ?_
    follows_two [nodeAt 2050] (nodeAt 2051) (List.prefix_refl _)
  · intro provider hprovider
    simp only [List.mem_cons, List.not_mem_nil, or_false] at hprovider
    rcases hprovider with rfl | rfl
    · exact serves_nodeAt 2050
    · exact serves_nodeAt 2051
  · intro i _ _ _ _ _ hi
    exact absurd hi (Nat.not_lt_zero i)

/-- At height 2049 the pointer goes from block 2 to block 1, and then the deposit of block 2 is fetched again and refused. -/
theorem update_goes_back :
    pointer (updates plainEth1Values plainConfig fresh [nodeAt 2050]) = 2 ∧
      pointer (updates plainEth1Values plainConfig fresh [nodeAt 2050, nodeAt 2049]) = 1 ∧
      (update plainEth1Values plainConfig (nodeAt 2050)
        (updates plainEth1Values plainConfig fresh [nodeAt 2050, nodeAt 2049])).1 = .error (.error "DuplicateDistinctLog") ∧
      ¬ AddsDeposits plainEth1Values plainConfig (nodeAt 2050)
        (updates plainEth1Values plainConfig fresh [nodeAt 2050, nodeAt 2049]) := by
  refine ⟨by decide, by decide, by decide, fun h => (h 2050 rfl).1 ?_⟩
  decide

end Eth1ForBlockProduction

end Lodestar.Eth1
