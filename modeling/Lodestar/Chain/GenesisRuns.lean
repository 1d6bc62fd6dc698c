import Lodestar.Chain.GenesisBuilder
import Lodestar.StateTransition.EpochCache
/-!
# GenesisRuns — the deposits in the state, in the tree and in the count

`Synced` says that a builder holds the first `n` deposits of the chain.  A range that starts where they end, and whose other
deposits the builder has in its set, brings it to the deposits up to the end of the range.  `Inv` says where the stream stands
against them, and every step keeps it, a restart included, unless a restored builder finds the follow block still at the block
that was processed last: then the range it fetches is empty and the next one starts at that block, whose deposits are not in
its set.  `Ahead` excludes that.
-/
namespace Lodestar.Chain

open Lib StateTransition Eth1

variable {P : Preset} {env : GenesisEnv P} {cfg : StreamConfig} {chain : Eth1Chain}

def depositRoots (env : GenesisEnv P) (chain : Eth1Chain) : List Root :=
  chain.events.map fun event => env.depositDataRoot event.depositData

@[simp] theorem length_depositRoots : (depositRoots env chain).length = chain.events.length := List.length_map _

variable {event : DepositEvent}

theorem depositRoots_getElem? {i : Nat} (h : chain.events[i]? = some event) :
    (depositRoots env chain)[i]? = some (env.depositDataRoot event.depositData) := by
  unfold depositRoots
  rw [List.getElem?_map, h]
  rfl

/-! ## Positions in the log -/

section

variable (chain : Eth1Chain) (n blockNumber : Nat)

def Below : Prop :=
  ∀ (i : Nat) (event : DepositEvent), chain.events[i]? = some event → i < n → event.blockNumber ≤ blockNumber

def Behind : Prop :=
  ∀ (i : Nat) (event : DepositEvent), chain.events[i]? = some event → n ≤ i → blockNumber ≤ event.blockNumber

def Through : Prop :=
  ∀ (i : Nat) (event : DepositEvent), chain.events[i]? = some event → (i < n ↔ event.blockNumber ≤ blockNumber)

end

theorem Through.below {n b : Nat} (h : Through chain n b) : Below chain n b := fun i event hi => (h i event hi).1

theorem Through.behind {n b : Nat} (h : Through chain n b) : Behind chain n (b + 1) := by
  intro i event hi hn
  have := h i event hi
  omega

theorem Through.mono_behind {n b : Nat} (h : Through chain n b) : Behind chain n b :=
  fun i event hi hn => (Nat.le_succ b).trans (h.behind i event hi hn)

theorem Below.mono {n a b : Nat} (h : Below chain n a) (hle : a ≤ b) : Below chain n b :=
  fun i event hi hn => (h i event hi hn).trans hle

theorem below_zero (b : Nat) : Below chain 0 b := fun _ _ _ h => absurd h (Nat.not_lt_zero _)

theorem through_max {n toBlock : Nat} (hbelow : Below chain n toBlock) : Through chain (max n (chain.countUpTo toBlock)) toBlock := by
  intro i event hi
  have hcount := chain.lt_countUpTo_iff hi toBlock
  have hn := hbelow i event hi
  constructor
  · intro h
    rcases Nat.lt_or_ge i n with hlt | hge
    · exact hn hlt
    · exact hcount.1 (by omega)
  · intro h
    omega

/-! ## A builder and the first deposits -/

/-- The builder holds the first `n` deposits. -/
structure Synced (env : GenesisEnv P) (chain : Eth1Chain) (builder : GenesisBuilder P) (n : Nat) : Prop where
  le : n ≤ chain.events.length
  tree : builder.depositTree = (depositRoots env chain).take n
  counted : CountedIn builder.state.toCachedBeaconState n
  cache : ∀ i ∈ builder.depositCache, i < n

/-- Among the first `n` deposits, those that the builder has not seen itself are in blocks before `blockNumber`. -/
def Restored (chain : Eth1Chain) (builder : GenesisBuilder P) (n blockNumber : Nat) : Prop :=
  ∀ (i : Nat) (event : DepositEvent), chain.events[i]? = some event → i < n → i ∉ builder.depositCache →
    event.blockNumber < blockNumber

variable {builder : GenesisBuilder P}

theorem Restored.mono {n a b : Nat} (h : Restored chain builder n a) (hle : a ≤ b) :
    Restored chain builder n b := fun i event hi hn hcache => (h i event hi hn hcache).trans_le hle

def between (chain : Eth1Chain) (n m : Nat) : List DepositEvent := (chain.events.take m).drop n

theorem length_between {n m : Nat} (hm : m ≤ chain.events.length) : (between chain n m).length = m - n := by
  unfold between
  rw [List.length_drop, List.length_take, Nat.min_eq_left hm]

theorem between_getElem? {n m j : Nat} (h : (between chain n m)[j]? = some event) :
    chain.events[n + j]? = some event ∧ n + j < m := by
  unfold between at h
  rw [List.getElem?_drop, List.getElem?_take] at h
  split at h
  · exact ⟨h, by assumption⟩
  · cases h

theorem take_append_between {n m : Nat} (h : n ≤ m) : chain.events.take n ++ between chain n m = chain.events.take m := by
  unfold between
  have htake : chain.events.take n = (chain.events.take m).take n := by
    rw [List.take_take, Nat.min_eq_left h]
  rw [htake, List.take_append_drop]

theorem newEvents_eq {n fromBlock : Nat} (h : Synced env chain builder n) (hrestored : Restored chain builder n fromBlock)
    (hbehind : Behind chain n fromBlock) (toBlock : Nat) :
    builder.newEvents (chain.getDepositEvents fromBlock toBlock) = between chain n (chain.countUpTo toBlock) := by
  unfold GenesisBuilder.newEvents Eth1Chain.getDepositEvents between
  rw [List.filter_filter]
  refine filter_eq_drop_take _ _ _ fun i event hi => ?_
  simp only [Bool.and_eq_true, decide_eq_true_eq, chain.index_eq i event hi]
  have hcount := chain.lt_countUpTo_iff hi toBlock
  constructor
  · rintro ⟨hcache, hfrom, hto⟩
    refine ⟨?_, hcount.2 hto⟩
    by_contra hlt
    have := hrestored i event hi (by omega) hcache
    omega
  · rintro ⟨hn, hlt⟩
    refine ⟨fun hcache => ?_, hbehind i event hi hn, hcount.1 hlt⟩
    have := h.cache i hcache
    omega

theorem pushDeposits_eq (events : List DepositEvent) (n : Nat)
    (hevents : ∀ (j : Nat) (event : DepositEvent), events[j]? = some event → chain.events[n + j]? = some event) :
    (GenesisBuilder.pushDeposits env ((depositRoots env chain).take n) events).1 =
        (depositRoots env chain).take (n + events.length) ∧
      (GenesisBuilder.pushDeposits env ((depositRoots env chain).take n) events).2.map (·.data) =
        events.map (·.depositData) ∧
      Genuine env (depositRoots env chain) n (GenesisBuilder.pushDeposits env ((depositRoots env chain).take n) events).2 := by
  induction events generalizing n with
  | nil => exact ⟨rfl, rfl, fun j deposit h => by cases h⟩
  | cons event events ih =>
    have hevent : chain.events[n]? = some event := hevents 0 event rfl
    have htake : (depositRoots env chain).take n ++ [env.depositDataRoot event.depositData] =
        (depositRoots env chain).take (n + 1) := by
      rw [List.take_add_one, depositRoots_getElem? hevent]
      rfl
    obtain ⟨htree, hdata, hgenuine⟩ := ih (n + 1) fun j e he => by
      have := hevents (j + 1) e he
      rw [show n + 1 + j = n + (j + 1) by omega]
      exact this
    unfold GenesisBuilder.pushDeposits
    rw [htake]
    refine ⟨?_, ?_, ?_⟩
    · rw [htree, List.length_cons]
      congr 1
      omega
    · rw [List.map_cons, List.map_cons, hdata]
    · intro j deposit hj
      cases j with
      | zero =>
        cases hj
        refine ⟨depositRoots_getElem? hevent, ?_⟩
        rw [chain.index_eq n event hevent]
        rfl
      | succ j =>
        have := hgenuine j deposit hj
        rw [show n + 1 + j = n + (j + 1) by omega] at this
        exact this

def advanced (env : GenesisEnv P) (cfg : StreamConfig) (chain : Eth1Chain) (state : GenesisState P) (n m : Nat) : GenesisState P :=
  let cached := activated (((between chain n m).map (·.depositData)).foldl
    (depositStep env cfg.toGenesisConfig (depositRoots env chain)) state.toCachedBeaconState)
  { state with toCachedBeaconState := cached, genesisValidatorsRoot := env.validatorsRoot cached.validators }

variable {state : GenesisState P}

theorem countedIn_advanced {n m : Nat} (h : CountedIn state.toCachedBeaconState n) (hm : m ≤ chain.events.length) :
    CountedIn (advanced env cfg chain state n m).toCachedBeaconState (max n m) := by
  have hsteps := (h.steps env cfg.toGenesisConfig (depositRoots env chain) ((between chain n m).map (·.depositData))).activated
  rw [List.length_map, length_between hm, show n + (m - n) = max n m by omega] at hsteps
  exact hsteps

theorem applyDeposits_range {n fromBlock : Nat} (h : Synced env chain builder n) (hrestored : Restored chain builder n fromBlock)
    (hbehind : Behind chain n fromBlock) (toBlock : Nat) :
    builder.applyDeposits env cfg (chain.getDepositEvents fromBlock toBlock) =
      (none, { builder with
        state := advanced env cfg chain builder.state n (chain.countUpTo toBlock)
        depositTree := (depositRoots env chain).take (max n (chain.countUpTo toBlock))
        depositCache := builder.depositCache ++ (between chain n (chain.countUpTo toBlock)).map (·.index) }) := by
  have hm := chain.countUpTo_le toBlock
  obtain ⟨htree, hdata, hgenuine⟩ := @pushDeposits_eq P env chain (between chain n (chain.countUpTo toBlock)) n
    fun j event hj => (between_getElem? hj).1
  rw [length_between hm, show n + (chain.countUpTo toBlock - n) = max n (chain.countUpTo toBlock) by omega] at htree
  unfold GenesisBuilder.applyDeposits
  dsimp only
  rw [newEvents_eq h hrestored hbehind toBlock, h.tree]
  have happly := applyDeposits_eq env cfg.toGenesisConfig
    (GenesisBuilder.pushDeposits env ((depositRoots env chain).take n) (between chain n (chain.countUpTo toBlock))).1
    (depositRoots env chain) (by rw [length_depositRoots]; exact chain.length_le)
    (GenesisBuilder.pushDeposits env ((depositRoots env chain).take n) (between chain n (chain.countUpTo toBlock))).2 n
    builder.state h.counted (by rw [length_depositRoots]; exact h.le) ?_ hgenuine
  · rw [happly, hdata, htree]
    rfl
  · intro k hk
    have hlength : (GenesisBuilder.pushDeposits env ((depositRoots env chain).take n)
        (between chain n (chain.countUpTo toBlock))).2.length = chain.countUpTo toBlock - n := by
      have := congrArg List.length hdata
      rw [List.length_map, List.length_map, length_between hm] at this
      exact this
    rw [htree, List.getElem?_take_of_lt (by omega)]

theorem index_between {n m i : Nat} (hn : n ≤ i) (hm : i < m) (h : chain.events[i]? = some event) :
    i ∈ (between chain n m).map (·.index) := by
  refine List.mem_map.2 ⟨event, ?_, chain.index_eq i event h⟩
  refine List.mem_of_getElem? (i := i - n) ?_
  unfold between
  rw [List.getElem?_drop, show n + (i - n) = i by omega, List.getElem?_take_of_lt hm, h]

variable {run : Run P}

theorem applyDeposits_taken {n fromBlock toBlock : Nat} (h : Synced env chain run.builder n)
    (happlied : run.applied = chain.events.take n) (hrestored : Restored chain run.builder n fromBlock)
    (hbehind : Behind chain n fromBlock) :
    ∃ builder : GenesisBuilder P,
      run.applyDeposits env cfg (chain.getDepositEvents fromBlock toBlock) =
        (none, { run with builder := builder, applied := chain.events.take (max n (chain.countUpTo toBlock)) }) ∧
      builder.state = advanced env cfg chain run.builder.state n (chain.countUpTo toBlock) ∧
      Synced env chain builder (max n (chain.countUpTo toBlock)) ∧
      ∀ block, Restored chain run.builder n block → Restored chain builder (max n (chain.countUpTo toBlock)) block := by
  have hm := chain.countUpTo_le toBlock
  have hcounted := @countedIn_advanced P env cfg chain run.builder.state n (chain.countUpTo toBlock) h.counted hm
  refine ⟨{ run.builder with
    state := advanced env cfg chain run.builder.state n (chain.countUpTo toBlock)
    depositTree := (depositRoots env chain).take (max n (chain.countUpTo toBlock))
    depositCache := run.builder.depositCache ++ (between chain n (chain.countUpTo toBlock)).map (·.index) },
    ?_, rfl, ⟨?_, rfl, hcounted, ?_⟩, ?_⟩
  · have hprocessed : (between chain n (chain.countUpTo toBlock)).take (max n (chain.countUpTo toBlock) - n) =
        between chain n (chain.countUpTo toBlock) := by
      refine List.take_of_length_le ?_
      rw [length_between hm]
      omega
    have hevents : chain.events.take n ++ between chain n (chain.countUpTo toBlock) =
        chain.events.take (max n (chain.countUpTo toBlock)) := by
      rcases Nat.le_total n (chain.countUpTo toBlock) with hle | hge
      · rw [take_append_between hle, Nat.max_eq_right hle]
      · have hnone : between chain n (chain.countUpTo toBlock) = [] := by
          rw [← List.length_eq_zero_iff, length_between hm]
          omega
        rw [hnone, List.append_nil, Nat.max_eq_left hge]
    unfold Run.applyDeposits
    rw [applyDeposits_range h hrestored hbehind toBlock, newEvents_eq h hrestored hbehind toBlock, happlied]
    dsimp only
    rw [hcounted.eth1DepositIndex, h.counted.eth1DepositIndex, hprocessed, hevents]
  · have := h.le
    omega
  · intro i hi
    rcases List.mem_append.1 hi with hi | hi
    · have := h.cache i hi
      omega
    · obtain ⟨event, hevent, rfl⟩ := List.mem_map.1 hi
      obtain ⟨j, hj⟩ := List.getElem?_of_mem hevent
      obtain ⟨hget, hlt⟩ := between_getElem? hj
      rw [chain.index_eq _ _ hget]
      omega
  · intro block hblock i event hi hlt hcache
    rw [List.mem_append, not_or] at hcache
    rcases Nat.lt_or_ge i n with hn | hn
    · exact hblock i event hi hn hcache.1
    · exact absurd (index_between hn (by omega) hi) hcache.2

/-! ## The invariant -/

/-- Where a stream stands against the first `n` deposits; `follow` is the follow block of the last height. -/
def Stands (cfg : StreamConfig) (chain : Eth1Chain) (builder : GenesisBuilder P) (n follow : Nat) : Stream → Prop
  | .deposits fromBlock batches =>
    Below chain n fromBlock ∧ Restored chain builder n fromBlock ∧
    (∀ (i : Nat) (event : DepositEvent), chain.events[i]? = some event → n ≤ i → event.blockNumber < fromBlock →
      ∃ batch ∈ batches, batch.blockNumber = event.blockNumber) ∧
    batches.Pairwise (fun a b => a.blockNumber < b.blockNumber) ∧
    ∀ batch ∈ batches, batch.depositEvents = chain.getDepositEvents batch.blockNumber batch.blockNumber ∧
      cfg.deployBlock ≤ batch.blockNumber ∧ batch.blockNumber ≤ fromBlock ∧ batch.blockNumber ≤ follow ∧
      Below chain n batch.blockNumber ∧ Restored chain builder n batch.blockNumber
  | .enoughValidators blockNumber =>
    Through chain n blockNumber ∧ Restored chain builder n blockNumber ∧ cfg.deployBlock ≤ blockNumber ∧ blockNumber ≤ follow
  | .blocks fromBlock toBlock =>
    Below chain n fromBlock ∧ Behind chain n fromBlock ∧ Restored chain builder n fromBlock ∧ fromBlock ≤ toBlock ∧
      toBlock ≤ follow
  | .fetched toBlock => Through chain n toBlock ∧ Restored chain builder n toBlock ∧ toBlock ≤ follow
  | .found blockNumber => Through chain n blockNumber
  | .stopped _ => True

/-- What was persisted holds the first deposits, those of the blocks up to the one processed last. -/
def Pending (env : GenesisEnv P) (chain : Eth1Chain) (follow : Nat) (status : PendingStatus P) (applied : List DepositEvent) :
    Prop :=
  ∃ n, n ≤ chain.events.length ∧ status.depositTree = (depositRoots env chain).take n ∧
    CountedIn status.state.toCachedBeaconState n ∧ applied = chain.events.take n ∧
    Through chain n status.lastProcessedBlockNumber ∧ Below chain n follow

/-- The invariant of runs, with the number of deposits in the builder. -/
structure Inv (env : GenesisEnv P) (cfg : StreamConfig) (chain : Eth1Chain) (follow : Nat) (run : Run P) (n : Nat) : Prop where
  synced : Synced env chain run.builder n
  applied : run.applied = chain.events.take n
  seen : Below chain n follow
  last : ∀ blockNumber, run.builder.lastProcessedBlockNumber = some blockNumber → Through chain n blockNumber
  stream : Stands cfg chain run.builder n follow run.stream
  persisted : ∀ status applied, run.persisted = some (status, applied) → Pending env chain follow status applied

variable {status pending : PendingStatus P}

theorem Pending.mono {follow follow' : Nat} (hle : follow ≤ follow') {applied : List DepositEvent}
    (h : Pending env chain follow status applied) : Pending env chain follow' status applied := by
  obtain ⟨n, hn, htree, hcounted, happlied, hlast, hseen⟩ := h
  exact ⟨n, hn, htree, hcounted, happlied, hlast, hseen.mono hle⟩

variable {stream : Stream}

theorem Stands.mono {n follow follow' : Nat} (hle : follow ≤ follow') (h : Stands cfg chain builder n follow stream) :
    Stands cfg chain builder n follow' stream := by
  cases stream with
  | deposits fromBlock batches =>
    obtain ⟨hbelow, hrestored, hcovered, hincreasing, hbatches⟩ := h
    refine ⟨hbelow, hrestored, hcovered, hincreasing, fun batch hbatch => ?_⟩
    obtain ⟨hevents, hdep, hfrom, hseen, hb, hr⟩ := hbatches batch hbatch
    exact ⟨hevents, hdep, hfrom, hseen.trans hle, hb, hr⟩
  | enoughValidators blockNumber =>
    obtain ⟨hthrough, hrestored, hdep, hseen⟩ := h
    exact ⟨hthrough, hrestored, hdep, hseen.trans hle⟩
  | blocks fromBlock toBlock =>
    obtain ⟨hbelow, hbehind, hrestored, hrange, hto⟩ := h
    exact ⟨hbelow, hbehind, hrestored, hrange, hto.trans hle⟩
  | fetched toBlock =>
    obtain ⟨hthrough, hrestored, hto⟩ := h
    exact ⟨hthrough, hrestored, hto.trans hle⟩
  | found blockNumber => exact h
  | stopped error => exact h

theorem Inv.move {follow follow' n : Nat} (h : Inv env cfg chain follow run n) (hle : follow ≤ follow')
    (hstream : Stands cfg chain run.builder n follow' stream) :
    Inv env cfg chain follow' { run with stream := stream } n :=
  ⟨h.synced, h.applied, h.seen.mono hle, h.last, hstream, fun status applied hp => (h.persisted status applied hp).mono hle⟩

theorem Inv.mono {follow follow' n : Nat} (h : Inv env cfg chain follow run n) (hle : follow ≤ follow') :
    Inv env cfg chain follow' run n := h.move hle (h.stream.mono hle)

def Ahead (cfg : StreamConfig) (chain : Eth1Chain) (run : Run P) : Event → Prop
  | .height remoteHighestBlock => ∀ fromBlock, run.stream = .deposits fromBlock [] →
      fromBlock ≤ getRemoteFollowBlock cfg remoteHighestBlock ∨
        ∀ event ∈ chain.events, event.blockNumber ≠ getRemoteFollowBlock cfg remoteHighestBlock
  | .next | .abort _ | .restart => True

theorem stands_poll (hdeploy : ∀ event ∈ chain.events, cfg.deployBlock ≤ event.blockNumber) {n follow follow' fromBlock : Nat}
    (hseen : Below chain n follow) (hfollow : follow ≤ follow') (h : Stands cfg chain builder n follow (.deposits fromBlock []))
    (hahead : fromBlock ≤ follow' ∨ ∀ event ∈ chain.events, event.blockNumber ≠ follow') {toBlock : Nat}
    (hto : toBlock = min follow' (fromBlock + cfg.maxBlocksPerPoll)) :
    Stands cfg chain builder n follow' (.deposits toBlock
      (groupDepositEventsByBlock (chain.getDepositEvents fromBlock toBlock))) := by
  obtain ⟨hbelow, hrestored, hcovered, -, -⟩ := h
  have hbehind : Behind chain n fromBlock := by
    intro i event hi hn
    by_contra hlt
    obtain ⟨batch, hbatch, -⟩ := hcovered i event hi hn (by omega)
    exact absurd hbatch List.not_mem_nil
  have hbatched := chain.batched_getDepositEvents fromBlock toBlock
  have hbatches : ∀ batch ∈ groupDepositEventsByBlock (chain.getDepositEvents fromBlock toBlock),
      batch.depositEvents = chain.getDepositEvents batch.blockNumber batch.blockNumber ∧
      cfg.deployBlock ≤ batch.blockNumber ∧ batch.blockNumber ≤ toBlock ∧ batch.blockNumber ≤ follow' ∧
      Below chain n batch.blockNumber ∧ Restored chain builder n batch.blockNumber := by
    intro batch hbatch
    obtain ⟨hfrom, hle, hevents⟩ := chain.batch_eq hbatch
    obtain ⟨event, hevent, hblock⟩ := hbatched.occurs batch hbatch
    refine ⟨hevents, ?_, hle, by omega, hbelow.mono hfrom, hrestored.mono hfrom⟩
    rw [← hblock]
    exact hdeploy event (Eth1Chain.mem_getDepositEvents.1 hevent).1
  rcases Nat.lt_or_ge toBlock fromBlock with hlt | hge
  · -- the range is empty, and the next one starts at the follow block
    refine ⟨?_, ?_, ?_, hbatched.increasing, hbatches⟩
    · intro i event hi hn
      have := hseen i event hi hn
      omega
    · intro i event hi hn hcache
      have hle := hseen i event hi hn
      rcases hahead with hahead | hahead
      · omega
      · have := hahead event (List.mem_of_getElem? hi)
        omega
    · intro i event hi hn hblock
      have := hbehind i event hi hn
      omega
  · refine ⟨hbelow.mono hge, hrestored.mono hge, ?_, hbatched.increasing, hbatches⟩
    intro i event hi hn hblock
    exact hbatched.covers event
      (Eth1Chain.mem_getDepositEvents.2 ⟨List.mem_of_getElem? hi, hbehind i event hi hn, hblock.le⟩)

theorem nextToBlock_le (follow toBlock timestamp : Nat) : nextToBlock cfg follow toBlock timestamp ≤ follow :=
  Nat.min_le_left _ _

theorem onHeight_cases (cfg : StreamConfig) (chain : Eth1Chain) (run : Run P) (remoteHighestBlock : Nat) :
    run.onHeight cfg chain remoteHighestBlock = run ∨ (∃ fromBlock, run.stream = .deposits fromBlock []) ∨
      (∃ blockNumber, run.stream = .enoughValidators blockNumber) ∨ ∃ toBlock, run.stream = .fetched toBlock := by
  unfold Run.onHeight
  cases run.stream with
  | deposits fromBlock batches =>
    cases batches with
    | nil => exact .inr (.inl ⟨_, rfl⟩)
    | cons batch batches => exact .inl rfl
  | enoughValidators blockNumber => exact .inr (.inr (.inl ⟨_, rfl⟩))
  | fetched toBlock => exact .inr (.inr (.inr ⟨_, rfl⟩))
  | blocks fromBlock toBlock => exact .inl rfl
  | found blockNumber => exact .inl rfl
  | stopped error => exact .inl rfl

theorem onHeight_deposits {remoteHighestBlock fromBlock : Nat} (hstream : run.stream = .deposits fromBlock []) :
    ∃ toBlock, toBlock = min (getRemoteFollowBlock cfg remoteHighestBlock) (fromBlock + cfg.maxBlocksPerPoll) ∧
      run.onHeight cfg chain remoteHighestBlock = { run with
        stream := .deposits toBlock (groupDepositEventsByBlock (chain.getDepositEvents fromBlock toBlock)) } := by
  unfold Run.onHeight
  rw [hstream]
  exact ⟨_, rfl, rfl⟩

variable {follow n : Nat}

theorem Inv.onHeight_enough (h : Inv env cfg chain follow run n) {remoteHighestBlock blockNumber : Nat}
    (hfollow : follow ≤ getRemoteFollowBlock cfg remoteHighestBlock) (hstream : run.stream = .enoughValidators blockNumber) :
    run.onHeight cfg chain remoteHighestBlock = { run with stream := .blocks blockNumber blockNumber } := by
  have hstands := h.stream
  rw [hstream] at hstands
  obtain ⟨-, -, hdep, hle⟩ := hstands
  have hfrom : min (max blockNumber cfg.deployBlock) (getRemoteFollowBlock cfg remoteHighestBlock) = blockNumber := by
    omega
  unfold Run.onHeight
  rw [hstream]
  dsimp only
  rw [hfrom]

theorem onHeight_fetched {remoteHighestBlock toBlock : Nat} (hstream : run.stream = .fetched toBlock) :
    run.onHeight cfg chain remoteHighestBlock = { run with
      stream := .blocks toBlock
        (nextToBlock cfg (getRemoteFollowBlock cfg remoteHighestBlock) toBlock (chain.timestamp toBlock)) } := by
  unfold Run.onHeight
  rw [hstream]

theorem Inv.onHeight (hdeploy : ∀ event ∈ chain.events, cfg.deployBlock ≤ event.blockNumber) (h : Inv env cfg chain follow run n)
    {remoteHighestBlock : Nat} (hfollow : follow ≤ getRemoteFollowBlock cfg remoteHighestBlock)
    (hahead : Ahead cfg chain run (.height remoteHighestBlock)) :
    Inv env cfg chain (getRemoteFollowBlock cfg remoteHighestBlock) (run.onHeight cfg chain remoteHighestBlock) n := by
  have hstands := h.stream
  rcases onHeight_cases cfg chain run remoteHighestBlock with heq | ⟨fromBlock, hstream⟩ | ⟨blockNumber, hstream⟩ |
    ⟨toBlock, hstream⟩
  · rw [heq]
    exact h.mono hfollow
  · rw [hstream] at hstands
    obtain ⟨toBlock, hto, heq⟩ := @onHeight_deposits P cfg chain run remoteHighestBlock fromBlock hstream
    rw [heq]
    exact h.move hfollow (stands_poll hdeploy h.seen hfollow hstands (hahead fromBlock hstream) hto)
  · rw [hstream] at hstands
    obtain ⟨hthrough, hrestored, -, hle⟩ := hstands
    rw [h.onHeight_enough hfollow hstream]
    exact h.move hfollow ⟨hthrough.below, hthrough.mono_behind, hrestored, Nat.le_refl _, hle.trans hfollow⟩
  · rw [hstream] at hstands
    obtain ⟨hthrough, hrestored, hto⟩ := hstands
    rw [onHeight_fetched hstream]
    exact h.move hfollow
      ⟨hthrough.below, hthrough.mono_behind, hrestored, by unfold nextToBlock; omega, nextToBlock_le _ _ _⟩

variable {batch : IBatchDepositEvents} {batches : List IBatchDepositEvents}

theorem stands_batch {builder builder' : GenesisBuilder P} {n m follow fromBlock : Nat}
    (h : Stands cfg chain builder n follow (.deposits fromBlock (batch :: batches))) (hle : n ≤ m)
    (hthrough : Through chain m batch.blockNumber)
    (hkeeps : ∀ block, Restored chain builder n block → Restored chain builder' m block) :
    Stands cfg chain builder' m follow (.deposits fromBlock batches) := by
  obtain ⟨-, hrestored, hcovered, hincreasing, hbatches⟩ := h
  obtain ⟨hfirst, hincreasing⟩ := List.pairwise_cons.1 hincreasing
  obtain ⟨-, -, hfrom, -⟩ := hbatches batch List.mem_cons_self
  refine ⟨hthrough.below.mono hfrom, hkeeps _ hrestored, ?_, hincreasing, fun batch' hbatch' => ?_⟩
  · intro i event hi hm hblock
    obtain ⟨batch', hbatch', heq⟩ := hcovered i event hi (hle.trans hm) hblock
    rcases List.mem_cons.1 hbatch' with rfl | hbatch'
    · have := hthrough i event hi
      omega
    · exact ⟨batch', hbatch', heq⟩
  · obtain ⟨hevents, hdep, hle', hfollow, -, hrest⟩ := hbatches batch' (List.mem_cons_of_mem _ hbatch')
    exact ⟨hevents, hdep, hle', hfollow, hthrough.below.mono (hfirst batch' hbatch').le, hkeeps _ hrest⟩

theorem behind_batch {n follow fromBlock : Nat} (h : Stands cfg chain builder n follow (.deposits fromBlock (batch :: batches))) :
    Behind chain n batch.blockNumber := by
  obtain ⟨-, -, hcovered, hincreasing, hbatches⟩ := h
  obtain ⟨hfirst, -⟩ := List.pairwise_cons.1 hincreasing
  obtain ⟨-, -, hfrom, -⟩ := hbatches batch List.mem_cons_self
  intro i event hi hn
  by_contra hlt
  obtain ⟨batch', hbatch', heq⟩ := hcovered i event hi hn (by omega)
  rcases List.mem_cons.1 hbatch' with rfl | hbatch'
  · omega
  · have := hfirst batch' hbatch'
    omega

theorem Inv.onNext_batch (h : Inv env cfg chain follow run n) {fromBlock : Nat}
    (hstream : run.stream = .deposits fromBlock (batch :: batches)) :
    ∃ builder : GenesisBuilder P,
      builder.state = advanced env cfg chain run.builder.state n (chain.countUpTo batch.blockNumber) ∧
      run.onNext env cfg chain = { run with
        builder := { builder with lastProcessedBlockNumber := some batch.blockNumber }
        applied := chain.events.take (max n (chain.countUpTo batch.blockNumber))
        stream := if isValidGenesisValidators cfg.toGenesisConfig builder.state.toBeaconState
          then .enoughValidators batch.blockNumber else .deposits fromBlock batches } ∧
      Inv env cfg chain follow (run.onNext env cfg chain) (max n (chain.countUpTo batch.blockNumber)) := by
  have hstands := h.stream
  rw [hstream] at hstands
  obtain ⟨hevents, hdep, -, hfollow, hbelow, hrestored⟩ := hstands.2.2.2.2 batch List.mem_cons_self
  obtain ⟨builder, happly, hstate, hsynced, hkeeps⟩ := @applyDeposits_taken P env cfg chain run n batch.blockNumber
    batch.blockNumber h.synced h.applied hrestored (behind_batch hstands)
  have hthrough := through_max hbelow
  have hnext : run.onNext env cfg chain = { run with
      builder := { builder with lastProcessedBlockNumber := some batch.blockNumber }
      applied := chain.events.take (max n (chain.countUpTo batch.blockNumber))
      stream := if isValidGenesisValidators cfg.toGenesisConfig builder.state.toBeaconState
        then .enoughValidators batch.blockNumber else .deposits fromBlock batches } := by
    unfold Run.onNext
    rw [hstream]
    dsimp only
    rw [hevents, happly]
  refine ⟨builder, hstate, hnext, ?_⟩
  rw [hnext]
  refine ⟨⟨hsynced.le, hsynced.tree, hsynced.counted, hsynced.cache⟩, rfl, hthrough.below.mono hfollow, ?_, ?_, h.persisted⟩
  · intro blockNumber hlast
    cases hlast
    exact hthrough
  · dsimp only
    split
    · exact ⟨hthrough, hkeeps _ hrestored, hdep, hfollow⟩
    · exact stands_batch hstands (Nat.le_max_left _ _) hthrough hkeeps

def withBlock (cfg : StreamConfig) (chain : Eth1Chain) (state : GenesisState P) (blockNumber : Nat) : GenesisState P :=
  let state := applyTimestamp cfg.toGenesisConfig state (chain.timestamp blockNumber)
  { state with toCachedBeaconState := applyEth1BlockHash state.toCachedBeaconState (chain.blockHash blockNumber) }

/-- **The body of the second loop** brings the builder to the deposits up to the end of the range. -/
theorem Inv.onNext_blocks (h : Inv env cfg chain follow run n) {fromBlock toBlock : Nat}
    (hstream : run.stream = .blocks fromBlock toBlock) :
    ∃ builder : GenesisBuilder P,
      builder.state = withBlock cfg chain (advanced env cfg chain run.builder.state n (chain.countUpTo toBlock)) toBlock ∧
      run.onNext env cfg chain = { run with
        builder := { builder with lastProcessedBlockNumber := some toBlock }
        applied := chain.events.take (max n (chain.countUpTo toBlock))
        stream := if isValidGenesisState cfg.toGenesisConfig builder.state then .found toBlock else .fetched toBlock } ∧
      Inv env cfg chain follow (run.onNext env cfg chain) (max n (chain.countUpTo toBlock)) := by
  have hstands := h.stream
  rw [hstream] at hstands
  obtain ⟨hbelow, hbehind, hrestored, hle, hfollow⟩ := hstands
  obtain ⟨builder, happly, hstate, hsynced, hkeeps⟩ := @applyDeposits_taken P env cfg chain run n fromBlock toBlock
    h.synced h.applied hrestored hbehind
  have hthrough := through_max (hbelow.mono hle)
  have hnext : run.onNext env cfg chain = { run with
      builder := { builder with
        state := withBlock cfg chain builder.state toBlock
        lastProcessedBlockNumber := some toBlock }
      applied := chain.events.take (max n (chain.countUpTo toBlock))
      stream := if isValidGenesisState cfg.toGenesisConfig (withBlock cfg chain builder.state toBlock)
        then .found toBlock else .fetched toBlock } := by
    unfold Run.onNext
    rw [hstream]
    dsimp only
    rw [happly]
    rfl
  refine ⟨{ builder with state := withBlock cfg chain builder.state toBlock }, ?_, hnext, ?_⟩
  · dsimp only
    rw [hstate]
  rw [hnext]
  refine ⟨⟨hsynced.le, hsynced.tree,
    ⟨hsynced.counted.depositCount, hsynced.counted.eth1DepositIndex, hsynced.counted.paired⟩, hsynced.cache⟩, rfl,
    hthrough.below.mono hfollow, ?_, ?_, h.persisted⟩
  · intro blockNumber hlast
    cases hlast
    exact hthrough
  · dsimp only
    split
    · exact hthrough
    · exact ⟨hthrough, (hkeeps _ hrestored).mono hle, hfollow⟩

theorem onNext_cases (env : GenesisEnv P) (cfg : StreamConfig) (chain : Eth1Chain) (run : Run P) :
    run.onNext env cfg chain = run ∨
      (∃ fromBlock batch batches, run.stream = .deposits fromBlock (batch :: batches)) ∨
      ∃ fromBlock toBlock, run.stream = .blocks fromBlock toBlock := by
  unfold Run.onNext
  cases run.stream with
  | deposits fromBlock batches =>
    cases batches with
    | nil => exact .inl rfl
    | cons batch batches => exact .inr (.inl ⟨_, _, _, rfl⟩)
  | blocks fromBlock toBlock => exact .inr (.inr ⟨_, _, rfl⟩)
  | enoughValidators blockNumber => exact .inl rfl
  | fetched toBlock => exact .inl rfl
  | found blockNumber => exact .inl rfl
  | stopped error => exact .inl rfl

theorem Inv.onNext (h : Inv env cfg chain follow run n) :
    ∃ m, Inv env cfg chain follow (run.onNext env cfg chain) m := by
  rcases onNext_cases env cfg chain run with heq | ⟨fromBlock, batch, batches, hstream⟩ | ⟨fromBlock, toBlock, hstream⟩
  · rw [heq]
    exact ⟨n, h⟩
  · obtain ⟨-, -, -, hinv⟩ := h.onNext_batch hstream
    exact ⟨_, hinv⟩
  · obtain ⟨-, -, -, hinv⟩ := h.onNext_blocks hstream
    exact ⟨_, hinv⟩

theorem Inv.stop (h : Inv env cfg chain follow run n) (error : String) :
    Inv env cfg chain follow (run.stop error) n where
  synced := h.synced
  applied := h.applied
  seen := h.seen
  last := h.last
  stream := trivial
  persisted := by
    intro status applied hpersisted
    unfold Run.stop at hpersisted
    cases hlast : run.builder.lastProcessedBlockNumber with
    | none =>
      rw [hlast] at hpersisted
      exact h.persisted status applied hpersisted
    | some lastProcessedBlockNumber =>
      rw [hlast] at hpersisted
      cases hpersisted
      exact ⟨n, h.synced.le, h.synced.tree, h.synced.counted, h.applied, h.last _ hlast, h.seen⟩

/-! ## New builders -/

theorem createCachedBeaconState_countedIn {cached : CachedBeaconState P} {n : Nat}
    (h : createCachedBeaconState env.toEnv cfg.toChainConfig state.toBeaconState noOpts = .ok cached)
    (hcounted : CountedIn state.toCachedBeaconState n) : CountedIn cached n := by
  obtain ⟨-, _, _, _, hst⟩ := createCachedBeaconState_ok h
  refine ⟨?_, ?_, ?_⟩ <;> rw [hst]
  · exact hcounted.depositCount
  · exact hcounted.eth1DepositIndex
  · exact hcounted.paired

theorem new_none_ok (h : GenesisBuilder.new env cfg none = .ok builder) :
    ∃ cached, createCachedBeaconState env.toEnv cfg.toChainConfig (genesisBeaconState cfg.toGenesisConfig defaultEth1Data
        (getTemporaryBlockHeader env.toEnv cfg.toChainConfig)) noOpts = .ok cached ∧
      builder = { state := { toCachedBeaconState := cached, genesisTime := 0, genesisValidatorsRoot := zeroRoot }
                  depositTree := [], fromBlock := cfg.deployBlock } := by
  obtain ⟨state, hstate, h⟩ := bind_eq_ok.1 h
  obtain ⟨cached, hcached, hstate⟩ := bind_eq_ok.1 hstate
  rw [pure_eq_ok] at h hstate
  subst hstate
  exact ⟨cached, hcached, h.symm⟩

theorem new_none_synced (h : GenesisBuilder.new env cfg none = .ok builder) :
    Synced env chain builder 0 ∧ builder.depositCache = [] ∧ builder.lastProcessedBlockNumber = none ∧
      builder.fromBlock = cfg.deployBlock := by
  obtain ⟨cached, hcached, rfl⟩ := new_none_ok h
  obtain ⟨-, _, _, _, hst⟩ := createCachedBeaconState_ok hcached
  refine ⟨⟨Nat.zero_le _, rfl, ⟨?_, ?_, ?_⟩, fun i hi => absurd hi List.not_mem_nil⟩, rfl, rfl, rfl⟩ <;>
  · show _ = _
    rw [hst]
    rfl

theorem new_some_synced {n : Nat} (h : GenesisBuilder.new env cfg (some pending) = .ok builder) (hle : n ≤ chain.events.length)
    (htree : pending.depositTree = (depositRoots env chain).take n) (hcounted : CountedIn pending.state.toCachedBeaconState n) :
    Synced env chain builder n ∧ builder.depositCache = [] ∧ builder.lastProcessedBlockNumber = none ∧
      builder.fromBlock = max (pending.lastProcessedBlockNumber + 1) cfg.deployBlock := by
  obtain ⟨cached, hcached, h⟩ := bind_eq_ok.1 h
  rw [pure_eq_ok] at h
  subst h
  exact ⟨⟨hle, htree, createCachedBeaconState_countedIn hcached hcounted, fun i hi => absurd hi List.not_mem_nil⟩, rfl, rfl, rfl⟩

theorem stands_new {n follow fromBlock : Nat} (hbehind : Behind chain n fromBlock)
    (hbelow : ∀ (i : Nat) (event : DepositEvent), chain.events[i]? = some event → i < n → event.blockNumber < fromBlock) :
    Stands cfg chain builder n follow (.deposits fromBlock []) := by
  refine ⟨fun i event hi hn => (hbelow i event hi hn).le, fun i event hi hn _ => hbelow i event hi hn, ?_, .nil,
    fun batch hbatch => absurd hbatch List.not_mem_nil⟩
  intro i event hi hn hblock
  have := hbehind i event hi hn
  omega

theorem Inv.restore (hdeploy : ∀ event ∈ chain.events, cfg.deployBlock ≤ event.blockNumber) (h : Inv env cfg chain follow run n) :
    ∃ m, Inv env cfg chain follow (run.restore env cfg) m := by
  unfold Run.restore
  cases hnew : GenesisBuilder.new env cfg (run.persisted.map (·.1)) with
  | error error => exact ⟨n, h.synced, h.applied, h.seen, h.last, trivial, h.persisted⟩
  | ok builder =>
    dsimp only
    cases hpersisted : run.persisted with
    | none =>
      rw [hpersisted] at hnew
      obtain ⟨hsynced, -, hlast, hfrom⟩ := @new_none_synced P env cfg chain builder hnew
      refine ⟨0, hsynced, rfl, below_zero _, fun block hblock => ?_, ?_, fun _ _ hp => h.persisted _ _ (hpersisted.trans hp)⟩
      · rw [hlast] at hblock
        cases hblock
      · rw [hfrom, Nat.max_self]
        exact stands_new (fun i event hi _ => hdeploy event (List.mem_of_getElem? hi))
          fun i event _ hn => absurd hn (Nat.not_lt_zero i)
    | some persisted =>
      obtain ⟨status, applied⟩ := persisted
      obtain ⟨m, hle, htree, hcounted, happlied, hthrough, hseen⟩ := h.persisted status applied hpersisted
      rw [hpersisted] at hnew
      obtain ⟨hsynced, -, hlast, hfrom⟩ := @new_some_synced P env cfg chain builder status m hnew hle htree hcounted
      refine ⟨m, hsynced, happlied, hseen, fun block hblock => ?_, ?_, fun _ _ hp => h.persisted _ _ (hpersisted.trans hp)⟩
      · rw [hlast] at hblock
        cases hblock
      · rw [hfrom]
        refine stands_new (fun i event hi hn => ?_) fun i event hi hn => ?_
        · have hblock := hthrough.behind i event hi hn
          have hdep := hdeploy event (List.mem_of_getElem? hi)
          omega
        · have := hthrough.below i event hi hn
          omega

/-! ## Runs -/

def followOf (cfg : StreamConfig) (events : List Event) : Nat := getRemoteFollowBlock cfg ((heights events).getLast?.getD 0)

theorem heights_concat (before : List Event) (event : Event) : heights (before ++ [event]) =
    heights before ++ match event with
      | .height remoteHighestBlock => [remoteHighestBlock]
      | .next | .abort _ | .restart => [] := by
  unfold heights
  rw [List.filterMap_append]
  cases event <;> rfl

theorem followOf_height (before : List Event) (remoteHighestBlock : Nat) :
    followOf cfg (before ++ [.height remoteHighestBlock]) = getRemoteFollowBlock cfg remoteHighestBlock := by
  unfold followOf
  rw [heights_concat, List.getLast?_concat]
  rfl

variable {before : List Event}

theorem followOf_mono {event : Event} (h : (heights (before ++ [event])).Pairwise (· ≤ ·)) :
    followOf cfg before ≤ followOf cfg (before ++ [event]) := by
  rw [heights_concat] at h
  unfold followOf
  rw [heights_concat]
  cases event with
  | height remoteHighestBlock =>
    rw [List.getLast?_concat, Option.getD_some]
    cases hlast : (heights before).getLast? with
    | none => exact Nat.sub_le_sub_right (Nat.zero_le _) _
    | some last =>
      have := (List.pairwise_append.1 h).2.2 last (List.mem_of_getLast? hlast) remoteHighestBlock (by simp)
      exact Nat.sub_le_sub_right this _
  | next => rw [List.append_nil]
  | abort error => rw [List.append_nil]
  | restart => rw [List.append_nil]

theorem Inv.step (hdeploy : ∀ event ∈ chain.events, cfg.deployBlock ≤ event.blockNumber) {n : Nat}
    (h : Inv env cfg chain (followOf cfg before) run n) {event : Event} (hheights : (heights (before ++ [event])).Pairwise (· ≤ ·))
    (hahead : Ahead cfg chain run event) :
    ∃ m, Inv env cfg chain (followOf cfg (before ++ [event])) (run.step env cfg chain event) m := by
  have hgrows := @followOf_mono cfg before event hheights
  cases event with
  | height remoteHighestBlock =>
    rw [followOf_height] at hgrows ⊢
    exact ⟨n, h.onHeight hdeploy hgrows hahead⟩
  | next =>
    obtain ⟨m, hm⟩ := h.onNext
    exact ⟨m, hm.mono hgrows⟩
  | abort error =>
    show ∃ m, Inv env cfg chain _ (run.onAbort error) m
    unfold Run.onAbort
    cases run.stream with
    | found blockNumber => exact ⟨n, h.mono hgrows⟩
    | stopped error' => exact ⟨n, h.mono hgrows⟩
    | deposits fromBlock batches => exact ⟨n, (h.stop error).mono hgrows⟩
    | enoughValidators blockNumber => exact ⟨n, (h.stop error).mono hgrows⟩
    | blocks fromBlock toBlock => exact ⟨n, (h.stop error).mono hgrows⟩
    | fetched toBlock => exact ⟨n, (h.stop error).mono hgrows⟩
  | restart =>
    obtain ⟨m, hm⟩ := h.restore hdeploy
    show ∃ m, Inv env cfg chain _ (run.onRestart env cfg) m
    unfold Run.onRestart
    cases run.stream with
    | found blockNumber => exact ⟨n, h.mono hgrows⟩
    | stopped error' => exact ⟨m, hm.mono hgrows⟩
    | deposits fromBlock batches => exact ⟨m, hm.mono hgrows⟩
    | enoughValidators blockNumber => exact ⟨m, hm.mono hgrows⟩
    | blocks fromBlock toBlock => exact ⟨m, hm.mono hgrows⟩
    | fetched toBlock => exact ⟨m, hm.mono hgrows⟩

theorem start_inv (hdeploy : ∀ event ∈ chain.events, cfg.deployBlock ≤ event.blockNumber)
    (hnew : GenesisBuilder.new env cfg none = .ok builder) (follow : Nat) :
    Inv env cfg chain follow (Run.start cfg builder) 0 := by
  obtain ⟨hsynced, -, hlast, hfrom⟩ := @new_none_synced P env cfg chain builder hnew
  refine ⟨hsynced, rfl, below_zero _, fun block hblock => ?_, ?_, fun status applied hp => by cases hp⟩
  · rw [show (Run.start cfg builder).builder.lastProcessedBlockNumber = none from hlast] at hblock
    cases hblock
  · show Stands cfg chain builder 0 follow (.deposits (max builder.fromBlock cfg.deployBlock) [])
    rw [hfrom, Nat.max_self]
    exact stands_new (fun i event hi _ => hdeploy event (List.mem_of_getElem? hi))
      fun i event _ hn => absurd hn (Nat.not_lt_zero i)

theorem runs_concat (run : Run P) (before : List Event) (event : Event) :
    run.runs env cfg chain (before ++ [event]) = (run.runs env cfg chain before).step env cfg chain event := by
  unfold Run.runs
  rw [List.foldl_concat]

variable {before events : List Event}

theorem heights_sorted (hheights : (heights events).Pairwise (· ≤ ·)) (hpre : before <+: events) :
    (heights before).Pairwise (· ≤ ·) := by
  obtain ⟨rest, rfl⟩ := hpre
  have happend : heights (before ++ rest) = heights before ++ heights rest := List.filterMap_append
  rw [happend] at hheights
  exact (List.pairwise_append.1 hheights).1

theorem runs_inv (hdeploy : ∀ event ∈ chain.events, cfg.deployBlock ≤ event.blockNumber)
    (hnew : GenesisBuilder.new env cfg none = .ok builder) (hheights : (heights events).Pairwise (· ≤ ·))
    (hahead : ∀ before event, before ++ [event] <+: events → Ahead cfg chain ((Run.start cfg builder).runs env cfg chain before) event) :
    ∀ before, before <+: events →
      ∃ n, Inv env cfg chain (followOf cfg before) ((Run.start cfg builder).runs env cfg chain before) n := by
  intro before
  induction before using List.reverseRecOn with
  | nil => exact fun _ => ⟨0, start_inv hdeploy hnew _⟩
  | append_singleton before event ih =>
    intro hpre
    obtain ⟨n, hn⟩ := ih ((List.prefix_append before [event]).trans hpre)
    rw [runs_concat]
    exact hn.step hdeploy (heights_sorted hheights hpre) (hahead before event hpre)

/-- State, tree and count are in step: the deposits were processed once each and in their order, from the first on. -/
structure InStep (env : GenesisEnv P) (chain : Eth1Chain) (run : Run P) : Prop where
  applied : run.applied <+: chain.events
  tree : run.builder.depositTree = run.applied.map fun event => env.depositDataRoot event.depositData
  depositCount : run.builder.state.eth1Data.depositCount = run.applied.length
  eth1DepositIndex : run.builder.state.eth1DepositIndex = run.applied.length

theorem Inv.inStep (h : Inv env cfg chain follow run n) : InStep env chain run where
  applied := by
    rw [h.applied]
    exact List.take_prefix _ _
  tree := by
    rw [h.synced.tree, h.applied]
    exact List.map_take.symm
  depositCount := by
    rw [h.synced.counted.depositCount, h.applied, List.length_take, Nat.min_eq_left h.synced.le]
  eth1DepositIndex := by
    rw [h.synced.counted.eth1DepositIndex, h.applied, List.length_take, Nat.min_eq_left h.synced.le]

/-- **In a run whose polls end ahead** every state is in step with the chain, over any number of restarts. -/
theorem runs_inStep (hdeploy : ∀ event ∈ chain.events, cfg.deployBlock ≤ event.blockNumber) (builder : GenesisBuilder P)
    (hnew : GenesisBuilder.new env cfg none = .ok builder) (events : List Event)
    (hheights : (heights events).Pairwise (· ≤ ·))
    (hahead : ∀ before event, before ++ [event] <+: events →
      Ahead cfg chain ((Run.start cfg builder).runs env cfg chain before) event) :
    ∀ before, before <+: events → InStep env chain ((Run.start cfg builder).runs env cfg chain before) := by
  intro before hpre
  obtain ⟨n, hn⟩ := runs_inv hdeploy hnew hheights hahead before hpre
  exact hn.inStep

/-! ## A restart at the head of the chain -/

def plainGenesisEnv : GenesisEnv minimal := merkleGenesisEnv (plainEnv minimal) fun _ => zeroRoot

def plainStreamConfig : StreamConfig where
  toChainConfig := minimalConfig ⊤
  GENESIS_FORK_VERSION := minimalForkVersion
  MIN_GENESIS_ACTIVE_VALIDATOR_COUNT := 64
  MIN_GENESIS_TIME := 1578009600
  GENESIS_DELAY := 300
  ETH1_FOLLOW_DISTANCE := 16
  SECONDS_PER_ETH1_BLOCK := 14
  secondsPerEth1Block_pos := by decide
  maxBlocksPerPoll := 10000
  deployBlock := 0

def oneDeposit : Eth1Chain where
  timestamp n := 1578000000 + 14 * n
  blockHash _ := zeroRoot
  events := [⟨⟨Vector.replicate 48 0, zeroRoot, 32000000000, Vector.replicate 96 0⟩, 2, 0⟩]
  index_eq i event h := by
    cases i with
    | zero =>
      cases h
      rfl
    | succ i => cases h
  ordered := List.pairwise_singleton _ _
  length_le := by decide

def resumed : List Event := [.height 18, .next, .abort "aborted", .restart, .height 19]

theorem runs_inStep_resumed : ∃ builder, GenesisBuilder.new plainGenesisEnv plainStreamConfig none = .ok builder ∧
    InStep plainGenesisEnv oneDeposit
      ((Run.start plainStreamConfig builder).runs plainGenesisEnv plainStreamConfig oneDeposit resumed) := by
  -- the blocks from which the two polls fetch
  have hpolls : ((GenesisBuilder.new plainGenesisEnv plainStreamConfig none).map fun builder =>
      [0, 4].map fun k =>
        match ((Run.start plainStreamConfig builder).runs plainGenesisEnv plainStreamConfig oneDeposit (resumed.take k)).stream with
        | .deposits fromBlock _ => fromBlock
        | _ => 0) = .ok [0, 3] := by
    decide +kernel
  cases hnew : GenesisBuilder.new plainGenesisEnv plainStreamConfig none with
  | error error =>
    rw [hnew] at hpolls
    cases hpolls
  | ok builder =>
    rw [hnew] at hpolls
    simp only [Except.map, Except.ok.injEq, List.map_cons, List.map_nil, List.cons.injEq, and_true] at hpolls
    refine ⟨builder, rfl, runs_inStep ?_ builder hnew resumed (by decide) ?_ resumed (List.prefix_refl _)⟩
    · intro event _
      exact Nat.zero_le _
    · intro before event hpre
      have hbefore : before = resumed.take before.length :=
        List.prefix_iff_eq_take.1 ((List.prefix_append before [event]).trans hpre)
      have hlength : before.length < 5 := by
        have := hpre.length_le
        rw [List.length_append] at this
        exact this
      have hevent : resumed[before.length]? = some event := by
        obtain ⟨rest, hrest⟩ := hpre
        rw [← hrest]
        simp
      generalize before.length = k at hbefore hlength hevent
      subst hbefore
      interval_cases k
      · cases hevent
        intro fromBlock hstream
        rw [hstream] at hpolls
        exact .inl (hpolls.1.trans_le (Nat.zero_le _))
      · cases hevent
        trivial
      · cases hevent
        trivial
      · cases hevent
        trivial
      · cases hevent
        intro fromBlock hstream
        rw [hstream] at hpolls
        exact .inl (hpolls.2.trans_le (by decide))

def heldBack : List Event := [.height 18, .next, .abort "aborted", .restart, .height 18, .height 19, .next]

/-- The one deposit is processed twice, and its validator has twice its amount. -/
theorem restart_applies_twice : ∃ builder, GenesisBuilder.new plainGenesisEnv plainStreamConfig none = .ok builder ∧
    (heights heldBack).Pairwise (· ≤ ·) ∧
    let run := (Run.start plainStreamConfig builder).runs plainGenesisEnv plainStreamConfig oneDeposit heldBack
    run.applied.map (·.index) = [0, 0] ∧ run.builder.state.eth1Data.depositCount = 2 ∧
      run.builder.depositTree.length = 2 ∧ run.builder.state.balances = [64000000000] ∧
      ¬ InStep plainGenesisEnv oneDeposit run := by
  have hrun : ((GenesisBuilder.new plainGenesisEnv plainStreamConfig none).map fun builder =>
      let run := (Run.start plainStreamConfig builder).runs plainGenesisEnv plainStreamConfig oneDeposit heldBack
      (run.applied.map (·.index), run.builder.state.eth1Data.depositCount, run.builder.depositTree.length,
        run.builder.state.balances)) = .ok ([0, 0], 2, 2, [64000000000]) := by
    decide +kernel
  cases hnew : GenesisBuilder.new plainGenesisEnv plainStreamConfig none with
  | error error =>
    rw [hnew] at hrun
    cases hrun
  | ok builder =>
    rw [hnew] at hrun
    simp only [Except.map, Except.ok.injEq, Prod.mk.injEq] at hrun
    obtain ⟨happlied, hcount, htree, hbalances⟩ := hrun
    refine ⟨builder, rfl, by decide, happlied, hcount, htree, hbalances, fun h => ?_⟩
    have hlength := h.applied.length_le
    have htwo := congrArg List.length happlied
    rw [List.length_map] at htwo
    rw [htwo] at hlength
    exact absurd hlength (by decide)

end Lodestar.Chain
