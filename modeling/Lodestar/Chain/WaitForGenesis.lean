import Mathlib.Data.Prod.Lex
import Lodestar.Chain.GenesisRuns
import Lodestar.Lib.Runs
/-!
# WaitForGenesis — which block the builder returns

`ValidAt` is the condition on a block: enough validators by the deposits up to it, and late enough.  The builder returns a
block that satisfies it, with the state of just those deposits, however they came in batches.  In the second phase it jumps
half the way to genesis that it estimates from the configured block time, so it is sure of the earliest such block just where
the blocks of the chain are never that much slower (`Paced`).
-/
namespace Lodestar.Chain

open Lib StateTransition Eth1

variable {P : Preset} {env : GenesisEnv P} {cfg : StreamConfig} {chain : Eth1Chain}

/-! ## The state of the first deposits -/

section

variable (env : GenesisEnv P) (cfg : StreamConfig) (chain : Eth1Chain) (init : GenesisState P)

def rawState (n : Nat) : CachedBeaconState P :=
  ((chain.events.take n).map (·.depositData)).foldl (depositStep env cfg.toGenesisConfig (depositRoots env chain))
    init.toCachedBeaconState

def Enough (n : Nat) : Prop :=
  cfg.MIN_GENESIS_ACTIVE_VALIDATOR_COUNT ≤ activeCount (rawState env cfg chain init n).toBeaconState

def TooEarly (cfg : StreamConfig) (chain : Eth1Chain) (blockNumber : Nat) : Prop :=
  chain.timestamp blockNumber + cfg.GENESIS_DELAY < cfg.MIN_GENESIS_TIME

/-- The deposits up to the block give enough active validators, and its time is late enough. -/
def ValidAt (blockNumber : Nat) : Prop :=
  Enough env cfg chain init (chain.countUpTo blockNumber) ∧ ¬ TooEarly cfg chain blockNumber

def genesisAt (blockNumber : Nat) : GenesisState P :=
  withBlock cfg chain (advanced env cfg chain init 0 (chain.countUpTo blockNumber)) blockNumber

end

variable {init : GenesisState P} {n m a b blockNumber p timestamp j q toBlock fromBlock low high gap : Nat}

theorem rawState_between :
    ((between chain n m).map (·.depositData)).foldl (depositStep env cfg.toGenesisConfig (depositRoots env chain))
      (rawState env cfg chain init n) = rawState env cfg chain init (max n m) := by
  unfold rawState
  rcases Nat.le_total n m with hle | hge
  · rw [← List.foldl_append, ← List.map_append, take_append_between hle, Nat.max_eq_right hle]
  · have hnone : between chain n m = [] := by
      unfold between
      rw [List.drop_eq_nil_iff, List.length_take]
      omega
    rw [hnone, Nat.max_eq_left hge]
    rfl

theorem rawState_paired (hpaired : Paired init.toBeaconState) (n : Nat) :
    Paired (rawState env cfg chain init n).toBeaconState :=
  steps_paired env cfg.toGenesisConfig _ _ hpaired

theorem Enough.mono (hpaired : Paired init.toBeaconState) (hle : n ≤ m) (h : Enough env cfg chain init n) :
    Enough env cfg chain init m := by
  have hsteps := activeCount_steps env cfg.toGenesisConfig (depositRoots env chain) ((between chain n m).map (·.depositData))
    (@rawState_paired P env cfg chain init hpaired n)
  rw [rawState_between, Nat.max_eq_right hle] at hsteps
  exact h.trans hsteps

theorem TooEarly.mono (htime : ∀ a b, a < b → chain.timestamp a < chain.timestamp b) (hle : a ≤ b) (h : TooEarly cfg chain b)
    : TooEarly cfg chain a := by
  unfold TooEarly at h ⊢
  rcases Nat.lt_or_eq_of_le hle with hlt | rfl
  · have := htime a b hlt
    omega
  · exact h

variable {init state : GenesisState P}

section

variable (hinit : Paired init.toBeaconState) (hpaired : Paired state.toBeaconState)
  (h : settled state.toCachedBeaconState = settled (rawState env cfg chain init n))
include hinit hpaired h

theorem settled_advanced (m : Nat) :
    settled (advanced env cfg chain state n m).toCachedBeaconState = settled (rawState env cfg chain init (max n m)) := by
  show settled (activated _) = _
  rw [settled_activated, settled_steps env cfg.toGenesisConfig (depositRoots env chain) _ hpaired (rawState_paired hinit n) h,
    rawState_between]

theorem advanced_validators (m : Nat) :
    (advanced env cfg chain state n m).validators = (activated (rawState env cfg chain init (max n m))).validators := by
  have hsettled := settled_steps env cfg.toGenesisConfig (depositRoots env chain) ((between chain n m).map (·.depositData))
    hpaired (rawState_paired hinit n) h
  rw [rawState_between] at hsettled
  exact congrArg (·.validators) hsettled

theorem isValidGenesisValidators_advanced (m : Nat) :
    isValidGenesisValidators cfg.toGenesisConfig (advanced env cfg chain state n m).toBeaconState = true ↔
      Enough env cfg chain init (max n m) := by
  have hvalid : isValidGenesisValidators cfg.toGenesisConfig (advanced env cfg chain state n m).toBeaconState =
      isValidGenesisValidators cfg.toGenesisConfig (activated (rawState env cfg chain init (max n m))).toBeaconState := by
    unfold isValidGenesisValidators getActiveValidatorIndices
    rw [advanced_validators hinit hpaired h m]
  rw [hvalid, isValidGenesisValidators_activated, decide_eq_true_iff]
  rfl

variable {blockNumber : Nat}

theorem withBlock_advanced (hle : n ≤ chain.countUpTo blockNumber) :
    withBlock cfg chain (advanced env cfg chain state n (chain.countUpTo blockNumber)) blockNumber =
      genesisAt env cfg chain init blockNumber := by
  have hsettled := settled_steps env cfg.toGenesisConfig (depositRoots env chain)
    ((between chain n (chain.countUpTo blockNumber)).map (·.depositData)) hpaired (rawState_paired hinit n) h
  rw [rawState_between, Nat.max_eq_right hle] at hsettled
  have hblock := congrArg (applyEth1BlockHash · (chain.blockHash blockNumber)) hsettled
  have hvalidators : env.validatorsRoot (activated (((between chain n (chain.countUpTo blockNumber)).map (·.depositData)).foldl
      (depositStep env cfg.toGenesisConfig (depositRoots env chain)) state.toCachedBeaconState)).validators =
      env.validatorsRoot (activated (rawState env cfg chain init (chain.countUpTo blockNumber))).validators := by
    have hroot := congrArg (fun s : CachedBeaconState P => env.validatorsRoot s.validators) hsettled
    exact hroot
  unfold genesisAt withBlock advanced applyTimestamp
  dsimp only
  congr 1

end

/-! ## Runs without a restart -/

/-- The first `n` deposits end the first phase, which looks at the validators only after a batch. -/
def Ready (env : GenesisEnv P) (cfg : StreamConfig) (chain : Eth1Chain) (init : GenesisState P) (n : Nat) : Prop :=
  0 < n ∧ Enough env cfg chain init n

theorem Ready.mono (hpaired : Paired init.toBeaconState) (hle : n ≤ m) (h : Ready env cfg chain init n) :
    Ready env cfg chain init m := ⟨h.1.trans_le hle, h.2.mono hpaired hle⟩

/-- Where `waitForGenesis` stands against the validity of blocks. -/
def Phase (env : GenesisEnv P) (cfg : StreamConfig) (chain : Eth1Chain) (init : GenesisState P) (run : Run P) (n : Nat) :
    Stream → Prop
  | .deposits _ _ => ¬ Ready env cfg chain init n
  | .enoughValidators blockNumber => Ready env cfg chain init n ∧
    ∀ p, p < blockNumber → ¬ Ready env cfg chain init (chain.countUpTo p)
  | .blocks _ _ => Ready env cfg chain init n
  | .fetched toBlock => Ready env cfg chain init n ∧ TooEarly cfg chain toBlock
  | .found blockNumber => Ready env cfg chain init n ∧ ¬ TooEarly cfg chain blockNumber ∧
    run.builder.state = genesisAt env cfg chain init blockNumber
  | .stopped _ => False

structure Waits (env : GenesisEnv P) (cfg : StreamConfig) (chain : Eth1Chain) (init : GenesisState P) (follow : Nat)
    (run : Run P) (n : Nat) : Prop where
  inv : Inv env cfg chain follow run n
  settled : settled run.builder.state.toCachedBeaconState = settled (rawState env cfg chain init n)
  polled : ∀ fromBlock batches, run.stream = .deposits fromBlock batches → fromBlock ≤ max follow cfg.deployBlock ∧
    ∀ batch ∈ batches, ∃ event ∈ chain.events, event.blockNumber = batch.blockNumber
  phase : Phase env cfg chain init run n run.stream

variable {follow n : Nat} {run : Run P} {remoteHighestBlock : Nat}

theorem Waits.ahead (hdeploy : ∀ event ∈ chain.events, cfg.deployBlock ≤ event.blockNumber)
    (h : Waits env cfg chain init follow run n) (hfollow : follow ≤ getRemoteFollowBlock cfg remoteHighestBlock) :
    Ahead cfg chain run (.height remoteHighestBlock) := by
  intro fromBlock hstream
  have hle := (h.polled fromBlock [] hstream).1
  by_cases hahead : fromBlock ≤ getRemoteFollowBlock cfg remoteHighestBlock
  · exact .inl hahead
  · refine .inr fun event hevent heq => ?_
    have := hdeploy event hevent
    omega

theorem Waits.onHeight (hdeploy : ∀ event ∈ chain.events, cfg.deployBlock ≤ event.blockNumber)
    (h : Waits env cfg chain init follow run n) (hfollow : follow ≤ getRemoteFollowBlock cfg remoteHighestBlock) :
    Waits env cfg chain init (getRemoteFollowBlock cfg remoteHighestBlock) (run.onHeight cfg chain remoteHighestBlock) n := by
  have hinv := h.inv.onHeight hdeploy hfollow (h.ahead hdeploy hfollow)
  have hphase := h.phase
  rcases onHeight_cases cfg chain run remoteHighestBlock with heq | ⟨fromBlock, hstream⟩ | ⟨blockNumber, hstream⟩ |
    ⟨toBlock, hstream⟩
  · rw [heq] at hinv ⊢
    refine ⟨hinv, h.settled, fun fromBlock batches hstream => ?_, hphase⟩
    obtain ⟨hle, hoccurs⟩ := h.polled fromBlock batches hstream
    exact ⟨by omega, hoccurs⟩
  · rw [hstream] at hphase
    obtain ⟨toBlock, hto, heq⟩ := @onHeight_deposits P cfg chain run remoteHighestBlock fromBlock hstream
    rw [heq] at hinv ⊢
    refine ⟨hinv, h.settled, fun fromBlock' batches' hstream' => ?_, hphase⟩
    cases hstream'
    refine ⟨by omega, fun batch hbatch => ?_⟩
    obtain ⟨event, hevent, hblock⟩ := (chain.batched_getDepositEvents fromBlock toBlock).occurs batch hbatch
    exact ⟨event, (Eth1Chain.mem_getDepositEvents.1 hevent).1, hblock⟩
  · rw [hstream] at hphase
    rw [h.inv.onHeight_enough hfollow hstream] at hinv ⊢
    exact ⟨hinv, h.settled, fun _ _ hstream' => Stream.noConfusion hstream', hphase.1⟩
  · rw [hstream] at hphase
    rw [onHeight_fetched hstream] at hinv ⊢
    exact ⟨hinv, h.settled, fun _ _ hstream' => Stream.noConfusion hstream', hphase.1⟩

theorem countUpTo_le_of_behind (hbehind : Behind chain n blockNumber) (hp : p < blockNumber) :
    chain.countUpTo p ≤ n := by
  by_contra hlt
  have hlength := chain.countUpTo_le p
  have hget : chain.events[n]? = some chain.events[n] := List.getElem?_eq_getElem (by omega)
  have hblock := (chain.lt_countUpTo_iff hget p).1 (by omega)
  have := hbehind n _ hget (Nat.le_refl n)
  omega

theorem isValidGenesisState_iff (hinit : Paired init.toBeaconState) (hpaired : Paired state.toBeaconState)
    (h : settled state.toCachedBeaconState = settled (rawState env cfg chain init n)) (m blockNumber : Nat) :
    isValidGenesisState cfg.toGenesisConfig (withBlock cfg chain (advanced env cfg chain state n m) blockNumber) = true ↔
      ¬ TooEarly cfg chain blockNumber ∧ Enough env cfg chain init (max n m) := by
  rw [← isValidGenesisValidators_advanced hinit hpaired h m]
  unfold isValidGenesisState TooEarly
  rw [Bool.and_eq_true, decide_eq_true_iff, Nat.not_lt]
  rfl

theorem Through.eq_countUpTo (h : Through chain n blockNumber) (hn : n ≤ chain.events.length) :
    n = chain.countUpTo blockNumber := by
  have hle := chain.countUpTo_le blockNumber
  rcases Nat.lt_trichotomy n (chain.countUpTo blockNumber) with hlt | heq | hgt
  · have hget : chain.events[n]? = some chain.events[n] := List.getElem?_eq_getElem (by omega)
    have := (h n _ hget).2 ((chain.lt_countUpTo_iff hget blockNumber).1 hlt)
    omega
  · exact heq
  · have hget : chain.events[chain.countUpTo blockNumber]? = some chain.events[chain.countUpTo blockNumber] :=
      List.getElem?_eq_getElem (by omega)
    have := (chain.lt_countUpTo_iff hget blockNumber).2 ((h _ _ hget).1 hgt)
    omega

theorem countUpTo_pos {event : DepositEvent} (h : event ∈ chain.events) : 0 < chain.countUpTo event.blockNumber := by
  obtain ⟨i, hi⟩ := List.getElem?_of_mem h
  have := (chain.lt_countUpTo_iff hi event.blockNumber).2 (Nat.le_refl _)
  omega

theorem Waits.onNext_batch (hinit : Paired init.toBeaconState) (h : Waits env cfg chain init follow run n)
    {fromBlock : Nat} {batch : IBatchDepositEvents} {batches : List IBatchDepositEvents}
    (hstream : run.stream = .deposits fromBlock (batch :: batches)) :
    ∃ m, Waits env cfg chain init follow (run.onNext env cfg chain) m := by
  have hphase := h.phase
  have hstands := h.inv.stream
  have hpaired := h.inv.synced.counted.paired
  rw [hstream] at hphase hstands
  obtain ⟨builder, hstate, hnext, hinv⟩ := h.inv.onNext_batch hstream
  have hvalid := isValidGenesisValidators_advanced hinit hpaired h.settled (chain.countUpTo batch.blockNumber)
  rw [← hstate] at hvalid
  refine ⟨_, hinv, ?_, ?_, ?_⟩
  · rw [hnext, hstate]
    exact settled_advanced hinit hpaired h.settled _
  · rw [hnext]
    intro fromBlock' batches' hstream'
    split at hstream'
    · cases hstream'
    · cases hstream'
      obtain ⟨hle, hoccurs⟩ := h.polled _ _ hstream
      exact ⟨hle, fun batch hbatch => hoccurs batch (List.mem_cons_of_mem _ hbatch)⟩
  · rw [hnext]
    by_cases hcase : isValidGenesisValidators cfg.toGenesisConfig builder.state.toBeaconState = true
    · obtain ⟨event, hevent, hblock⟩ := (h.polled _ _ hstream).2 batch List.mem_cons_self
      have hpos := countUpTo_pos hevent
      rw [hblock] at hpos
      rw [if_pos hcase]
      refine ⟨⟨by omega, hvalid.1 hcase⟩, fun p hp hready => hphase (hready.mono hinit ?_)⟩
      exact countUpTo_le_of_behind (behind_batch hstands) hp
    · rw [if_neg hcase]
      exact fun hready => hcase (hvalid.2 hready.2)

theorem Waits.onNext_blocks (hinit : Paired init.toBeaconState) (h : Waits env cfg chain init follow run n)
    {fromBlock toBlock : Nat} (hstream : run.stream = .blocks fromBlock toBlock) :
    ∃ m, Waits env cfg chain init follow (run.onNext env cfg chain) m := by
  have hphase := h.phase
  have hpaired := h.inv.synced.counted.paired
  rw [hstream] at hphase
  obtain ⟨builder, hstate, hnext, hinv⟩ := h.inv.onNext_blocks hstream
  have hvalid := isValidGenesisState_iff hinit hpaired h.settled (chain.countUpTo toBlock) toBlock
  rw [← hstate] at hvalid
  have hready := hphase.mono hinit (Nat.le_max_left n (chain.countUpTo toBlock))
  have hcount : n ≤ chain.countUpTo toBlock := by
    have hthrough := hinv.last toBlock (by rw [hnext])
    have := hthrough.eq_countUpTo hinv.synced.le
    omega
  refine ⟨_, hinv, ?_, ?_, ?_⟩
  · rw [hnext, hstate]
    exact settled_advanced hinit hpaired h.settled _
  · rw [hnext]
    intro fromBlock' batches' hstream'
    split at hstream'
    · cases hstream'
    · cases hstream'
  · rw [hnext]
    by_cases hcase : isValidGenesisState cfg.toGenesisConfig builder.state = true
    · rw [if_pos hcase]
      exact ⟨hready, (hvalid.1 hcase).1, hstate.trans (withBlock_advanced hinit hpaired h.settled hcount)⟩
    · rw [if_neg hcase]
      refine ⟨hready, ?_⟩
      by_contra hlate
      exact hcase (hvalid.2 ⟨hlate, hready.2⟩)

theorem Waits.onNext (hinit : Paired init.toBeaconState) (h : Waits env cfg chain init follow run n) :
    ∃ m, Waits env cfg chain init follow (run.onNext env cfg chain) m := by
  rcases onNext_cases env cfg chain run with heq | ⟨fromBlock, batch, batches, hstream⟩ | ⟨fromBlock, toBlock, hstream⟩
  · rw [heq]
    exact ⟨n, h⟩
  · exact h.onNext_batch hinit hstream
  · exact h.onNext_blocks hinit hstream

def Uninterrupted (events : List Event) : Prop :=
  ∀ event ∈ events, event = .next ∨ ∃ remoteHighestBlock, event = .height remoteHighestBlock

variable {builder : GenesisBuilder P}

section

variable (hdeploy : ∀ event ∈ chain.events, cfg.deployBlock ≤ event.blockNumber)
  (hnew : GenesisBuilder.new env cfg none = .ok builder)
include hdeploy hnew

theorem start_waits (follow : Nat) : Waits env cfg chain builder.state follow (Run.start cfg builder) 0 where
  inv := start_inv hdeploy hnew follow
  settled := rfl
  polled := by
    intro fromBlock batches hstream
    obtain ⟨-, -, -, hfrom⟩ := @new_none_synced P env cfg chain builder hnew
    have hstart : (Run.start cfg builder).stream = .deposits cfg.deployBlock [] := by
      show Stream.deposits (max builder.fromBlock cfg.deployBlock) [] = _
      rw [hfrom, Nat.max_self]
    rw [hstart] at hstream
    cases hstream
    exact ⟨Nat.le_max_right _ _, fun batch hbatch => absurd hbatch List.not_mem_nil⟩
  phase := fun hready => absurd hready.1 (Nat.lt_irrefl 0)

variable {events : List Event}

theorem runs_waits (hheights : (heights events).Pairwise (· ≤ ·)) (hlive : Uninterrupted events) : ∀ before, before <+: events →
      ∃ n, Waits env cfg chain builder.state (followOf cfg before) ((Run.start cfg builder).runs env cfg chain before) n := by
  have hinit : Paired builder.state.toBeaconState := (@new_none_synced P env cfg chain builder hnew).1.counted.paired
  intro before
  induction before using List.reverseRecOn with
  | nil => exact fun _ => ⟨0, start_waits hdeploy hnew _⟩
  | append_singleton before event ih =>
    intro hpre
    obtain ⟨n, hn⟩ := ih ((List.prefix_append before [event]).trans hpre)
    have hgrows := @followOf_mono cfg before event (heights_sorted hheights hpre)
    rw [runs_concat]
    rcases hlive event (hpre.subset (by simp)) with rfl | ⟨remoteHighestBlock, rfl⟩
    · obtain ⟨m, hm⟩ := hn.onNext hinit
      refine ⟨m, hm.inv.mono hgrows, hm.settled, fun fromBlock batches hstream => ?_, hm.phase⟩
      obtain ⟨hle, hoccurs⟩ := hm.polled fromBlock batches hstream
      exact ⟨by omega, hoccurs⟩
    · rw [followOf_height] at hgrows ⊢
      exact ⟨n, hn.onHeight hdeploy hgrows⟩

end

/-! ## The earliest block -/

/-- The chain keeps the pace the jumps reckon with: with enough deposits, a block whose time to genesis is that of `2 (j + 1)`
blocks has its `j`-th successor still before genesis.  And where no validators are asked for, so is the block before the first
deposits, from which the search starts. -/
structure Paced (env : GenesisEnv P) (cfg : StreamConfig) (chain : Eth1Chain) (init : GenesisState P) : Prop where
  jumps : ∀ b j, Ready env cfg chain init (chain.countUpTo b) → j < cfg.maxBlocksPerPoll →
    chain.timestamp b + cfg.GENESIS_DELAY + 2 * (j + 1) * cfg.SECONDS_PER_ETH1_BLOCK ≤ cfg.MIN_GENESIS_TIME →
    TooEarly cfg chain (b + j)
  start : cfg.MIN_GENESIS_ACTIVE_VALIDATOR_COUNT = 0 → ∀ p, chain.countUpTo p = 0 → 0 < chain.countUpTo (p + 1) →
    TooEarly cfg chain p

theorem optimizeNextBlockDiffForGenesis_pos (cfg : StreamConfig) (timestamp : Nat) :
    0 < optimizeNextBlockDiffForGenesis cfg timestamp := by
  unfold optimizeNextBlockDiffForGenesis
  dsimp only
  split <;> omega

/-- **What a jump goes by**: it gets past the `j`-th block after the next when there is time for twice as many. -/
theorem lt_optimizeNextBlockDiffForGenesis_iff (hj : 0 < j) :
    j < optimizeNextBlockDiffForGenesis cfg timestamp ↔
      timestamp + cfg.GENESIS_DELAY + 2 * (j + 1) * cfg.SECONDS_PER_ETH1_BLOCK ≤ cfg.MIN_GENESIS_TIME := by
  have hpos : (0 : Int) < cfg.SECONDS_PER_ETH1_BLOCK := Int.natCast_pos.2 cfg.secondsPerEth1Block_pos
  have htime : (2 * (j + 1) : Int) ≤ ((cfg.MIN_GENESIS_TIME : Int) - cfg.GENESIS_DELAY - timestamp) / cfg.SECONDS_PER_ETH1_BLOCK ↔
      timestamp + cfg.GENESIS_DELAY + 2 * (j + 1) * cfg.SECONDS_PER_ETH1_BLOCK ≤ cfg.MIN_GENESIS_TIME := by
    rw [Int.le_ediv_iff_mul_le hpos]
    have hcast : ((2 * (j + 1) * cfg.SECONDS_PER_ETH1_BLOCK : Nat) : Int) = 2 * (j + 1) * cfg.SECONDS_PER_ETH1_BLOCK := by
      push_cast
      rfl
    rw [← hcast]
    omega
  rw [← htime]
  unfold optimizeNextBlockDiffForGenesis
  dsimp only
  generalize ((cfg.MIN_GENESIS_TIME : Int) - cfg.GENESIS_DELAY - timestamp) / cfg.SECONDS_PER_ETH1_BLOCK = blocks
  split <;> omega

def Reached (stream : Stream) (q : Nat) : Prop := stream = .found q ∨ ∃ fromBlock, stream = .blocks fromBlock q

def Earliest (env : GenesisEnv P) (cfg : StreamConfig) (chain : Eth1Chain) (init : GenesisState P) (blockNumber : Nat) : Prop :=
  ValidAt env cfg chain init blockNumber ∧ ∀ p, p < blockNumber → ¬ ValidAt env cfg chain init p

theorem new_none_validators (h : GenesisBuilder.new env cfg none = .ok builder) :
    builder.state.validators = [] := by
  obtain ⟨cached, hcached, rfl⟩ := new_none_ok h
  obtain ⟨-, _, _, _, hst⟩ := createCachedBeaconState_ok hcached
  exact congrArg (·.validators) hst

section

variable (htime : ∀ a b, a < b → chain.timestamp a < chain.timestamp b)
include htime

theorem Waits.enough_paced (hnone : init.validators = []) (hpaced : Paced env cfg chain init)
    (h : Waits env cfg chain init follow run n) (hstream : run.stream = .enoughValidators q) :
    ∀ p, p < q → ¬ ValidAt env cfg chain init p := by
  have hphase := h.phase
  have hstands := h.inv.stream
  rw [hstream] at hphase hstands
  have hcount := hstands.1.eq_countUpTo h.inv.synced.le
  intro p hp hvalid
  have hcountp : chain.countUpTo p = 0 := by
    by_contra hne
    exact hphase.2 p hp ⟨Nat.pos_of_ne_zero hne, hvalid.1⟩
  have henough := hvalid.1
  rw [hcountp] at henough
  -- without deposits there are no validators
  have hactive : activeCount (rawState env cfg chain init 0).toBeaconState = 0 := by
    show (init.validators.zipWith _ _).countP _ = 0
    rw [hnone]
    rfl
  have hmin : cfg.MIN_GENESIS_ACTIVE_VALIDATOR_COUNT = 0 := by
    unfold Enough at henough
    omega
  have hlast : chain.countUpTo (q - 1) = 0 := by
    by_contra hne
    refine hphase.2 (q - 1) (by omega) ⟨Nat.pos_of_ne_zero hne, ?_⟩
    unfold Enough
    omega
  refine hvalid.2 (TooEarly.mono htime (Nat.le_sub_one_of_lt hp) (hpaced.start hmin _ hlast ?_))
  rw [show q - 1 + 1 = q by omega, ← hcount]
  exact hphase.1.1

theorem Waits.fetched_paced (hpaced : Paced env cfg chain init) (h : Waits env cfg chain init follow run n)
    (hstream : run.stream = .fetched toBlock)
    (hp : p < nextToBlock cfg (getRemoteFollowBlock cfg remoteHighestBlock) toBlock (chain.timestamp toBlock)) :
    TooEarly cfg chain p := by
  have hphase := h.phase
  have hstands := h.inv.stream
  rw [hstream] at hphase hstands
  have hready := hphase.1
  rw [hstands.1.eq_countUpTo h.inv.synced.le] at hready
  by_cases hle : p ≤ toBlock
  · exact hphase.2.mono htime hle
  · obtain ⟨j, rfl⟩ : ∃ j, p = toBlock + j := ⟨p - toBlock, by omega⟩
    have hjump : j < min (optimizeNextBlockDiffForGenesis cfg (chain.timestamp toBlock)) cfg.maxBlocksPerPoll := by
      unfold nextToBlock at hp
      omega
    exact hpaced.jumps toBlock j hready (by omega) ((lt_optimizeNextBlockDiffForGenesis_iff (by omega)).1 (by omega))

theorem Waits.onHeight_paced (hnone : init.validators = []) (hpaced : Paced env cfg chain init)
    (h : Waits env cfg chain init follow run n) (hfollow : follow ≤ getRemoteFollowBlock cfg remoteHighestBlock)
    (hq : Reached (run.onHeight cfg chain remoteHighestBlock).stream q) :
    Reached run.stream q ∨ ∀ p, p < q → ¬ ValidAt env cfg chain init p := by
  rcases onHeight_cases cfg chain run remoteHighestBlock with heq | ⟨fromBlock, hstream⟩ | ⟨blockNumber, hstream⟩ |
    ⟨toBlock, hstream⟩
  · rw [heq] at hq
    exact .inl hq
  · obtain ⟨toBlock, -, heq⟩ := @onHeight_deposits P cfg chain run remoteHighestBlock fromBlock hstream
    rw [heq] at hq
    rcases hq with hq | ⟨_, hq⟩
    · cases hq
    · cases hq
  · rw [h.inv.onHeight_enough hfollow hstream] at hq
    rcases hq with hq | ⟨_, hq⟩
    · cases hq
    · cases hq
      exact .inr (h.enough_paced htime hnone hpaced hstream)
  · rw [onHeight_fetched hstream] at hq
    rcases hq with hq | ⟨_, hq⟩
    · cases hq
    · cases hq
      exact .inr fun p hp hvalid => hvalid.2 (h.fetched_paced htime hpaced hstream hp)

end

theorem Waits.onNext_reached (h : Waits env cfg chain init follow run n) (hq : Reached (run.onNext env cfg chain).stream q)
    : Reached run.stream q := by
  rcases onNext_cases env cfg chain run with heq | ⟨fromBlock, batch, batches, hstream⟩ | ⟨fromBlock, toBlock, hstream⟩
  · rw [heq] at hq
    exact hq
  · obtain ⟨builder, -, hnext, -⟩ := h.inv.onNext_batch hstream
    rw [hnext] at hq
    rcases hq with hq | ⟨_, hq⟩ <;> split at hq <;> cases hq
  · obtain ⟨builder, -, hnext, -⟩ := h.inv.onNext_blocks hstream
    rw [hnext] at hq
    rcases hq with hq | ⟨_, hq⟩
    · split at hq
      · cases hq
        exact .inr ⟨_, hstream⟩
      · cases hq
    · split at hq
      · cases hq
      · cases hq

section Found

variable (hdeploy : ∀ event ∈ chain.events, cfg.deployBlock ≤ event.blockNumber)
  (htime : ∀ a b, a < b → chain.timestamp a < chain.timestamp b) {builder : GenesisBuilder P}
  (hnew : GenesisBuilder.new env cfg none = .ok builder) {events : List Event}
  (hheights : (heights events).Pairwise (· ≤ ·)) (hlive : Uninterrupted events)

include hdeploy hnew hheights hlive

theorem found_valid {blockNumber : Nat}
    (hfound : ((Run.start cfg builder).runs env cfg chain events).stream = .found blockNumber) :
    ValidAt env cfg chain builder.state blockNumber ∧
      ((Run.start cfg builder).runs env cfg chain events).applied = chain.events.take (chain.countUpTo blockNumber) ∧
      ((Run.start cfg builder).runs env cfg chain events).builder.state =
        genesisAt env cfg chain builder.state blockNumber := by
  obtain ⟨n, hn⟩ := runs_waits hdeploy hnew hheights hlive events (List.prefix_refl _)
  have hphase := hn.phase
  have hthrough := hn.inv.stream
  rw [hfound] at hphase hthrough
  obtain ⟨⟨-, henough⟩, hlate, hstate⟩ := hphase
  have hcount := Through.eq_countUpTo hthrough hn.inv.synced.le
  rw [hcount] at henough
  refine ⟨⟨henough, hlate⟩, ?_, hstate⟩
  rw [hn.inv.applied, hcount]

include htime

theorem runs_unpassed (hpaced : Paced env cfg chain builder.state) : ∀ before, before <+: events → ∀ q,
      Reached ((Run.start cfg builder).runs env cfg chain before).stream q → ∀ p, p < q →
        ¬ ValidAt env cfg chain builder.state p := by
  intro before
  induction before using List.reverseRecOn with
  | nil =>
    intro _ q hq
    rcases hq with hq | ⟨_, hq⟩
    · cases hq
    · cases hq
  | append_singleton before event ih =>
    intro hpre q hq
    have hbefore := (List.prefix_append before [event]).trans hpre
    obtain ⟨n, hn⟩ := runs_waits hdeploy hnew hheights hlive before hbefore
    have hgrows := @followOf_mono cfg before event (heights_sorted hheights hpre)
    rw [runs_concat] at hq
    rcases hlive event (hpre.subset (by simp)) with rfl | ⟨remoteHighestBlock, rfl⟩
    · exact ih hbefore q (hn.onNext_reached hq)
    · rw [followOf_height] at hgrows
      rcases hn.onHeight_paced htime (new_none_validators hnew) hpaced hgrows hq with hq | hvalid
      · exact ih hbefore q hq
      · exact hvalid

end Found

/-! ## A node that answers with one height -/

def Answers (remoteHighestBlock : Nat) (event : Event) : Prop := event = .next ∨ event = .height remoteHighestBlock

/-- What is left to do, phase by phase, when the node stays at the follow block. -/
def waiting (follow : Nat) : Stream → ℕ ×ₗ ℕ
  | .deposits fromBlock batches => toLex (2 * follow + 3 + (follow - fromBlock), batches.length)
  | .enoughValidators _ => toLex (2 * follow + 2, 0)
  | .blocks _ toBlock => toLex (2 * (follow - toBlock) + 1, 0)
  | .fetched toBlock => toLex (2 * (follow - toBlock), 0)
  | .found _ | .stopped _ => toLex (0, 0)

/-- A step towards the end of the search. -/
def Nears (follow : Nat) (before after : Stream) : Prop :=
  (∀ q, after = .found q → q ≤ follow) ∧ waiting follow after < waiting follow before

/-- The builder found its block, or it went through all blocks up to the follow block. -/
def Arrived (follow : Nat) (stream : Stream) : Prop := stream = .fetched follow ∨ ∃ q, q ≤ follow ∧ stream = .found q

section Answers

variable (hdeploy : ∀ event ∈ chain.events, cfg.deployBlock ≤ event.blockNumber) (hinit : Paired init.toBeaconState)
  (hfollow : getRemoteFollowBlock cfg remoteHighestBlock = follow) (hready : Ready env cfg chain init (chain.countUpTo follow))

include hdeploy hfollow in
theorem Waits.answers (h : Waits env cfg chain init follow run n) :
    Waits env cfg chain init follow (run.onHeight cfg chain remoteHighestBlock) n := by
  have hstep : Waits env cfg chain init (getRemoteFollowBlock cfg remoteHighestBlock) (run.onHeight cfg chain remoteHighestBlock) n :=
    h.onHeight hdeploy hfollow.ge
  rw [hfollow] at hstep
  exact hstep

include hready hinit in
/-- While the first phase stands at the follow block and is not over, a deposit of that block is missing. -/
theorem Waits.batches_ne_nil (h : Waits env cfg chain init follow run n) (hstream : run.stream = .deposits follow []) :
    groupDepositEventsByBlock (chain.getDepositEvents follow follow) ≠ [] := by
  have hphase := h.phase
  have hstands := h.inv.stream
  rw [hstream] at hphase hstands
  have hmissing : n < chain.countUpTo follow := by
    by_contra hge
    exact hphase (hready.mono hinit (Nat.le_of_not_lt hge))
  have hlength := chain.countUpTo_le follow
  have hget : chain.events[n]? = some chain.events[n] := List.getElem?_eq_getElem (by omega)
  have hle := (chain.lt_countUpTo_iff hget follow).1 hmissing
  have hge : follow ≤ chain.events[n].blockNumber := by
    by_contra hlt
    obtain ⟨batch, hbatch, -⟩ := hstands.2.2.1 n _ hget (Nat.le_refl n) (by omega)
    cases hbatch
  intro hnil
  obtain ⟨batch, hbatch, -⟩ := (chain.batched_getDepositEvents follow follow).covers _
    (Eth1Chain.mem_getDepositEvents.2 ⟨List.mem_of_getElem? hget, hge, hle⟩)
  rw [hnil] at hbatch
  cases hbatch

variable (hpoll : 0 < cfg.maxBlocksPerPoll)
include hdeploy hinit hfollow hready hpoll

theorem Waits.polls (h : Waits env cfg chain init follow run n) (hstream : run.stream = .deposits fromBlock []) :
    ∃ events : List Event, (∀ event ∈ events, Answers remoteHighestBlock event) ∧
      (∃ m, Waits env cfg chain init follow (run.runs env cfg chain events) m) ∧
      Nears follow run.stream (run.runs env cfg chain events).stream := by
  obtain ⟨toBlock, hto, heq⟩ := @onHeight_deposits P cfg chain run remoteHighestBlock fromBlock hstream
  rw [hfollow] at hto
  have hheight := h.answers hdeploy hfollow
  have hfrom := (h.polled fromBlock [] hstream).1
  have hdep : cfg.deployBlock ≤ follow := by
    obtain ⟨event, hevent, hblock⟩ := List.countP_pos_iff.1 hready.1
    exact (hdeploy event hevent).trans (of_decide_eq_true hblock)
  rcases Nat.lt_or_ge fromBlock follow with hlt | hge
  · refine ⟨[.height remoteHighestBlock], by simp [Answers], ⟨n, hheight⟩, ?_⟩
    show Nears follow run.stream (run.onHeight cfg chain remoteHighestBlock).stream
    rw [heq, hstream]
    exact ⟨fun q hq => Stream.noConfusion hq, Prod.Lex.toLex_lt_toLex.2 (.inl (by omega))⟩
  · -- the deposits of the follow block are all that is missing
    obtain rfl : fromBlock = follow := by omega
    obtain rfl : toBlock = fromBlock := by omega
    obtain ⟨batch, batches, hbatches⟩ := List.exists_cons_of_ne_nil (h.batches_ne_nil hinit hready hstream)
    obtain ⟨hge, hle, -⟩ := chain.batch_eq (hbatches ▸ List.mem_cons_self : batch ∈ groupDepositEventsByBlock _)
    obtain ⟨builder, hstate, hnext, -⟩ := hheight.inv.onNext_batch (by rw [heq, hbatches])
    have hvalid : isValidGenesisValidators cfg.toGenesisConfig builder.state.toBeaconState = true := by
      rw [hstate, isValidGenesisValidators_advanced hinit hheight.inv.synced.counted.paired hheight.settled]
      refine hready.2.mono hinit ?_
      rw [Nat.le_antisymm hle hge]
      exact Nat.le_max_right _ _
    refine ⟨[.height remoteHighestBlock, .next], by simp [Answers], hheight.onNext hinit, ?_⟩
    show Nears toBlock run.stream ((run.onHeight cfg chain remoteHighestBlock).onNext env cfg chain).stream
    rw [hnext, if_pos hvalid, hstream]
    exact ⟨fun q hq => Stream.noConfusion hq, Prod.Lex.toLex_lt_toLex.2 (.inl (by omega))⟩

section

variable (h : Waits env cfg chain init follow run n) (hsearching : ∀ q, run.stream = .found q → q ≤ follow)
include h hsearching

theorem Waits.nears : Arrived follow run.stream ∨ ∃ events : List Event, (∀ event ∈ events, Answers remoteHighestBlock event) ∧
      (∃ m, Waits env cfg chain init follow (run.runs env cfg chain events) m) ∧
      Nears follow run.stream (run.runs env cfg chain events).stream := by
  have hstands := h.inv.stream
  have hphase := h.phase
  have hheight := h.answers hdeploy hfollow
  have hnext := h.onNext hinit
  cases hstream : run.stream with
  | deposits fromBlock batches =>
    cases batches with
    | nil =>
      have hpolls := h.polls hdeploy hinit hfollow hready hpoll hstream
      rw [hstream] at hpolls
      exact .inr hpolls
    | cons batch batches =>
      refine .inr ⟨[.next], by simp [Answers], hnext, ?_⟩
      show Nears follow _ (run.onNext env cfg chain).stream
      obtain ⟨builder, -, heq, -⟩ := h.inv.onNext_batch hstream
      rw [heq]
      dsimp only
      split
      · exact ⟨fun q hq => Stream.noConfusion hq, Prod.Lex.toLex_lt_toLex.2 (.inl (by omega))⟩
      · exact ⟨fun q hq => Stream.noConfusion hq, Prod.Lex.toLex_lt_toLex.2 (.inr ⟨rfl, Nat.lt_succ_self _⟩)⟩
  | enoughValidators blockNumber =>
    refine .inr ⟨[.height remoteHighestBlock], by simp [Answers], ⟨n, hheight⟩, ?_⟩
    show Nears follow _ (run.onHeight cfg chain remoteHighestBlock).stream
    rw [h.inv.onHeight_enough hfollow.ge hstream]
    exact ⟨fun q hq => Stream.noConfusion hq, Prod.Lex.toLex_lt_toLex.2 (.inl (by omega))⟩
  | blocks fromBlock toBlock =>
    rw [hstream] at hstands
    refine .inr ⟨[.next], by simp [Answers], hnext, ?_⟩
    show Nears follow _ (run.onNext env cfg chain).stream
    obtain ⟨builder, -, heq, -⟩ := h.inv.onNext_blocks hstream
    rw [heq]
    dsimp only
    split
    · exact ⟨fun q hq => Stream.found.inj hq ▸ hstands.2.2.2.2, Prod.Lex.toLex_lt_toLex.2 (.inl (by omega))⟩
    · exact ⟨fun q hq => Stream.noConfusion hq, Prod.Lex.toLex_lt_toLex.2 (.inl (by omega))⟩
  | fetched toBlock =>
    rw [hstream] at hstands
    rcases Nat.lt_or_eq_of_le hstands.2.2 with hlt | rfl
    · have hjump := optimizeNextBlockDiffForGenesis_pos cfg (chain.timestamp toBlock)
      have hlater : toBlock < nextToBlock cfg (getRemoteFollowBlock cfg remoteHighestBlock) toBlock (chain.timestamp toBlock) := by
        unfold nextToBlock
        omega
      refine .inr ⟨[.height remoteHighestBlock], by simp [Answers], ⟨n, hheight⟩, ?_⟩
      show Nears follow _ (run.onHeight cfg chain remoteHighestBlock).stream
      rw [onHeight_fetched hstream]
      exact ⟨fun q hq => Stream.noConfusion hq, Prod.Lex.toLex_lt_toLex.2 (.inl (by omega))⟩
    · exact .inl (.inl rfl)
  | found q => exact .inl (.inr ⟨q, hsearching q hstream, rfl⟩)
  | stopped error =>
    rw [hstream] at hphase
    exact hphase.elim

/-- **A node that stays at a block with the deposits for the first phase** sees the builder arrive there. -/
theorem Waits.arrives : ∃ events : List Event, (∀ event ∈ events, Answers remoteHighestBlock event) ∧
      ∃ m, Waits env cfg chain init follow (run.runs env cfg chain events) m ∧
        Arrived follow (run.runs env cfg chain events).stream := by
  refine Runs.exists_labels_of_measure (I := fun run =>
      (∃ n, Waits env cfg chain init follow run n) ∧ ∀ q, run.stream = .found q → q ≤ follow)
    (G := fun run => ∃ m, Waits env cfg chain init follow run m ∧ Arrived follow run.stream) (Run.step env cfg chain)
    (fun run => waiting follow run.stream) ?_ run ⟨⟨n, h⟩, hsearching⟩
  rintro run ⟨⟨n, h⟩, hsearching⟩
  rcases h.nears hdeploy hinit hfollow hready hpoll hsearching with harrived | ⟨events, hevents, hkept, hin, hless⟩
  · exact ⟨[], by simp, .inl ⟨n, h, harrived⟩⟩
  · exact ⟨events, hevents, .inr ⟨⟨hkept, hin⟩, hless⟩⟩

end

end Answers

variable {events events' : List Event}

theorem uninterrupted_of_answers (h : ∀ event ∈ events, Answers remoteHighestBlock event) :
    Uninterrupted events ∧ ∀ height ∈ heights events, height = remoteHighestBlock := by
  refine ⟨fun event hevent => (h event hevent).imp_right fun heq => ⟨_, heq⟩, fun height hheight => ?_⟩
  obtain ⟨event, hevent, hsome⟩ := List.mem_filterMap.1 hheight
  rcases h event hevent with rfl | rfl
  · cases hsome
  · exact (Option.some.inj hsome).symm

theorem heights_of_answers (hle : low ≤ high) (h : ∀ event ∈ events, Answers low event)
    (h' : ∀ event ∈ events', Answers high event) :
    (heights (events ++ events')).Pairwise (· ≤ ·) ∧ Uninterrupted (events ++ events') := by
  obtain ⟨hlive, hlow⟩ := uninterrupted_of_answers h
  obtain ⟨hlive', hhigh⟩ := uninterrupted_of_answers h'
  refine ⟨?_, fun event hevent => (List.mem_append.1 hevent).elim (hlive event) (hlive' event)⟩
  unfold heights at hlow hhigh ⊢
  rw [List.filterMap_append, List.pairwise_append]
  refine ⟨List.pairwise_of_forall_mem_list fun a ha b hb => ?_, List.pairwise_of_forall_mem_list fun a ha b hb => ?_, fun a ha b hb => ?_⟩
  · rw [hlow a ha, hlow b hb]
  · rw [hhigh a ha, hhigh b hb]
  · rw [hlow a ha, hhigh b hb]
    exact hle

/-- A jump past a block that is late enough. -/
theorem Waits.passes (hdeploy : ∀ event ∈ chain.events, cfg.deployBlock ≤ event.blockNumber)
    (htime : ∀ a b, a < b → chain.timestamp a < chain.timestamp b) (hinit : Paired init.toBeaconState)
    (h : Waits env cfg chain init follow run n) (hstream : run.stream = .fetched b) (hpoll : j < cfg.maxBlocksPerPoll)
    (hgap : chain.timestamp b + cfg.GENESIS_DELAY + 2 * (j + 1) * cfg.SECONDS_PER_ETH1_BLOCK ≤ cfg.MIN_GENESIS_TIME)
    (hlate : ¬ TooEarly cfg chain (b + j)) (hj : 0 < j) (hfollow : follow ≤ getRemoteFollowBlock cfg remoteHighestBlock)
    (hnext : getRemoteFollowBlock cfg remoteHighestBlock = b + j + 1) :
    (run.runs env cfg chain [.height remoteHighestBlock, .next]).stream = .found (b + j + 1) := by
  have hjump := (lt_optimizeNextBlockDiffForGenesis_iff hj).2 hgap
  have hto : nextToBlock cfg (getRemoteFollowBlock cfg remoteHighestBlock) b (chain.timestamp b) = b + j + 1 := by
    unfold nextToBlock
    omega
  have hheight := h.onHeight hdeploy hfollow
  have heq := @onHeight_fetched P cfg chain run remoteHighestBlock b hstream
  rw [hto] at heq
  obtain ⟨m, hm⟩ := hheight.onNext hinit
  obtain ⟨builder, -, hnext, -⟩ := hheight.inv.onNext_blocks (by rw [heq])
  have hphase := hm.phase
  show ((run.onHeight cfg chain remoteHighestBlock).onNext env cfg chain).stream = _
  rw [hnext] at hphase ⊢
  by_cases hcase : isValidGenesisState cfg.toGenesisConfig builder.state = true
  · exact if_pos hcase
  · rw [if_neg hcase] at hphase
    exact absurd (hphase.2.mono htime (Nat.le_succ _)) hlate

/-- **The builder is sure to return the earliest valid block, with the state of the deposits up to it**, whatever heights the node
reports, just when the chain keeps the pace. -/
theorem waitForGenesis_iff (hdeploy : ∀ event ∈ chain.events, cfg.deployBlock ≤ event.blockNumber)
    (htime : ∀ a b, a < b → chain.timestamp a < chain.timestamp b) (hpoll : 0 < cfg.maxBlocksPerPoll)
    (builder : GenesisBuilder P) (hnew : GenesisBuilder.new env cfg none = .ok builder) :
    (∀ events blockNumber, (heights events).Pairwise (· ≤ ·) → Uninterrupted events →
      ((Run.start cfg builder).runs env cfg chain events).stream = .found blockNumber →
      Earliest env cfg chain builder.state blockNumber ∧
        ((Run.start cfg builder).runs env cfg chain events).applied = chain.events.take (chain.countUpTo blockNumber) ∧
        ((Run.start cfg builder).runs env cfg chain events).builder.state =
          genesisAt env cfg chain builder.state blockNumber) ↔
    Paced env cfg chain builder.state := by
  have hinit : Paired builder.state.toBeaconState := (@new_none_synced P env cfg chain builder hnew).1.counted.paired
  have hfollowOf : ∀ block, getRemoteFollowBlock cfg (block + cfg.ETH1_FOLLOW_DISTANCE) = block := fun block =>
    Nat.add_sub_cancel _ _
  constructor
  · intro hall
    constructor
    · intro b j hready hjpoll hgap
      by_contra hlate
      have hspos := cfg.secondsPerEth1Block_pos
      have hearly : TooEarly cfg chain b := by
        have : cfg.SECONDS_PER_ETH1_BLOCK ≤ 2 * (j + 1) * cfg.SECONDS_PER_ETH1_BLOCK := Nat.le_mul_of_pos_left _ (by omega)
        unfold TooEarly
        omega
      have hj : 0 < j := Nat.pos_of_ne_zero fun hzero => hlate (hzero ▸ hearly)
      obtain ⟨events, hevents, m, hm, hfetched | ⟨q, hle, hfound⟩⟩ := (start_waits hdeploy hnew b).arrives hdeploy hinit
        (hfollowOf b) hready hpoll fun q hq => Stream.noConfusion hq
      swap
      · have hphase := hm.phase
        rw [hfound] at hphase
        exact hphase.2.1 (hearly.mono htime hle)
      have hfound := hm.passes hdeploy htime hinit hfetched hjpoll hgap hlate hj (by rw [hfollowOf (b + j + 1)]; omega)
        (hfollowOf (b + j + 1))
      have hafter : ∀ event ∈ [Event.height (b + j + 1 + cfg.ETH1_FOLLOW_DISTANCE), .next],
          Answers (b + j + 1 + cfg.ETH1_FOLLOW_DISTANCE) event := by simp [Answers]
      obtain ⟨hheights, hlive⟩ := heights_of_answers (by omega) hevents hafter
      obtain ⟨⟨-, hfirst⟩, -⟩ := hall _ (b + j + 1) hheights hlive (by rw [Run.runs, List.foldl_append]; exact hfound)
      exact hfirst (b + j) (Nat.lt_succ_self _) ⟨hready.2.mono hinit (chain.countUpTo_mono (Nat.le_add_right b j)), hlate⟩
    · intro hmin p hnone hsome
      by_contra hlate
      have henough : ∀ n, Enough env cfg chain builder.state n := fun n => by
        unfold Enough
        omega
      obtain ⟨events, hevents, m, hm, harrived⟩ := (start_waits hdeploy hnew (p + 1)).arrives hdeploy hinit (hfollowOf (p + 1))
        ⟨hsome, henough _⟩ hpoll fun q hq => Stream.noConfusion hq
      have hphase := hm.phase
      have hstands := hm.inv.stream
      rcases harrived with hfetched | ⟨q, -, hfound⟩
      · rw [hfetched] at hphase
        exact hlate (hphase.2.mono htime (Nat.le_succ p))
      · rw [hfound] at hphase hstands
        have hcount := Through.eq_countUpTo hstands hm.inv.synced.le
        have hlt : p < q := by
          by_contra hge
          have := chain.countUpTo_mono (Nat.le_of_not_lt hge)
          have := hphase.1.1
          omega
        obtain ⟨hheights, hlive⟩ := heights_of_answers (Nat.le_refl _) hevents fun _ hnone => absurd hnone List.not_mem_nil
        rw [List.append_nil] at hheights hlive
        obtain ⟨⟨-, hfirst⟩, -⟩ := hall events q hheights hlive hfound
        exact hfirst p hlt ⟨henough _, hlate⟩
  · intro hpaced events blockNumber hheights hlive hfound
    obtain ⟨hvalid, happlied, hstate⟩ := found_valid hdeploy hnew hheights hlive hfound
    refine ⟨⟨hvalid, ?_⟩, happlied, hstate⟩
    exact runs_unpassed hdeploy htime hnew hheights hlive hpaced events (List.prefix_refl _) blockNumber (.inl hfound)

/-! ## Blocks at most twice the configured time apart -/

theorem timestamp_le (hgap : ∀ b, chain.timestamp (b + 1) ≤ chain.timestamp b + gap) (b d : Nat) :
    chain.timestamp (b + d) ≤ chain.timestamp b + gap * d := by
  induction d with
  | zero => exact Nat.le_refl _
  | succ d ih =>
    have := hgap (b + d)
    rw [Nat.mul_succ]
    rw [show b + (d + 1) = b + d + 1 by omega]
    omega

/-- **Blocks at most twice the configured time apart keep the pace**, when some validator is asked for. -/
theorem paced_of_gap (hgap : ∀ b, chain.timestamp (b + 1) ≤ chain.timestamp b + 2 * cfg.SECONDS_PER_ETH1_BLOCK)
    (hmin : 0 < cfg.MIN_GENESIS_ACTIVE_VALIDATOR_COUNT) : Paced env cfg chain init where
  jumps b j _ _ htime := by
    have hle := timestamp_le hgap b j
    have hspos := cfg.secondsPerEth1Block_pos
    have hprod : 2 * (j + 1) * cfg.SECONDS_PER_ETH1_BLOCK = 2 * cfg.SECONDS_PER_ETH1_BLOCK * j + 2 * cfg.SECONDS_PER_ETH1_BLOCK := by
      ring
    unfold TooEarly
    omega
  start hzero := absurd hzero (Nat.ne_of_gt hmin)

/-! ## A slow block -/

def oneValidatorConfig : StreamConfig := { plainStreamConfig with MIN_GENESIS_ACTIVE_VALIDATOR_COUNT := 1 }

def steadyChain : Eth1Chain := { oneDeposit with timestamp := fun n => 1578009200 + 28 * n }

def polledFour : List Event := [.height 30, .next, .height 30, .next, .height 30, .next, .height 30, .next]

theorem waitForGenesis_iff_four : ∃ builder, GenesisBuilder.new plainGenesisEnv oneValidatorConfig none = .ok builder ∧
    Earliest plainGenesisEnv oneValidatorConfig steadyChain builder.state 4 := by
  have hrun : ((GenesisBuilder.new plainGenesisEnv oneValidatorConfig none).map fun builder =>
      match ((Run.start oneValidatorConfig builder).runs plainGenesisEnv oneValidatorConfig steadyChain polledFour).stream with
      | .found blockNumber => some blockNumber
      | _ => none) = .ok (some 4) := by
    decide +kernel
  cases hnew : GenesisBuilder.new plainGenesisEnv oneValidatorConfig none with
  | error error =>
    rw [hnew] at hrun
    cases hrun
  | ok builder =>
    rw [hnew] at hrun
    have hfound : ((Run.start oneValidatorConfig builder).runs plainGenesisEnv oneValidatorConfig steadyChain
        polledFour).stream = .found 4 := by
      simp only [Except.map, Except.ok.injEq] at hrun
      split at hrun
      · cases hrun
        assumption
      · cases hrun
    have hdeploy : ∀ event ∈ steadyChain.events, oneValidatorConfig.deployBlock ≤ event.blockNumber :=
      fun event _ => Nat.zero_le _
    have htime : ∀ a b, a < b → steadyChain.timestamp a < steadyChain.timestamp b := by
      intro a b hab
      show 1578009200 + 28 * a < 1578009200 + 28 * b
      omega
    have hlive : Uninterrupted polledFour := by
      intro event hevent
      simp only [polledFour, List.mem_cons, List.not_mem_nil, or_false] at hevent
      rcases hevent with rfl | rfl | rfl | rfl | rfl | rfl | rfl | rfl
      all_goals simp
    have hgap : ∀ b, steadyChain.timestamp (b + 1) ≤ steadyChain.timestamp b + 2 * oneValidatorConfig.SECONDS_PER_ETH1_BLOCK := by
      intro b
      show 1578009200 + 28 * (b + 1) ≤ 1578009200 + 28 * b + 2 * 14
      omega
    have hmin : 0 < oneValidatorConfig.MIN_GENESIS_ACTIVE_VALIDATOR_COUNT := by decide
    have hheights : (heights polledFour).Pairwise (· ≤ ·) := by decide
    exact ⟨builder, rfl, ((waitForGenesis_iff hdeploy htime (by decide) builder hnew).2 (paced_of_gap hgap hmin) polledFour 4
      hheights hlive hfound).1⟩

def slowChain : Eth1Chain := { oneDeposit with timestamp := fun n => 1578009160 + if n ≤ 2 then n else n + 140 }

/-- From block 2 the builder jumps to block 6, though block 3 is late enough. -/
theorem jump_passes_over : ∃ builder, GenesisBuilder.new plainGenesisEnv oneValidatorConfig none = .ok builder ∧
    (∀ a b, a < b → slowChain.timestamp a < slowChain.timestamp b) ∧
    ((Run.start oneValidatorConfig builder).runs plainGenesisEnv oneValidatorConfig slowChain
      [.height 30, .next, .height 30, .next, .height 30, .next]).stream = .found 6 ∧
    ValidAt plainGenesisEnv oneValidatorConfig slowChain builder.state 3 ∧
    ¬ Earliest plainGenesisEnv oneValidatorConfig slowChain builder.state 6 := by
  have hrun : ((GenesisBuilder.new plainGenesisEnv oneValidatorConfig none).map fun builder =>
      (match ((Run.start oneValidatorConfig builder).runs plainGenesisEnv oneValidatorConfig slowChain
        [.height 30, .next, .height 30, .next, .height 30, .next]).stream with
      | .found blockNumber => some blockNumber
      | _ => none,
      decide (1 ≤ activeCount (rawState plainGenesisEnv oneValidatorConfig slowChain builder.state
        (slowChain.countUpTo 3)).toBeaconState))) = .ok (some 6, true) := by
    decide +kernel
  cases hnew : GenesisBuilder.new plainGenesisEnv oneValidatorConfig none with
  | error error =>
    rw [hnew] at hrun
    cases hrun
  | ok builder =>
    rw [hnew] at hrun
    simp only [Except.map, Except.ok.injEq, Prod.mk.injEq] at hrun
    obtain ⟨hstream, henough⟩ := hrun
    have hactive := of_decide_eq_true henough
    have hlate : ¬ TooEarly oneValidatorConfig slowChain 3 := by
      unfold TooEarly
      decide
    have hvalid : ValidAt plainGenesisEnv oneValidatorConfig slowChain builder.state 3 := ⟨hactive, hlate⟩
    refine ⟨builder, rfl, ?_, ?_, hvalid, fun hearliest => hearliest.2 3 (by decide) hvalid⟩
    · intro a b hab
      show 1578009160 + (if a ≤ 2 then a else a + 140) < 1578009160 + (if b ≤ 2 then b else b + 140)
      split <;> split <;> omega
    · split at hstream
      · cases hstream
        assumption
      · cases hstream

end Lodestar.Chain
