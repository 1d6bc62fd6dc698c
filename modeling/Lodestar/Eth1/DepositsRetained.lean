import Lodestar.Lib.Runs
import Lodestar.Db.BlockOperations
import Lodestar.Eth1.Deposits
import Lodestar.StateTransition.EpochCache
/-!
# DepositsRetained — the stored deposits while blocks are imported

Deposits are fetched in the order of the contract, blocks of one chain are imported, and each import removes the block's
operations from the database.  `Followed` is what every step keeps: the fetched deposits are a start of the log and all of
them are stored.
-/
namespace Lodestar.Eth1

open Lib Lib.SortedMap Runs Db Db.BeaconDb StateTransition
open scoped Lib.BigEndian

/-! ## Runs -/

structure Following (P : Preset) where
  cache : Eth1DepositsCache
  fetched : Nat
  head : CachedBeaconState P

inductive FollowStep
  | fetch (count : Nat)
  | importBlock (signedBlock : StateTransition.SignedBeaconBlock) (options : TransitionOptions)

section Run

variable {P : Preset} (env : Env P) (cfg : ChainConfig) {values : Eth1Values} (operations : OperationValues values.toValues)
  (log : DepositLog values)

def follow : FollowStep → Following P → Option (Following P)
  | .fetch count, s =>
    let depositEvents := (log.events.drop s.fetched).take count
    match Eth1DepositsCache.add values s.cache depositEvents with
    | (.ok (), cache) => some { s with cache, fetched := s.fetched + depositEvents.length }
    | (.error _, cache) => some { s with cache }
  | .importBlock signedBlock options, s =>
    match stateTransition env cfg s.head signedBlock options with
    | .error _ => none
    | .ok head =>
      some { s with
        head
        cache := { s.cache with db := processBlockOperations operations P s.cache.db signedBlock } }

structure Followed (s : Following P) : Prop where
  fetched_le : s.fetched ≤ log.events.length
  stored : Eth1DepositsCache.Stored s.cache (log.take s.fetched)

variable {env cfg operations log}

theorem follow_fetch {s : Following P} (h : Followed log s) (count : Nat) :
    ∃ s', follow env cfg operations log (.fetch count) s = some s' ∧ Followed log s' ∧ s'.head = s.head ∧
      s'.fetched = s.fetched + min count (log.events.length - s.fetched) := by
  have hlength : ((log.events.drop s.fetched).take count).length = min count (log.events.length - s.fetched) := by
    rw [List.length_take, List.length_drop]
  have hnewer : (log.take (s.fetched + ((log.events.drop s.fetched).take count).length)).events =
      (log.take s.fetched).events ++ (log.events.drop s.fetched).take count := by
    show log.events.take _ = log.events.take s.fetched ++ _
    rw [List.take_add]
    refine congrArg _ (List.take_eq_take_iff.2 ?_)
    rw [List.length_take]
    omega
  obtain ⟨cache, hadd, hstored⟩ := h.stored.add_eq hnewer
  refine ⟨{ s with cache, fetched := s.fetched + ((log.events.drop s.fetched).take count).length }, ?_, ⟨?_, hstored⟩, rfl, ?_⟩
  · unfold follow
    dsimp only
    rw [hadd]
  · have := h.fetched_le
    show s.fetched + _ ≤ _
    omega
  · show s.fetched + _ = _
    rw [hlength]

theorem follow_keeps {label : FollowStep} {s s' : Following P} (hnext : follow env cfg operations log label s = some s')
    (h : Followed log s) : Followed log s' := by
  cases label with
  | fetch count =>
    obtain ⟨s₁, hfetch, hfollowed, -, -⟩ := follow_fetch h count
    rw [hfetch, Option.some.injEq] at hnext
    exact hnext ▸ hfollowed
  | importBlock signedBlock options =>
    unfold follow at hnext
    dsimp only at hnext
    split at hnext
    · cases hnext
    · rw [Option.some.injEq] at hnext
      subst hnext
      obtain ⟨hevents, hroots⟩ :=
        processBlockOperations_rows operations h.stored.events h.stored.roots signedBlock
      exact ⟨h.fetched_le, hevents, hroots, h.stored.tree⟩

/-- **Every fetched deposit stays in the database, whatever the blocks vote for**: along a run of fetches and imports each
can be read under its index, also one the head has processed, and no eth1 data within the fetched deposits finds too few. -/
theorem fetched_retained (getSingleProof : List Root → Nat → List Root) {s₀ s : Following P}
    {steps : List (Following P × FollowStep)} (hinit : Followed log s₀)
    (hrun : Run (follow env cfg operations log) s₀ steps s) :
    ∀ x ∈ visited steps s,
      (∀ event ∈ (log.take x.fetched).events,
        (depositEvent values.toValues).get x.cache.db (.number event.index) = .ok (some (values.ofDepositEvent event))) ∧
      ∀ eth1Data : Eth1Data, eth1Data.depositCount ≤ x.fetched → ∀ len expectedLen,
        (getDeposits x.head.toBeaconState eth1Data (Eth1DepositsCache.get values getSingleProof) x.cache).1 ≠
          .error (.notEnoughDeposits len expectedLen) := by
  have hfollowed : ∀ x ∈ visited steps s, Followed log x :=
    hrun.always (C := fun _ _ => True) hinit (fun _ _ _ hnext _ h => follow_keeps hnext h) fun _ _ => trivial
  intro x hx
  obtain ⟨hle, hstored⟩ := hfollowed x hx
  refine ⟨fun event hevent => hstored.get_event hevent, fun eth1Data hcount len expectedLen => ?_⟩
  have hlength : (log.take x.fetched).events.length = x.fetched := by
    show (log.events.take x.fetched).length = _
    rw [List.length_take]
    omega
  by_cases hindex : x.head.eth1DepositIndex ≤ eth1Data.depositCount
  · obtain ⟨cache, -, -, hget⟩ := hstored.getDeposits_eq getSingleProof hindex (hlength.symm ▸ hcount)
    rw [hget]
    split <;> simp
  · unfold getDeposits
    rw [if_pos (Nat.lt_of_not_le hindex)]
    simp

/-! ## A run with a deposit -/

def plainOperations : OperationValues plainEth1Values.toValues where
  ofVoluntaryExit _ := []
  ofProposerSlashing _ := []
  ofAttesterSlashing _ := []
  ofAttestation _ := zeroRoot

theorem threeBlocks_ordered : [1, 2, 3].Pairwise (· ≤ ·) := by decide

theorem threeBlocks_small : ∀ n ∈ [1, 2, 3], n < 2 ^ 64 := by decide

theorem threeBlocks_length : [1, 2, 3].length ≤ 2 ^ 32 := by decide

def threeDeposits : DepositLog plainEth1Values :=
  plainLog [1, 2, 3] threeBlocks_ordered threeBlocks_length threeBlocks_small

/-- Three deposits are fetched, and the block imported that votes for all of them and includes the last. -/
theorem fetched_retained_deposit : ∃ s₀ steps s,
    Run (follow (plainEnv minimal) (minimalConfig ⊤) plainOperations threeDeposits) s₀ steps s ∧
      s.head.eth1DepositIndex = 3 ∧
      ∀ event ∈ (threeDeposits.take s.fetched).events,
        (depositEvent plainEth1Values.toValues).get s.cache.db (.number event.index) = .ok (some event) := by
  have hhead : ((createCachedBeaconState (plainEnv minimal) (minimalConfig ⊤) awaitingDeposit noOpts).bind fun head =>
      (stateTransition (plainEnv minimal) (minimalConfig ⊤) head depositBlock
        { verifyStateRoot := true, verifyProposer := true, verifySignatures := true }).map (·.eth1DepositIndex)) = .ok 3 := by
    decide +kernel
  obtain ⟨head, -, hhead⟩ := bind_eq_ok.1 hhead
  obtain ⟨head', htransition, hindex⟩ := map_eq_ok.1 hhead
  have hinit : Followed threeDeposits ({ cache := ⟨.empty, none⟩, fetched := 0, head } : Following minimal) :=
    ⟨Nat.zero_le _, Rows.empty, Rows.empty, fun tree htree => by cases htree⟩
  obtain ⟨s₁, hfetch, -, hhead₁, -⟩ := @follow_fetch _ (plainEnv minimal) (minimalConfig ⊤) _ plainOperations _ _ hinit 3
  have himport : follow (plainEnv minimal) (minimalConfig ⊤) plainOperations threeDeposits
      (.importBlock depositBlock { verifyStateRoot := true, verifyProposer := true, verifySignatures := true }) s₁ =
      some { s₁ with
        head := head'
        cache := { s₁.cache with db := processBlockOperations plainOperations minimal s₁.cache.db depositBlock } } := by
    unfold follow
    dsimp only
    rw [hhead₁, htransition]
  have hrun := (Run.refl.step hfetch).step himport
  have hretained := fetched_retained (fun _ _ => []) hinit hrun _ (List.mem_append_right _ (List.mem_singleton.2 rfl))
  exact ⟨_, _, _, hrun, hindex, hretained.1⟩

end Run

end Lodestar.Eth1
