import Lodestar.StateTransition.Genesis
import Lodestar.StateTransition.BlockSteps
/-!
# GenesisDeposits — what a batch of genuine deposits does to the state

`creditDeposit` is what is left of `processDeposit` once the proof is accepted, and `depositStep` what the loop does with one
deposit of the contract.  A batch of the next deposits, with proofs from the contract's tree, is a fold of such steps followed
by the activations.
-/
namespace Lodestar.StateTransition

open Lib

variable {P : Preset}

/-! ## The Merkle tree of the SSZ library -/

section Merkle

variable (env : Env P)

def hashPair (left right : Root) : Root := env.hash (left.toList ++ right.toList)

def lengthChunk (length : Nat) : Root := Vector.ofFn fun i : Fin 32 => UInt8.ofNat (length / 256 ^ i.val)

theorem verifyMerkleBranch_eq (leaf : Root) (proof : List Root) (index : Nat) (root : Root) :
    verifyMerkleBranch env leaf proof proof.length index root =
      .ok (decide (MerkleTree.climb (hashPair env) index 0 leaf proof = root)) := by
  have hfold : ∀ siblings : List Root, siblings <+: proof →
      (List.range siblings.length).foldlM (fun value i => do
        let sibling ← getAt typeError proof i
        pure (if index / 2 ^ i % 2 ≠ 0 then env.hash (sibling.toList ++ value.toList)
          else env.hash (value.toList ++ sibling.toList))) leaf =
        (.ok (MerkleTree.climb (hashPair env) index 0 leaf siblings) : Except String Root) := by
    intro siblings
    induction siblings using List.reverseRecOn with
    | nil => exact fun _ => rfl
    | append_singleton siblings sibling ih =>
      intro hpre
      obtain ⟨rest, hrest⟩ := hpre
      have hget : getAt typeError proof siblings.length = .ok sibling := by
        rw [getAt_eq_ok, ← hrest]
        simp
      rw [List.length_append, List.length_singleton, List.range_succ, foldlM_concat,
        ih ((List.prefix_append siblings [sibling]).trans ⟨rest, hrest⟩), MerkleTree.climb_concat]
      rw [hget]
      show Except.ok _ = Except.ok _
      congr 1
      unfold MerkleTree.parent hashPair
      rw [Nat.zero_add, Nat.testBit_eq_decide_div_mod_eq]
      by_cases hbit : index / 2 ^ siblings.length % 2 = 1
      · rw [if_pos (by omega), if_pos (by simpa using hbit)]
      · rw [if_neg (by omega), if_neg (by simpa using hbit)]
  unfold verifyMerkleBranch
  rw [hfold proof (List.prefix_refl proof)]
  rfl

def merkleGenesisEnv (validatorsRoot : List Validator → Root) : GenesisEnv P where
  toEnv := env
  validatorsRoot := validatorsRoot
  depositDataRootListRoot tree := MerkleTree.listRoot (hashPair env) zeroRoot 32 tree (lengthChunk tree.length)
  getSingleProof tree index := MerkleTree.listBranch (hashPair env) zeroRoot 32 tree (lengthChunk tree.length) index
  verify_getSingleProof tree index leaf hleaf hlength := by
    have hindex : index < 2 ^ 32 := (List.getElem?_eq_some_iff.1 hleaf).1.trans_le hlength
    have hverify := verifyMerkleBranch_eq env leaf
      (MerkleTree.listBranch (hashPair env) zeroRoot 32 tree (lengthChunk tree.length) index) index
      (MerkleTree.listRoot (hashPair env) zeroRoot 32 tree (lengthChunk tree.length))
    rw [MerkleTree.climb_listBranch _ _ _ _ _ _ _ hindex hleaf, MerkleTree.length_listBranch] at hverify
    rw [show DEPOSIT_CONTRACT_TREE_DEPTH + 1 = 32 + 1 from rfl, hverify, decide_eq_true rfl]

end Merkle

/-! ## One deposit -/

def Paired (state : BeaconState P) : Prop := state.balances.length = state.validators.length

section Credit

variable (env : Env P) (fork : ForkName)

/-- `processDeposit` behind its proof. -/
def creditDeposit (state : CachedBeaconState P) (data : DepositData) : CachedBeaconState P :=
  let state := { state with eth1DepositIndex := state.eth1DepositIndex + 1 }
  match (state.epochCtx.pubkey2index.get? data.pubkey).filter (· < state.validators.length) with
  | none =>
    if env.publicKeyFromBytes data.pubkey true && env.verifyDepositSignature data then
      { state with
        validators := state.validators ++ [depositValidator P data]
        balances := state.balances ++ [data.amount]
        previousEpochParticipation := state.previousEpochParticipation ++ [emptyParticipationStatus]
        currentEpochParticipation := state.currentEpochParticipation ++ [emptyParticipationStatus]
        inactivityScores := match fork with
          | .phase0 => state.inactivityScores
          | .altair => state.inactivityScores ++ [0]
        epochCtx := { state.epochCtx with
          pubkey2index := state.epochCtx.pubkey2index.set data.pubkey state.validators.length
          index2pubkey := setWithHoles state.epochCtx.index2pubkey state.validators.length data.pubkey } }
    else state
  | some cachedIndex => { state with balances := state.balances.modify cachedIndex (· + data.amount) }

variable {state : CachedBeaconState P}

theorem processDeposit_eq {deposit : Deposit} (hpaired : Paired state.toBeaconState)
    (hproof : verifyMerkleBranch env (env.depositDataRoot deposit.data) deposit.proof (DEPOSIT_CONTRACT_TREE_DEPTH + 1) state.eth1DepositIndex state.eth1Data.depositRoot = .ok true) :
    processDeposit env fork state deposit = .ok (creditDeposit env fork state deposit.data) := by
  unfold processDeposit creditDeposit
  rw [hproof]
  dsimp only
  show (match (state.epochCtx.pubkey2index.get? deposit.data.pubkey).filter (· < state.validators.length) with
    | none => _
    | some cachedIndex => _) = _
  cases hfind : (state.epochCtx.pubkey2index.get? deposit.data.pubkey).filter (· < state.validators.length) with
  | none =>
    by_cases hvalid : (env.publicKeyFromBytes deposit.data.pubkey true && env.verifyDepositSignature deposit.data) = true
    · have hlength : (state.validators ++ [depositValidator P deposit.data]).length - 1 = state.validators.length := by simp
      rw [if_pos hvalid, if_pos hvalid]
      rw [Bool.and_eq_true] at hvalid
      dsimp only [addValidator, EpochContext.addPubkey]
      rw [hlength, env.publicKeyFromBytes_of_validate _ hvalid.1]
      rfl
    · rw [if_neg hvalid, if_neg hvalid]
      rfl
  | some cachedIndex =>
    have hindex : cachedIndex < state.balances.length := by
      rw [Option.filter_eq_some_iff, decide_eq_true_iff] at hfind
      rw [hpaired]
      exact hfind.2
    dsimp only
    unfold increaseBalance modifyAt
    rw [if_pos hindex]
    rfl

theorem creditDeposit_paired (data : DepositData) (hpaired : Paired state.toBeaconState) :
    Paired (creditDeposit env fork state data).toBeaconState := by
  unfold Paired at *
  unfold creditDeposit
  dsimp only
  split
  · split
    · simp [hpaired]
    · exact hpaired
  · rw [List.length_modify]
    exact hpaired

theorem creditDeposit_frame (state : CachedBeaconState P) (data : DepositData) :
    (creditDeposit env fork state data).eth1Data = state.eth1Data ∧
      (creditDeposit env fork state data).eth1DepositIndex = state.eth1DepositIndex + 1 := by
  unfold creditDeposit
  dsimp only
  split
  · split <;> exact ⟨rfl, rfl⟩
  · exact ⟨rfl, rfl⟩

end Credit

/-! ## A batch of the next deposits -/

section Batch

variable (env : GenesisEnv P) (cfg : GenesisConfig)

/-- Counts the next deposit of the contract in and credits it; `roots` are the leaves of the contract. -/
def depositStep (roots : List Root) (state : CachedBeaconState P) (data : DepositData) : CachedBeaconState P :=
  creditDeposit env.toEnv (getForkName P cfg.toChainConfig GENESIS_SLOT)
    { state with eth1Data := { state.eth1Data with
      depositRoot := env.depositDataRootListRoot (roots.take (state.eth1Data.depositCount + 1))
      depositCount := state.eth1Data.depositCount + 1 } } data

variable {state : CachedBeaconState P}

section

variable (roots : List Root)

theorem depositStep_paired (data : DepositData) (hpaired : Paired state.toBeaconState) :
    Paired (depositStep env cfg roots state data).toBeaconState :=
  creditDeposit_paired _ _ _ hpaired

/-- The first `n` deposits of the contract are in: counted and credited. -/
structure CountedIn (state : CachedBeaconState P) (n : Nat) : Prop where
  depositCount : state.eth1Data.depositCount = n
  eth1DepositIndex : state.eth1DepositIndex = n
  paired : Paired state.toBeaconState

variable {n : Nat}

theorem CountedIn.step (h : CountedIn state n) (data : DepositData) :
    CountedIn (depositStep env cfg roots state data) (n + 1) := by
  obtain ⟨hdata, hindex⟩ := creditDeposit_frame env.toEnv (getForkName P cfg.toChainConfig GENESIS_SLOT) { state with
    eth1Data := { state.eth1Data with
      depositRoot := env.depositDataRootListRoot (roots.take (state.eth1Data.depositCount + 1))
      depositCount := state.eth1Data.depositCount + 1 } } data
  refine ⟨?_, hindex.trans (congrArg (· + 1) h.eth1DepositIndex), depositStep_paired env cfg roots data h.paired⟩
  unfold depositStep
  rw [hdata, h.depositCount]

theorem CountedIn.steps (h : CountedIn state n) (datas : List DepositData) :
    CountedIn (datas.foldl (depositStep env cfg roots) state) (n + datas.length) := by
  induction datas generalizing state n with
  | nil => exact h
  | cons data datas ih =>
    have := ih (h.step env cfg roots data)
    rw [List.foldl_cons, List.length_cons, show n + (datas.length + 1) = n + 1 + datas.length by omega]
    exact this

end

/-- Deposits with the proofs of the contract's tree, from the one at `n` on. -/
def Genuine (roots : List Root) (n : Nat) (deposits : List Deposit) : Prop :=
  ∀ (j : Nat) (deposit : Deposit), deposits[j]? = some deposit → roots[n + j]? = some (env.depositDataRoot deposit.data) ∧
    deposit.proof = env.getSingleProof (roots.take (n + j + 1)) (n + j)

theorem processDeposits_eq (full roots : List Root) (hlength : roots.length ≤ 2 ^ 32) (deposits : List Deposit) (n : Nat)
    (state : CachedBeaconState P) (hcounted : CountedIn state n)
    (hfull : ∀ k, k < n + deposits.length → full[k]? = roots[k]?) (hgenuine : Genuine env roots n deposits) :
    processDeposits env cfg (some full) (roots.take n) state deposits =
      (none, (deposits.map (·.data)).foldl (depositStep env cfg roots) state) := by
  induction deposits generalizing n state with
  | nil => rfl
  | cons deposit deposits ih =>
    obtain ⟨hroot, hproof⟩ := hgenuine 0 deposit rfl
    rw [Nat.add_zero] at hroot hproof
    have hn : n < roots.length := (List.getElem?_eq_some_iff.1 hroot).1
    have hnext : nextDepositDataRoot env (some full) (roots.take n) deposit = .ok (env.depositDataRoot deposit.data) := by
      show getAt typeError full (roots.take n).length = _
      rw [List.length_take, Nat.min_eq_left hn.le, getAt_eq_ok, hfull n (by simp), hroot]
    have htake : roots.take n ++ [env.depositDataRoot deposit.data] = roots.take (n + 1) := by
      rw [List.take_add_one, hroot]
      rfl
    have hverify := env.verify_getSingleProof (roots.take (n + 1)) n (env.depositDataRoot deposit.data)
      (by rw [List.getElem?_take_of_lt (Nat.lt_succ_self n), hroot])
      ((List.length_take_le' _ _).trans hlength)
    unfold processDeposits
    rw [hnext]
    dsimp only
    rw [htake, processDeposit_eq env.toEnv]
    · have hstep : creditDeposit env.toEnv (getForkName P cfg.toChainConfig GENESIS_SLOT)
          { state with eth1Data := { state.eth1Data with
            depositRoot := env.depositDataRootListRoot (roots.take (n + 1))
            depositCount := state.eth1Data.depositCount + 1 } } deposit.data =
          depositStep env cfg roots state deposit.data := by
        unfold depositStep
        rw [hcounted.depositCount]
      rw [hstep]
      dsimp only
      rw [ih (n + 1) _ (hcounted.step env cfg roots deposit.data)]
      · rfl
      · intro k hk
        refine hfull k ?_
        rw [List.length_cons]
        omega
      · intro j d hd
        rw [show n + 1 + j = n + (j + 1) by omega]
        exact hgenuine (j + 1) d hd
    · exact hcounted.paired
    · show verifyMerkleBranch _ _ _ _ state.eth1DepositIndex _ = _
      rw [hcounted.eth1DepositIndex, hproof]
      exact hverify

def activated (state : CachedBeaconState P) : CachedBeaconState P :=
  { state with validators := state.validators.zipWith (activateAtGenesis P) state.balances }

theorem activated_paired (hpaired : Paired state.toBeaconState) :
    Paired (activated state).toBeaconState := by
  unfold Paired activated at *
  rw [List.length_zipWith, hpaired, Nat.min_self]

theorem CountedIn.activated (h : CountedIn state n) : CountedIn (activated state) n :=
  ⟨h.depositCount, h.eth1DepositIndex, activated_paired h.paired⟩

theorem processActivations_eq (hpaired : Paired state.toBeaconState) :
    processActivations state = .ok (activated state) := by
  have hmapM : state.validators.zipIdx.mapM (fun entry => do
      let balance ← getAt typeError state.balances entry.2
      pure (activateAtGenesis P entry.1 balance)) =
      (.ok (state.validators.zipIdx.map fun entry => activateAtGenesis P entry.1 (state.balances[entry.2]?.getD 0)) :
        Except String (List Validator)) := by
    refine mapM_eq_map _ fun entry hentry => ?_
    have hindex : entry.2 < state.balances.length := by
      rw [hpaired]
      obtain ⟨hlt, -⟩ := List.mem_zipIdx' hentry
      exact hlt
    unfold getAt
    rw [List.getElem?_eq_getElem hindex]
    rfl
  unfold processActivations
  rw [hmapM]
  show Except.ok _ = Except.ok _
  unfold activated
  congr 1
  have hlist : (state.validators.zipIdx.map fun entry => activateAtGenesis P entry.1 (state.balances[entry.2]?.getD 0)) =
      state.validators.zipWith (activateAtGenesis P) state.balances := by
    refine List.ext_getElem ?_ fun i hi hi' => ?_
    · rw [List.length_map, List.length_zipIdx, List.length_zipWith, hpaired, Nat.min_self]
    · rw [List.length_zipWith, hpaired, Nat.min_self] at hi'
      rw [List.getElem_map, List.getElem_zipIdx, List.getElem_zipWith, Nat.zero_add,
        List.getElem?_eq_getElem (by rw [hpaired]; exact hi')]
      rfl
  rw [hlist]

theorem applyDeposits_eq (full roots : List Root) (hlength : roots.length ≤ 2 ^ 32) (deposits : List Deposit) (n : Nat)
    (state : GenesisState P) (hcounted : CountedIn state.toCachedBeaconState n) (hn : n ≤ roots.length)
    (hfull : ∀ k, k < n + deposits.length → full[k]? = roots[k]?) (hgenuine : Genuine env roots n deposits) :
    applyDeposits env cfg state deposits (some full) =
      (none, { state with
        toCachedBeaconState :=
          activated ((deposits.map (·.data)).foldl (depositStep env cfg roots) state.toCachedBeaconState)
        genesisValidatorsRoot := env.validatorsRoot
          (activated ((deposits.map (·.data)).foldl (depositStep env cfg roots) state.toCachedBeaconState)).validators }) := by
  have hinit : (List.range state.eth1Data.depositCount).mapM (getAt typeError full) =
      (.ok (roots.take n) : Except String (List Root)) := by
    rw [hcounted.depositCount, mapM_eq_map (g := fun k => roots[k]?.getD zeroRoot)]
    · congr 1
      refine List.ext_getElem ?_ fun i hi hi' => ?_
      · rw [List.length_map, List.length_range, List.length_take, Nat.min_eq_left hn]
      · rw [List.length_take] at hi'
        rw [List.getElem_map, List.getElem_range, List.getElem_take, List.getElem?_eq_getElem (by omega)]
        rfl
    · intro k hk
      have hk' : k < n := List.mem_range.1 hk
      rw [getAt_eq_ok, hfull k (by omega), List.getElem?_eq_getElem (by omega)]
      rfl
  have hsteps := hcounted.steps env cfg roots (deposits.map (·.data))
  unfold applyDeposits
  dsimp only
  rw [hinit]
  dsimp only
  rw [processDeposits_eq env cfg full roots hlength deposits n _ hcounted hfull hgenuine]
  dsimp only
  rw [processActivations_eq hsteps.paired]

end Batch

/-! ## Batches do not matter -/

theorem activateAtGenesis_again (v : Validator) {balance balance' : Nat} (h : balance ≤ balance') :
    activateAtGenesis P (activateAtGenesis P v balance) balance' = activateAtGenesis P v balance' := by
  -- a validator that once reached the maximum is still there
  have hgrows : min (balance - balance % P.EFFECTIVE_BALANCE_INCREMENT) P.MAX_EFFECTIVE_BALANCE = P.MAX_EFFECTIVE_BALANCE →
      min (balance' - balance' % P.EFFECTIVE_BALANCE_INCREMENT) P.MAX_EFFECTIVE_BALANCE = P.MAX_EFFECTIVE_BALANCE := by
    have hround : balance - balance % P.EFFECTIVE_BALANCE_INCREMENT ≤ balance' - balance' % P.EFFECTIVE_BALANCE_INCREMENT := by
      rw [← Nat.div_mul_self_eq_mod_sub_self, ← Nat.div_mul_self_eq_mod_sub_self]
      exact Nat.mul_le_mul_right _ (Nat.div_le_div_right h)
    omega
  unfold activateAtGenesis
  dsimp only
  by_cases hmax' : min (balance' - balance' % P.EFFECTIVE_BALANCE_INCREMENT) P.MAX_EFFECTIVE_BALANCE =
      P.MAX_EFFECTIVE_BALANCE
  · rw [if_pos hmax', if_pos hmax']
    split <;> rfl
  · rw [if_neg hmax', if_neg hmax', if_neg fun hmax => hmax' (hgrows hmax)]

section

variable (state : CachedBeaconState P)

def settled : CachedBeaconState P := applyEth1BlockHash (activated state) zeroRoot

theorem forall₂_modify (balances : List Nat) (i amount : Nat) :
    List.Forall₂ (· ≤ ·) balances (balances.modify i (· + amount)) := by
  induction balances generalizing i with
  | nil =>
    rw [List.modify_nil]
    exact .nil
  | cons balance balances ih =>
    cases i with
    | zero => exact .cons (Nat.le_add_right _ _) (List.forall₂_refl balances)
    | succ i => exact .cons (Nat.le_refl _) (ih i)

variable {balances balances' : List Nat}

theorem zipWith_again (h : List.Forall₂ (· ≤ ·) balances balances') (validators : List Validator) :
    (validators.zipWith (activateAtGenesis P) balances).zipWith (activateAtGenesis P) balances' =
      validators.zipWith (activateAtGenesis P) balances' := by
  induction h generalizing validators with
  | nil => rw [List.zipWith_nil_right, List.zipWith_nil_right]
  | cons hle _ ih =>
    cases validators with
    | nil => rfl
    | cons v validators =>
      rw [List.zipWith_cons_cons, List.zipWith_cons_cons, List.zipWith_cons_cons, ih, activateAtGenesis_again v hle]

theorem settled_settled : settled (settled state) = settled state := by
  unfold settled activated applyEth1BlockHash
  dsimp only
  rw [zipWith_again (List.forall₂_refl _)]

theorem settled_activated : settled (activated state) = settled state := by
  unfold settled activated applyEth1BlockHash
  rw [zipWith_again (List.forall₂_refl _)]

end

section Settled

variable (env : GenesisEnv P) (cfg : GenesisConfig)

theorem settled_creditDeposit (env : Env P) (fork : ForkName) {state : CachedBeaconState P} (data : DepositData)
    (hpaired : Paired state.toBeaconState) :
    settled (creditDeposit env fork (settled state) data) = settled (creditDeposit env fork state data) := by
  have hlength : (state.validators.zipWith (activateAtGenesis P) state.balances).length = state.validators.length := by
    rw [List.length_zipWith, hpaired, Nat.min_self]
  show settled (match (state.epochCtx.pubkey2index.get? data.pubkey).filter
    (· < (state.validators.zipWith (activateAtGenesis P) state.balances).length) with
    | none => _
    | some cachedIndex => _) = settled (match
      (state.epochCtx.pubkey2index.get? data.pubkey).filter (· < state.validators.length) with
    | none => _
    | some cachedIndex => _)
  rw [hlength]
  cases (state.epochCtx.pubkey2index.get? data.pubkey).filter (· < state.validators.length) with
  | none =>
    by_cases hvalid : (env.publicKeyFromBytes data.pubkey true && env.verifyDepositSignature data) = true
    · rw [if_pos hvalid, if_pos hvalid]
      unfold settled activated applyEth1BlockHash
      dsimp only
      rw [hlength, List.zipWith_append (hlength.trans hpaired.symm), List.zipWith_append hpaired.symm,
        zipWith_again (List.forall₂_refl _), List.zipWith_cons_cons, List.zipWith_nil_left]
    · rw [if_neg hvalid, if_neg hvalid]
      exact settled_settled { state with eth1DepositIndex := state.eth1DepositIndex + 1 }
  | some cachedIndex =>
    unfold settled activated applyEth1BlockHash
    dsimp only
    rw [zipWith_again (forall₂_modify _ _ _)]

theorem settled_depositStep (roots : List Root) {state : CachedBeaconState P} (data : DepositData)
    (hpaired : Paired state.toBeaconState) :
    settled (depositStep env cfg roots (settled state) data) = settled (depositStep env cfg roots state data) := by
  unfold depositStep
  have h := @settled_creditDeposit P env.toEnv (getForkName P cfg.toChainConfig GENESIS_SLOT)
    { state with eth1Data := { state.eth1Data with
      depositRoot := env.depositDataRootListRoot (roots.take (state.eth1Data.depositCount + 1))
      depositCount := state.eth1Data.depositCount + 1 } } data hpaired
  rw [← h]
  rfl

theorem steps_paired (roots : List Root) {state : CachedBeaconState P} (datas : List DepositData)
    (hpaired : Paired state.toBeaconState) : Paired (datas.foldl (depositStep env cfg roots) state).toBeaconState := by
  induction datas generalizing state with
  | nil => exact hpaired
  | cons data datas ih => exact ih (depositStep_paired env cfg roots data hpaired)

theorem settled_steps (roots : List Root) {state state' : CachedBeaconState P} (datas : List DepositData)
    (hpaired : Paired state.toBeaconState) (hpaired' : Paired state'.toBeaconState) (h : settled state = settled state') :
    settled (datas.foldl (depositStep env cfg roots) state) = settled (datas.foldl (depositStep env cfg roots) state') := by
  induction datas generalizing state state' with
  | nil => exact h
  | cons data datas ih =>
    refine ih (depositStep_paired env cfg roots data hpaired) (depositStep_paired env cfg roots data hpaired') ?_
    rw [← settled_depositStep env cfg roots data hpaired, h, settled_depositStep env cfg roots data hpaired']

end Settled

/-! ## Active validators -/

section Active

variable (env : GenesisEnv P) (cfg : GenesisConfig)

def activeCount (state : BeaconState P) : Nat :=
  (state.validators.zipWith (activateAtGenesis P) state.balances).countP (isActiveValidator · (computeEpochAtSlot P GENESIS_SLOT))

theorem length_indicesWhere (test : Validator → Bool) (validators : List Validator) :
    (indicesWhere test validators).length = validators.countP test := by
  unfold indicesWhere
  rw [List.length_map, ← List.countP_eq_length_filter]
  have hmap := List.countP_map (p := test) (f := Prod.fst) (l := validators.zipIdx)
  rw [List.zipIdx_map_fst] at hmap
  exact hmap.symm

theorem isValidGenesisValidators_activated (state : CachedBeaconState P) :
    isValidGenesisValidators cfg (activated state).toBeaconState =
      decide (cfg.MIN_GENESIS_ACTIVE_VALIDATOR_COUNT ≤ activeCount state.toBeaconState) := by
  unfold isValidGenesisValidators getActiveValidatorIndices
  rw [length_indicesWhere]
  rfl

theorem isActive_activateAtGenesis (v : Validator) {balance balance' : Nat} (h : balance ≤ balance')
    (hactive : isActiveValidator (activateAtGenesis P v balance) (computeEpochAtSlot P GENESIS_SLOT) = true) :
    isActiveValidator (activateAtGenesis P v balance') (computeEpochAtSlot P GENESIS_SLOT) = true := by
  rw [← activateAtGenesis_again v h]
  revert hactive
  generalize activateAtGenesis P v balance = v
  intro hactive
  unfold activateAtGenesis
  dsimp only
  split
  · unfold isActiveValidator at hactive ⊢
    rw [Bool.and_eq_true] at hactive ⊢
    exact ⟨by simp, hactive.2⟩
  · exact hactive

theorem countP_zipWith_le (h : List.Forall₂ (· ≤ ·) balances balances') (validators : List Validator) :
    (validators.zipWith (activateAtGenesis P) balances).countP (isActiveValidator · (computeEpochAtSlot P GENESIS_SLOT)) ≤
      (validators.zipWith (activateAtGenesis P) balances').countP (isActiveValidator · (computeEpochAtSlot P GENESIS_SLOT)) := by
  induction h generalizing validators with
  | nil => exact Nat.le_refl _
  | cons hle _ ih =>
    cases validators with
    | nil => exact Nat.le_refl _
    | cons v validators =>
      rw [List.zipWith_cons_cons, List.zipWith_cons_cons, List.countP_cons, List.countP_cons]
      refine Nat.add_le_add (ih validators) ?_
      split
      · rename_i hactive
        rw [if_pos (isActive_activateAtGenesis v hle hactive)]
      · exact Nat.zero_le _

variable {state : CachedBeaconState P}

theorem activeCount_depositStep (roots : List Root) (data : DepositData) (hpaired : Paired state.toBeaconState) :
    activeCount state.toBeaconState ≤ activeCount (depositStep env cfg roots state data).toBeaconState := by
  unfold depositStep creditDeposit
  dsimp only
  split
  · split
    · unfold activeCount
      rw [List.zipWith_append hpaired.symm, List.countP_append]
      exact Nat.le_add_right _ _
    · exact Nat.le_refl _
  · exact countP_zipWith_le (forall₂_modify _ _ _) _

theorem activeCount_steps (roots : List Root) (datas : List DepositData) (hpaired : Paired state.toBeaconState) :
    activeCount state.toBeaconState ≤ activeCount (datas.foldl (depositStep env cfg roots) state).toBeaconState := by
  induction datas generalizing state with
  | nil => exact Nat.le_refl _
  | cons data datas ih =>
    exact (activeCount_depositStep env cfg roots data hpaired).trans (ih (depositStep_paired env cfg roots data hpaired))

end Active

end Lodestar.StateTransition
