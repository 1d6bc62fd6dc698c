import Lodestar.Eth1.DepositsCache
/-!
# Deposits — the deposits of a block, with their proofs

`getDeposits` asks for the deposits from the state's index on, as many as the data allows and a block holds.  The cache reads
their events in a range of indices and proves each in the tree cut back to the count of the data.  `Stored.getDeposits_eq`
says what comes back of a stored log.
-/
namespace Lodestar.Eth1

open Lib Lib.SortedMap Db Db.BeaconDb StateTransition

inductive DepositsError
  | eth1 (error : Eth1Error)
  | depositIndexTooHigh (depositIndex depositCount : Nat)
  | notEnoughDeposits (len expectedLen : Nat)
  | tooManyDeposits (len expectedLen : Nat)
  | wrongDepositRoot (root expectedRoot : Root)
deriving DecidableEq

def DepositsError.message : DepositsError → Option String
  | .eth1 _ => none
  | .depositIndexTooHigh depositIndex depositCount =>
    some ("Deposit index too high: depositIndex=" ++ toString depositIndex ++ " depositCount=" ++ toString depositCount)
  | .notEnoughDeposits len expectedLen =>
    some ("Not enough deposits in DB: got " ++ toString len ++ ", expected " ++ toString expectedLen)
  | .tooManyDeposits len expectedLen =>
    some ("Too many deposits returned by DB: got " ++ toString len ++ ", expected " ++ toString expectedLen)
  | .wrongDepositRoot root expectedRoot =>
    some ("Deposit root tree does not match current eth1Data " ++ Hex.ofBytes root.toList ++ " != " ++
      Hex.ofBytes expectedRoot.toList)

abbrev DepositGetter (T σ : Type) := FilterOptions Nat → Eth1Data → σ → Except DepositsError (List T) × σ

/-- `eth1DepositIndex` is the next deposit index to be added. -/
def getDeposits {P : Preset} {T σ : Type} (state : BeaconState P) (eth1Data : Eth1Data) (depositsGetter : DepositGetter T σ)
    (s : σ) : Except DepositsError (List T) × σ :=
  let depositIndex := state.eth1DepositIndex
  let depositCount := eth1Data.depositCount
  if depositIndex > depositCount then (.error (.depositIndexTooHigh depositIndex depositCount), s)
  else
    let depositsLen := min P.MAX_DEPOSITS (depositCount - depositIndex)
    let indexRange : FilterOptions Nat := { gte := some depositIndex, lt := some (depositIndex + depositsLen) }
    match depositsGetter indexRange eth1Data s with
    | (.error error, s) => (.error error, s)
    | (.ok deposits, s) =>
      if deposits.length < depositsLen then (.error (.notEnoughDeposits deposits.length depositsLen), s)
      else if deposits.length > depositsLen then (.error (.tooManyDeposits deposits.length depositsLen), s)
      else (.ok deposits, s)

/-! ## Proofs -/

/-- `getTreeAtIndex(tree, depositCount - 1)`.  For no deposits the index is under every other and the whole tree is popped. -/
def getTreeAtDepositCount {T : Type} (tree : List T) (depositCount : Nat) : Except Eth1Error (List T) :=
  match depositCount with
  | 0 => .ok (popMany tree.length tree)
  | index + 1 => getTreeAtIndex tree index

theorem getTreeAtDepositCount_eq {T : Type} {tree : List T} {depositCount : Nat} (h : depositCount ≤ tree.length) :
    getTreeAtDepositCount tree depositCount = .ok (tree.take depositCount) := by
  cases depositCount with
  | zero =>
    unfold getTreeAtDepositCount
    rw [popMany_eq, Nat.sub_self]
  | succ index => exact getTreeAtIndex_eq h

variable (values : Eth1Values) (getSingleProof : List Root → Nat → List Root)

def getDepositsWithProofs (depositEvents : List DepositEvent) (depositRootTree : List Root) (eth1Data : Eth1Data) :
    Except DepositsError (List Deposit) :=
  -- Get tree at this particular depositCount to compute correct proofs
  match getTreeAtDepositCount depositRootTree eth1Data.depositCount with
  | .error error => .error (.eth1 error)
  | .ok treeAtDepositCount =>
    let depositRoot := values.depositDataRootListHashTreeRoot treeAtDepositCount
    if depositRoot ≠ eth1Data.depositRoot then .error (.wrongDepositRoot depositRoot eth1Data.depositRoot)
    else .ok (depositEvents.map fun log => { proof := getSingleProof treeAtDepositCount log.index, data := log.depositData })

namespace Eth1DepositsCache

/-- Returns a list of `Deposit` objects, within the given deposit index range, and the cache with the tree it may have
loaded. -/
def get : DepositGetter Deposit Eth1DepositsCache := fun indexRange eth1Data cache =>
  match ofDb ((depositEvent values.toValues).values cache.db (numberOptions indexRange)) with
  | .error error => (.error (.eth1 error), cache)
  | .ok depositEvents =>
    match getDepositRootTree values cache with
    | .error error => (.error (.eth1 error), cache)
    | .ok (depositRootTree, cache) =>
      (getDepositsWithProofs values getSingleProof (depositEvents.map values.depositEvent) depositRootTree eth1Data, cache)

/-! ## What a stored log gives -/

namespace Stored

variable {values} {cache : Eth1DepositsCache} {log : DepositLog values}

theorem get_event (h : Stored cache log) {event : DepositEvent} (hevent : event ∈ log.events) :
    (depositEvent values.toValues).get cache.db (.number event.index) = .ok (some (values.ofDepositEvent event)) := by
  obtain ⟨i, hi⟩ := List.getElem?_of_mem hevent
  have hindex := log.index_eq i event hi
  have hlt := (List.getElem?_eq_some_iff.1 hi).1
  have hbound : log.events.length < 256 ^ uintLen := Nat.lt_of_le_of_lt log.length_le (by decide)
  have hbinary : (depositEvent values.toValues).getBinary cache.db (.number event.index) =
      some (values.serialize .depositEvent (values.ofDepositEvent event)) := by
    rw [h.events.getBinary_eq (by omega), get?_enumerate, hindex]
    unfold eventBytes
    rw [List.getElem?_map, hi]
    rfl
  unfold Repository.get
  rw [hbinary]
  exact map_eq_ok.2 ⟨_, log.readable event hevent, rfl⟩

variable {first last : Nat}

theorem values_range (h : Stored cache log) (hfirst : first ≤ last) (hlast : last ≤ log.events.length) :
    ofDb ((depositEvent values.toValues).values cache.db (numberOptions { gte := some first, lt := some last })) =
      .ok (((log.events.take last).drop first).map values.ofDepositEvent) := by
  have hbound : log.events.length < 256 ^ uintLen := Nat.lt_of_le_of_lt log.length_le (by decide)
  have hfits : Fits { gte := some first, lt := some last } := by
    constructor <;> simp <;> omega
  have hrange : Rows.entries (enumerate (eventBytes log)) { gte := some first, lt := some last } =
      ((enumerate (eventBytes log)).entries.take last).drop first := by
    unfold Rows.entries inNumberRange
    refine filter_eq_drop_take _ _ _ fun i entry hentry => ?_
    have hindex : entry.1 = i := by
      unfold enumerate at hentry
      rw [List.getElem?_mapIdx, Option.map_eq_some_iff] at hentry
      obtain ⟨value, -, rfl⟩ := hentry
      rfl
    rw [hindex]
    simp
  have hmapped : (((enumerate (eventBytes log)).entries.take last).drop first).map (·.2) =
      ((eventBytes log).take last).drop first := by
    rw [List.map_drop, List.map_take, map_snd_enumerate]
  have hstretch : ((eventBytes log).take last).drop first =
      ((log.events.take last).drop first).map fun event => values.serialize .depositEvent (values.ofDepositEvent event) := by
    unfold eventBytes
    rw [List.map_drop, List.map_take]
  have hdecoded : (((eventBytes log).take last).drop first).mapM (depositEvent values.toValues).decodeValue =
      .ok (((log.events.take last).drop first).map values.ofDepositEvent) := by
    rw [hstretch, List.mapM_map]
    exact mapM_eq_map _ fun event hevent => log.readable event (List.mem_of_mem_take (List.mem_of_mem_drop hevent))
  rw [h.events.values_eq hfits, hrange, hmapped, hdecoded]
  rfl

/-- The deposits of a range of indices, each with its proof in the tree of the first `depositCount` deposits. -/
def provedDeposits (log : DepositLog values) (depositCount first last : Nat) : List Deposit :=
  ((log.events.take last).drop first).map fun event =>
    { proof := getSingleProof (log.roots.take depositCount) event.index, data := event.depositData }

theorem length_provedDeposits (log : DepositLog values) (depositCount : Nat) (hlast : last ≤ log.events.length) :
    (provedDeposits getSingleProof log depositCount first last).length = last - first := by
  unfold provedDeposits
  rw [List.length_map, List.length_drop, List.length_take]
  omega

variable {eth1Data : Eth1Data}

theorem get_eq (h : Stored cache log) (hfirst : first ≤ last) (hlast : last ≤ log.events.length)
    (hcount : eth1Data.depositCount ≤ log.events.length) :
    ∃ cache', Stored cache' log ∧ cache'.db = cache.db ∧
      get values getSingleProof { gte := some first, lt := some last } eth1Data cache =
        (if values.depositDataRootListHashTreeRoot (log.roots.take eth1Data.depositCount) ≠ eth1Data.depositRoot then
          .error (.wrongDepositRoot (values.depositDataRootListHashTreeRoot (log.roots.take eth1Data.depositCount))
            eth1Data.depositRoot)
        else .ok (provedDeposits getSingleProof log eth1Data.depositCount first last), cache') := by
  obtain ⟨cache', htree, hstored, hdb⟩ := h.getDepositRootTree_eq
  refine ⟨cache', hstored, hdb, ?_⟩
  have hread : (((log.events.take last).drop first).map values.ofDepositEvent).map values.depositEvent =
      (log.events.take last).drop first := by
    rw [List.map_map]
    have hid : values.depositEvent ∘ values.ofDepositEvent = id := funext values.depositEvent_of
    rw [hid, List.map_id]
  unfold get
  rw [h.values_range hfirst hlast]
  dsimp only
  rw [htree, hread]
  dsimp only
  unfold getDepositsWithProofs
  rw [getTreeAtDepositCount_eq (by rw [length_roots]; exact hcount)]
  rfl

theorem getDeposits_eq {P : Preset} (h : Stored cache log) {state : BeaconState P}
    (hindex : state.eth1DepositIndex ≤ eth1Data.depositCount) (hcount : eth1Data.depositCount ≤ log.events.length) :
    ∃ cache', Stored cache' log ∧ cache'.db = cache.db ∧
      getDeposits state eth1Data (get values getSingleProof) cache =
        (if values.depositDataRootListHashTreeRoot (log.roots.take eth1Data.depositCount) ≠ eth1Data.depositRoot then
          .error (.wrongDepositRoot (values.depositDataRootListHashTreeRoot (log.roots.take eth1Data.depositCount))
            eth1Data.depositRoot)
        else .ok (provedDeposits getSingleProof log eth1Data.depositCount state.eth1DepositIndex
          (state.eth1DepositIndex + min P.MAX_DEPOSITS (eth1Data.depositCount - state.eth1DepositIndex))), cache') := by
  have hlast : state.eth1DepositIndex + min P.MAX_DEPOSITS (eth1Data.depositCount - state.eth1DepositIndex) ≤
      log.events.length := by omega
  obtain ⟨cache', hstored, hdb, hget⟩ := h.get_eq getSingleProof (Nat.le_add_right _ _) hlast hcount
  refine ⟨cache', hstored, hdb, ?_⟩
  have hlength : (provedDeposits getSingleProof log eth1Data.depositCount state.eth1DepositIndex
      (state.eth1DepositIndex + min P.MAX_DEPOSITS (eth1Data.depositCount - state.eth1DepositIndex))).length =
      min P.MAX_DEPOSITS (eth1Data.depositCount - state.eth1DepositIndex) := by
    rw [length_provedDeposits getSingleProof log eth1Data.depositCount hlast, Nat.add_sub_cancel_left]
  unfold getDeposits
  dsimp only
  rw [if_neg (by omega), hget]
  by_cases hroot : values.depositDataRootListHashTreeRoot (log.roots.take eth1Data.depositCount) ≠ eth1Data.depositRoot
  · rw [if_pos hroot]
  · rw [if_neg hroot]
    dsimp only
    rw [if_neg (by omega), if_neg (by omega)]

end Stored

end Eth1DepositsCache

end Lodestar.Eth1
