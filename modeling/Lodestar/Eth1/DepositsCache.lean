import Lodestar.Eth1.Eth1Data
/-!
# DepositsCache — the deposit events and roots in the database

`Stored` says that the buckets of the events and of their roots hold a log, under the numbers of its deposits.  The stream
of `getEth1DataForBlocks` is bounded by a block number where the keys are deposit numbers; `Answerable` is what that asks of
the log and the blocks.
-/
namespace Lodestar.Eth1

open Lib Lib.SortedMap Db Db.BeaconDb
open scoped Lib.BigEndian

structure Eth1DepositsCache where
  db : Store
  depositRootTree : Option (List Root) := none

namespace Eth1DepositsCache

variable (values : Eth1Values)

def ofDb {α : Type} : Except DbError α → Except Eth1Error α
  | .ok a => .ok a
  | .error error => .error (.db error)

section

variable (cache : Eth1DepositsCache)

def getDepositRootTree : Except Eth1Error (List Root × Eth1DepositsCache) :=
  match cache.depositRootTree with
  | some depositRootTree => .ok (depositRootTree, cache)
  | none => do
    let roots ← ofDb ((depositDataRoot values.toValues).values cache.db {})
    let depositRootTree := roots.map values.root
    return (depositRootTree, { cache with depositRootTree := some depositRootTree })

def getEth1DataForBlocks (cache : Eth1DepositsCache) (blocks : List Eth1Block)
    (lastProcessedDepositBlockNumber : Option Nat) : Except Eth1Error (List Eth1DataOfBlock) × Eth1DepositsCache :=
  let highestBlock := blocks.getLast?.map (·.blockNumber)
  let stream := (depositEvent values.toValues).valuesStream cache.db { lte := highestBlock.map .number, reverse := true }
  match getDepositRootTree values cache with
  | .error error => (.error error, cache)
  | .ok (depositRootTree, cache) =>
    (Eth1.getEth1DataForBlocks values.depositDataRootListHashTreeRoot blocks
      (stream.map fun value => (ofDb value).map values.depositEvent) depositRootTree lastProcessedDepositBlockNumber, cache)

def assertConsecutiveDeposits : Nat → List DepositEvent → Except Eth1Error Unit
  | i, left :: right :: rest =>
    if (left.index : Int) ≠ right.index - 1 then
      .error (.error ("Non consecutive deposits. deposit[" ++ toString i ++ "] = " ++ toString left.index ++ ", deposit[" ++
        toString (i + 1) ++ "] " ++ toString right.index))
    else assertConsecutiveDeposits (i + 1) (right :: rest)
  | _, _ => .ok ()

/-- The assignments of `DepositDataRootRepository.batchPut` to the tree, up to one that throws. -/
def setRoots : List Root → List (Nat × Root) → Except Eth1Error Unit × List Root
  | depositRootTree, [] => (.ok (), depositRootTree)
  | depositRootTree, (key, value) :: items =>
    match values.setRoot depositRootTree key value with
    | .error message => (.error (.error message), depositRootTree)
    | .ok depositRootTree => setRoots depositRootTree items

def batchPutRoots (depositRoots : List (Nat × Root)) : Except Eth1Error Unit × Eth1DepositsCache :=
  match getDepositRootTree values cache with
  | .error error => (.error error, cache)
  | .ok (depositRootTree, cache) =>
    let db := (depositDataRoot values.toValues).batchPut cache.db
      (depositRoots.map fun item => (.number item.1, values.ofRoot item.2))
    let (result, depositRootTree) := setRoots values depositRootTree depositRoots
    (result, { db, depositRootTree := some depositRootTree })

section

variable (depositEvents : List DepositEvent)

def batchPutEvents : Eth1DepositsCache :=
  { cache with
    db := (depositEvent values.toValues).batchPut cache.db
      (depositEvents.map fun event => (.number event.index, values.ofDepositEvent event)) }

def checkAdd : Except Eth1Error Unit := do
  assertConsecutiveDeposits 0 depositEvents
  let lastLog ← ofDb ((depositEvent values.toValues).lastValue cache.db)
  match lastLog, depositEvents.head? with
  | some lastLog, some firstEvent =>
    let lastIndex := (values.depositEvent lastLog).index
    if firstEvent.index ≤ lastIndex then throw (.error "DuplicateDistinctLog")
    if firstEvent.index > lastIndex + 1 then throw (.error "Non consecutive logs")
  | _, _ => pure ()

def add : Except Eth1Error Unit × Eth1DepositsCache :=
  match checkAdd values cache depositEvents with
  | .error error => (.error error, cache)
  | .ok () =>
    let depositRoots := depositEvents.map fun event => (event.index, values.depositDataHashTreeRoot event.depositData)
    -- Store events after verifying that data is consecutive
    match batchPutRoots values cache depositRoots with
    | (.error error, cache) => (.error error, cache)
    | (.ok (), cache) => (.ok (), batchPutEvents values cache depositEvents)

end

def getHighestDepositEventBlockNumber : Except Eth1Error (Option Nat) := do
  let latestEvent ← ofDb ((depositEvent values.toValues).lastValue cache.db)
  return latestEvent.map fun event => (values.depositEvent event).blockNumber

def getLowestDepositEventBlockNumber : Except Eth1Error (Option Nat) := do
  let firstEvent ← ofDb ((depositEvent values.toValues).firstValue cache.db)
  return firstEvent.map fun event => (values.depositEvent event).blockNumber

end

/-! ## A stored log -/

variable {values}

def eventBytes (log : DepositLog values) : List Buffer :=
  log.events.map fun event => values.serialize .depositEvent (values.ofDepositEvent event)

def rootBytes (log : DepositLog values) : List Buffer :=
  log.roots.map fun root => values.serialize .depositDataRoot (values.ofRoot root)

/-- The events and the roots of the log are in the database under their numbers; a loaded tree is that of the roots. -/
structure Stored (cache : Eth1DepositsCache) (log : DepositLog values) : Prop where
  events : Rows (depositEvent values.toValues) cache.db (enumerate (eventBytes log))
  roots : Rows (depositDataRoot values.toValues) cache.db (enumerate (rootBytes log))
  tree : ∀ tree, cache.depositRootTree = some tree → tree = log.roots

variable {roots : List Root}

theorem values_depositDataRoot {db : Store}
    (h : Rows (depositDataRoot values.toValues) db
    (enumerate (roots.map fun root => values.serialize .depositDataRoot (values.ofRoot root)))) :
    (depositDataRoot values.toValues).values db {} = .ok (roots.map values.ofRoot) := by
  have hfits : Fits {} := by constructor <;> simp
  have hall : Rows.entries (enumerate (roots.map fun root => values.serialize .depositDataRoot (values.ofRoot root))) {} =
      (enumerate (roots.map fun root => values.serialize .depositDataRoot (values.ofRoot root))).entries := by
    exact List.filter_eq_self.2 fun _ _ => rfl
  have heq := h.values_eq hfits
  rw [hall, map_snd_enumerate] at heq
  have hbytes : (roots.map fun root => values.serialize .depositDataRoot (values.ofRoot root)) =
      (roots.map values.ofRoot).map (values.serialize .depositDataRoot) := by
    rw [List.map_map]
    rfl
  refine heq.trans ?_
  rw [hbytes]
  exact mapM_map _ fun value _ => values.deserialize_root value

theorem map_root_ofRoot (roots : List Root) : (roots.map values.ofRoot).map values.root = roots := by
  rw [List.map_map]
  have hid : values.root ∘ values.ofRoot = id := funext values.root_of
  rw [hid, List.map_id]

variable {cache : Eth1DepositsCache}

theorem getDepositRootTree_of_rows
    (h : Rows (depositDataRoot values.toValues) cache.db
    (enumerate (roots.map fun root => values.serialize .depositDataRoot (values.ofRoot root))))
    (htree : ∀ tree, cache.depositRootTree = some tree → tree = roots) :
    getDepositRootTree values cache = .ok (roots, { cache with depositRootTree := some roots }) := by
  obtain ⟨db, depositRootTree⟩ := cache
  unfold getDepositRootTree
  cases depositRootTree with
  | some tree =>
    obtain rfl := htree tree rfl
    rfl
  | none =>
    rw [values_depositDataRoot h]
    show Except.ok _ = _
    rw [map_root_ofRoot]

theorem length_roots (log : DepositLog values) : log.roots.length = log.events.length := List.length_map _

namespace Stored

variable {cache : Eth1DepositsCache} {log : DepositLog values}

theorem getDepositRootTree_eq (h : Stored cache log) :
    ∃ cache', getDepositRootTree values cache = .ok (log.roots, cache') ∧ Stored cache' log ∧ cache'.db = cache.db := by
  refine ⟨_, getDepositRootTree_of_rows h.roots h.tree, ⟨h.events, h.roots, fun tree htree => ?_⟩, rfl⟩
  cases htree
  rfl

theorem decode_eventBytes (log : DepositLog values) :
    (eventBytes log).map (fun value => (ofDb ((depositEvent values.toValues).decodeValue value)).map values.depositEvent) =
      log.events.map .ok := by
  unfold eventBytes
  rw [List.map_map]
  refine List.map_congr_left fun event hevent => ?_
  show (ofDb (values.deserialize .depositEvent (values.serialize .depositEvent (values.ofDepositEvent event)))).map
    values.depositEvent = _
  rw [log.readable event hevent]
  exact congrArg Except.ok (values.depositEvent_of event)

theorem stream_eq (h : Stored cache log) {highest : Option Nat} (hhighest : ∀ n ∈ highest, n ≤ MAX_SAFE_INTEGER) :
    ((depositEvent values.toValues).valuesStream cache.db { lte := highest.map .number, reverse := true }).map
        (fun value => (ofDb value).map values.depositEvent) =
      (log.upTo highest).events.reverse.map .ok := by
  have hfits : Fits { lte := highest, reverse := true } := by
    constructor
    · simp
    · simp
    · simp
    · intro n hn
      exact lt_of_safe (hhighest n hn)
  have hstream : (depositEvent values.toValues).valuesStream cache.db { lte := highest.map .number, reverse := true } =
      ((Rows.entries (enumerate (eventBytes log)) { lte := highest, reverse := true }).map (·.2)).map
        (depositEvent values.toValues).decodeValue := h.events.valuesStream_eq hfits
  have hrange : Rows.entries (enumerate (eventBytes log)) { lte := highest, reverse := true } =
      (enumerate (eventBytes (log.upTo highest))).entries.reverse := by
    cases highest with
    | none =>
      have hall : (enumerate (eventBytes log)).entries.filter (fun _ => true) = (enumerate (eventBytes log)).entries :=
        List.filter_eq_self.2 fun _ _ => rfl
      exact congrArg List.reverse hall
    | some n =>
      have htake : eventBytes (log.upTo (some n)) = (eventBytes log).take (n + 1) := List.map_take
      rw [htake, ← filter_enumerate]
      rfl
  rw [hstream, hrange, List.map_reverse, map_snd_enumerate, List.map_reverse, List.map_reverse, List.map_map, List.map_reverse]
  exact congrArg List.reverse (decode_eventBytes (log.upTo highest))

/-! ## Adding the next deposits -/

theorem lastValue_eq (h : Stored cache log) :
    ofDb ((depositEvent values.toValues).lastValue cache.db) = .ok (log.events.getLast?.map values.ofDepositEvent) := by
  rw [h.events.lastValue_eq, map_snd_enumerate]
  unfold eventBytes
  rw [List.getLast?_map]
  cases hlast : log.events.getLast? with
  | none => rfl
  | some event =>
    have hread := log.readable event (List.mem_of_getLast? hlast)
    show ofDb ((values.deserialize .depositEvent _).map some) = _
    rw [hread]
    rfl

theorem getHighest_eq (h : Stored cache log) :
    getHighestDepositEventBlockNumber values cache = .ok (log.events.getLast?.map (·.blockNumber)) := by
  unfold getHighestDepositEventBlockNumber
  rw [h.lastValue_eq]
  cases log.events.getLast? with
  | none => rfl
  | some event =>
    show Except.ok (some (values.depositEvent (values.ofDepositEvent event)).blockNumber) = _
    rw [values.depositEvent_of]
    rfl

theorem assertConsecutiveDeposits_eq : ∀ {events : List DepositEvent} {n : Nat} (i : Nat),
    (∀ (j : Nat) event, events[j]? = some event → event.index = n + j) → assertConsecutiveDeposits i events = .ok ()
  | [], _, _, _ => rfl
  | [_], _, _, _ => rfl
  | left :: right :: rest, n, i, h => by
    have hleft : left.index = n + 0 := h 0 left rfl
    have hright : right.index = n + 1 := h 1 right rfl
    unfold assertConsecutiveDeposits
    rw [if_neg (by omega)]
    refine assertConsecutiveDeposits_eq (n := n + 1) (i + 1) fun j event hevent => ?_
    have := h (j + 1) event hevent
    omega

theorem index_getLast (log : DepositLog values) {event : DepositEvent} (h : log.events.getLast? = some event) :
    event.index + 1 = log.events.length := by
  rw [List.getLast?_eq_getElem?] at h
  have hindex := log.index_eq _ event h
  have hlt := (List.getElem?_eq_some_iff.1 h).1
  omega

variable {events : List DepositEvent}

theorem checkAdd_eq (h : Stored cache log)
    (hnext : ∀ (j : Nat) event, events[j]? = some event → event.index = log.events.length + j) :
    checkAdd values cache events = .ok () := by
  unfold checkAdd
  rw [assertConsecutiveDeposits_eq 0 hnext, h.lastValue_eq]
  cases hlast : log.events.getLast? with
  | none => rfl
  | some last =>
    have hlength := index_getLast log hlast
    cases hfirst : events.head? with
    | none => rfl
    | some first =>
      have hindex : first.index = log.events.length + 0 := hnext 0 first (by rw [← List.head?_eq_getElem?, hfirst])
      show (if first.index ≤ (values.depositEvent (values.ofDepositEvent last)).index then _ else _) = _
      rw [values.depositEvent_of, if_neg (by omega)]
      rw [if_neg (by omega)]
      rfl

theorem setRoots_eq : ∀ (items : List (Nat × Root)) (tree : List Root), tree.length + items.length ≤ 2 ^ 32 →
    (∀ (j : Nat) item, items[j]? = some item → item.1 = tree.length + j) →
    setRoots values tree items = (.ok (), tree ++ items.map (·.2))
  | [], tree, _, _ => by
    rw [List.map_nil, List.append_nil]
    rfl
  | (key, value) :: items, tree, hlength, hkeys => by
    rw [List.length_cons] at hlength
    have hkey : key = tree.length + 0 := hkeys 0 (key, value) rfl
    have hset := values.setRoot_length tree value (by omega)
    have hrest : ∀ (j : Nat) item, items[j]? = some item → item.1 = (tree ++ [value]).length + j := by
      intro j item hitem
      have := hkeys (j + 1) item hitem
      rw [List.length_append, List.length_singleton]
      omega
    unfold setRoots
    rw [hkey, Nat.add_zero, hset]
    dsimp only
    rw [setRoots_eq items (tree ++ [value]) (by rw [List.length_append, List.length_singleton]; omega) hrest,
      List.append_assoc]
    rfl

theorem rows_batchPut {V : Type} {repository : Repository V} {db : Store} {bytes : List Buffer}
    (h : Rows repository db (enumerate bytes)) (items : List (Nat × V))
    (hkeys : ∀ (j : Nat) item, items[j]? = some item → item.1 = bytes.length + j)
    (hlength : bytes.length + items.length ≤ 2 ^ 32) :
    Rows repository (repository.batchPut db (items.map fun item => (.number item.1, item.2)))
      (enumerate (bytes ++ items.map fun item => repository.encodeValue item.2)) := by
  have hsafe : ∀ item ∈ items, item.1 ≤ MAX_SAFE_INTEGER := by
    intro item hitem
    obtain ⟨j, hj⟩ := List.getElem?_of_mem hitem
    have hkey := hkeys j item hj
    have hlt := (List.getElem?_eq_some_iff.1 hj).1
    have hbound : 2 ^ 32 ≤ MAX_SAFE_INTEGER := by decide
    omega
  have hput := h.batchPut hsafe
  rw [foldl_insert_enumerate _ bytes fun j item hitem => ?_, List.map_map] at hput
  · exact hput
  · rw [List.getElem?_map, Option.map_eq_some_iff] at hitem
    obtain ⟨source, hsource, rfl⟩ := hitem
    exact hkeys j source hsource

theorem frame_batchPut {V W : Type} {repository : Repository V} (other : Repository W) {db : Store} {rows : SortedMap Nat Buffer}
    (h : Rows repository db rows) (hne : repository.bucket.value ≠ other.bucket.value) (items : List (Id × W)) :
    Rows repository (other.batchPut db items) rows :=
  h.frame (Repository.writesOnly_batchPutBinary (p := InBucket other.bucket.value) (fun _ hkey => hkey) _) fun _ hkey hother =>
    hne (hkey.value_eq hother)

theorem nil : Stored ⟨.empty, none⟩ (DepositLog.empty : DepositLog values) where
  events := Rows.empty
  roots := Rows.empty
  tree tree h := by cases h

theorem bucket_ne : (depositEvent values.toValues).bucket.value ≠ (depositDataRoot values.toValues).bucket.value := by
  show Bucket.phase0_depositEvent.value ≠ Bucket.index_depositDataRoot.value
  decide

theorem add_eq (h : Stored cache log) {log' : DepositLog values} (hlog : log'.events = log.events ++ events) :
    ∃ cache', add values cache events = (.ok (), cache') ∧ Stored cache' log' := by
  have hnext : ∀ (j : Nat) event, events[j]? = some event → event.index = log.events.length + j := by
    intro j event hevent
    refine log'.index_eq _ event ?_
    rw [hlog, List.getElem?_append_right (by omega), Nat.add_sub_cancel_left]
    exact hevent
  have hlength : log.events.length + events.length ≤ 2 ^ 32 := by
    have := log'.length_le
    rw [hlog, List.length_append] at this
    exact this
  have hroots : log'.roots = log.roots ++ events.map fun event => values.depositDataHashTreeRoot event.depositData := by
    unfold DepositLog.roots
    rw [hlog, List.map_append]
  obtain ⟨cache₁, htree, hstored, -⟩ := h.getDepositRootTree_eq
  -- the roots, in the database and in the tree
  have hset := @setRoots_eq values
    (events.map fun event => (event.index, values.depositDataHashTreeRoot event.depositData)) log.roots
    (by rw [length_roots, List.length_map]; exact hlength) fun j item hitem => by
      rw [List.getElem?_map, Option.map_eq_some_iff] at hitem
      obtain ⟨event, hevent, rfl⟩ := hitem
      rw [length_roots]
      exact hnext j event hevent
  have hrows := rows_batchPut hstored.roots
    (events.map fun event => (event.index, values.ofRoot (values.depositDataHashTreeRoot event.depositData)))
    (fun j item hitem => by
      rw [List.getElem?_map, Option.map_eq_some_iff] at hitem
      obtain ⟨event, hevent, rfl⟩ := hitem
      unfold rootBytes
      rw [List.length_map, length_roots]
      exact hnext j event hevent)
    (by
      unfold rootBytes
      rw [List.length_map, List.length_map, length_roots]
      exact hlength)
  have hframe := frame_batchPut (depositDataRoot values.toValues) hstored.events bucket_ne
    ((events.map fun event => (event.index, values.ofRoot (values.depositDataHashTreeRoot event.depositData))).map
      fun item => (.number item.1, item.2))
  -- the events
  have hrows' := rows_batchPut hframe (events.map fun event => (event.index, values.ofDepositEvent event))
    (fun j item hitem => by
      rw [List.getElem?_map, Option.map_eq_some_iff] at hitem
      obtain ⟨event, hevent, rfl⟩ := hitem
      unfold eventBytes
      rw [List.length_map]
      exact hnext j event hevent)
    (by
      unfold eventBytes
      rw [List.length_map, List.length_map]
      exact hlength)
  have hframe' := frame_batchPut (depositEvent values.toValues) hrows bucket_ne.symm
    ((events.map fun event => (event.index, values.ofDepositEvent event)).map fun item => (.number item.1, item.2))
  unfold add batchPutRoots
  rw [checkAdd_eq h hnext]
  rw [htree]
  dsimp only
  rw [hset]
  have hevents : eventBytes log' = eventBytes log ++ (events.map fun event => (event.index, values.ofDepositEvent event)).map
      fun item => (depositEvent values.toValues).encodeValue item.2 := by
    unfold eventBytes
    rw [hlog, List.map_append, List.map_map]
    rfl
  have hrootBytes : rootBytes log' = rootBytes log ++ (events.map fun event =>
      (event.index, values.ofRoot (values.depositDataHashTreeRoot event.depositData))).map
      fun item => (depositDataRoot values.toValues).encodeValue item.2 := by
    unfold rootBytes
    rw [hroots, List.map_append, List.map_map, List.map_map]
    rfl
  refine ⟨_, rfl, ?_, ?_, fun tree htree => ?_⟩
  · rw [hevents]
    simp only [batchPutEvents, List.map_map] at hrows' ⊢
    exact hrows'
  · rw [hrootBytes]
    simp only [batchPutEvents, List.map_map] at hframe' ⊢
    exact hframe'
  · cases htree
    rw [hroots, List.map_map]
    rfl

end Stored

/-! ## What the call answers -/

/-- The block is not before the first deposit nor after the last processed block. -/
def Available (log : DepositLog values) (last : Option Nat) (block : Eth1Block) : Prop :=
  0 < log.countUpTo block.blockNumber ∧ ∀ n ∈ last, block.blockNumber ≤ n

section

variable (log : DepositLog values) (blocks : List Eth1Block) (last : Option Nat)

/-- Every considered block has a deposit up to it, and no deposit up to one of them has an index above the number of the
highest block; or some considered block has none, and no block is available. -/
def Answerable : Prop :=
  ((∀ block ∈ considered blocks last, 0 < log.countUpTo block.blockNumber) ∧
    ∀ block ∈ considered blocks last, ∀ event ∈ log.events, event.blockNumber ≤ block.blockNumber →
      ∀ highest ∈ blocks.getLast?, event.index ≤ highest.blockNumber) ∨
  (∃ block ∈ considered blocks last, log.countUpTo block.blockNumber = 0) ∧ ∀ block ∈ blocks, ¬ Available log last block

def AnswersFor (result : Except Eth1Error (List Eth1DataOfBlock)) : Prop :=
  (∀ eth1Datas, result = .ok eth1Datas → ∀ eth1Data ∈ eth1Datas, eth1Data.toEth1Block ∈ blocks ∧
    eth1Data.depositCount = log.countUpTo eth1Data.blockNumber ∧
    eth1Data.depositRoot =
      values.depositDataRootListHashTreeRoot (log.roots.take (log.countUpTo eth1Data.blockNumber))) ∧
  ∀ block ∈ blocks, Available log last block →
    ∃ eth1Datas, result = .ok eth1Datas ∧ ∃ eth1Data ∈ eth1Datas, eth1Data.toEth1Block = block

end

variable {log : DepositLog values}

theorem Available.considered {last : Option Nat} {blocks : List Eth1Block} {block : Eth1Block} (h : Available log last block)
    (hmem : block ∈ blocks) : block ∈ considered blocks last := by
  unfold Eth1.considered
  split
  · exact hmem
  · exact hmem
  · rename_i n
    exact List.mem_filter.2 ⟨hmem, decide_eq_true (h.2 (n + 1) rfl)⟩

theorem countUpTo_upTo_eq_iff (log : DepositLog values) (highest : Option Nat) (blockNumber : Nat) :
    (log.upTo highest).countUpTo blockNumber = log.countUpTo blockNumber ↔
      ∀ event ∈ log.events, event.blockNumber ≤ blockNumber → ∀ n ∈ highest, event.index ≤ n := by
  cases highest with
  | none => simp [DepositLog.upTo]
  | some n =>
    have hsplit : log.countUpTo blockNumber = (log.take (n + 1)).countUpTo blockNumber +
        (log.events.drop (n + 1)).countP (fun event => decide (event.blockNumber ≤ blockNumber)) := by
      unfold DepositLog.countUpTo
      rw [← List.countP_append]
      exact congrArg _ (List.take_append_drop (n + 1) log.events).symm
    have hdrop : ∀ event, event ∈ log.events.drop (n + 1) ↔ event ∈ log.events ∧ n < event.index := by
      intro event
      constructor
      · intro h
        obtain ⟨i, hi⟩ := List.getElem?_of_mem h
        rw [List.getElem?_drop] at hi
        have := log.index_eq _ event hi
        exact ⟨List.mem_of_mem_drop h, by omega⟩
      · rintro ⟨h, hlt⟩
        obtain ⟨i, hi⟩ := List.getElem?_of_mem h
        have := log.index_eq i event hi
        refine List.mem_of_getElem? (i := i - (n + 1)) ?_
        rw [List.getElem?_drop]
        rw [show n + 1 + (i - (n + 1)) = i by omega]
        exact hi
    show (log.take (n + 1)).countUpTo blockNumber = _ ↔ _
    rw [hsplit, Nat.left_eq_add, List.countP_eq_zero]
    constructor
    · intro h event hevent hle m hm
      cases hm
      by_contra hlt
      exact h event ((hdrop event).2 ⟨hevent, by omega⟩) (decide_eq_true hle)
    · intro h event hevent hle
      obtain ⟨hmem, hlt⟩ := (hdrop event).1 hevent
      have := h event hmem (of_decide_eq_true hle) n rfl
      omega

theorem countUpTo_upTo_pos_iff (log : DepositLog values) (highest : Option Nat) (blockNumber : Nat) :
    0 < (log.upTo highest).countUpTo blockNumber ↔ 0 < log.countUpTo blockNumber := by
  rw [DepositLog.mem_of_countUpTo, DepositLog.mem_of_countUpTo]
  cases highest with
  | none => rfl
  | some n =>
    constructor
    · rintro ⟨event, hevent, hle⟩
      exact ⟨event, List.mem_of_mem_take hevent, hle⟩
    · rintro ⟨event, hevent, hle⟩
      show ∃ event ∈ log.events.take (n + 1), _
      have hordered := log.ordered
      cases hevents : log.events with
      | nil =>
        rw [hevents] at hevent
        exact absurd hevent List.not_mem_nil
      | cons first rest =>
        rw [hevents] at hevent hordered
        refine ⟨first, List.mem_cons_self, ?_⟩
        rcases List.mem_cons.1 hevent with rfl | hevent
        · exact hle
        · exact ((List.pairwise_cons.1 hordered).1 event hevent).trans hle

theorem getEth1DataForBlocks_stored (h : Stored cache log) {blocks : List Eth1Block} (last : Option Nat) :
    (getEth1DataForBlocks values cache blocks last).1 =
      Eth1.getEth1DataForBlocks values.depositDataRootListHashTreeRoot blocks
        ((log.upTo (blocks.getLast?.map (·.blockNumber))).events.reverse.map .ok) log.roots last ∧
    Stored (getEth1DataForBlocks values cache blocks last).2 log ∧
    (getEth1DataForBlocks values cache blocks last).2.db = cache.db := by
  have hhighest : ∀ n ∈ blocks.getLast?.map (·.blockNumber), n ≤ MAX_SAFE_INTEGER := by
    intro n hn
    obtain ⟨block, -, rfl⟩ := Option.mem_map.1 hn
    exact block.blockNumber_le
  obtain ⟨cache', htree, hstored, hdb⟩ := h.getDepositRootTree_eq
  unfold getEth1DataForBlocks
  dsimp only
  rw [htree, h.stream_eq hhighest]
  exact ⟨rfl, hstored, hdb⟩

/-- **The call answers for its blocks exactly when they are answerable.** -/
theorem getEth1DataForBlocks_answers_iff {cache : Eth1DepositsCache} {log : DepositLog values} (h : Stored cache log)
    {blocks : List Eth1Block} (hblocks : blocks.Pairwise (fun a b => a.blockNumber ≤ b.blockNumber)) (last : Option Nat) :
    AnswersFor log blocks last (getEth1DataForBlocks values cache blocks last).1 ↔ Answerable log blocks last := by
  rw [(getEth1DataForBlocks_stored h last).1]
  have hlength : (log.upTo (blocks.getLast?.map (·.blockNumber))).events.length ≤ log.roots.length := by
    rw [length_roots]
    cases blocks.getLast? with
    | none => exact Nat.le_refl _
    | some block => exact (List.take_sublist _ log.events).length_le
  obtain ⟨hok, herror⟩ := getEth1DataForBlocks_eq values.depositDataRootListHashTreeRoot hblocks
    (log.upTo (blocks.getLast?.map (·.blockNumber))) hlength last
  by_cases hall : ∀ block ∈ considered blocks last, 0 < log.countUpTo block.blockNumber
  · rw [hok fun block hblock => (countUpTo_upTo_pos_iff log _ _).2 (hall block hblock)]
    have hcount : Answerable log blocks last ↔ ∀ block ∈ considered blocks last,
        (log.upTo (blocks.getLast?.map (·.blockNumber))).countUpTo block.blockNumber = log.countUpTo block.blockNumber := by
      simp only [countUpTo_upTo_eq_iff, Option.mem_map, forall_exists_index, and_imp, forall_apply_eq_imp_iff₂]
      constructor
      · rintro (⟨-, h⟩ | ⟨⟨block, hblock, hzero⟩, -⟩)
        · exact h
        · have := hall block hblock
          omega
      · intro h
        exact .inl ⟨hall, h⟩
    rw [hcount]
    constructor
    · rintro ⟨hdatas, -⟩ block hblock
      exact (hdatas _ rfl _ (List.mem_map_of_mem hblock)).2.1
    · intro h
      refine ⟨fun eth1Datas heq eth1Data hmem => ?_, fun block hblock havailable => ?_⟩
      · cases heq
        obtain ⟨block, hblock, rfl⟩ := List.mem_map.1 hmem
        have heq := h block hblock
        refine ⟨mem_considered hblock, heq, ?_⟩
        show values.depositDataRootListHashTreeRoot (log.roots.take _) = _
        rw [heq]
        rfl
      · exact ⟨_, rfl, _, List.mem_map_of_mem (havailable.considered hblock), rfl⟩
  · obtain ⟨block, hblock, hzero⟩ : ∃ block ∈ considered blocks last, log.countUpTo block.blockNumber = 0 := by
      by_contra hnone
      refine hall fun block hblock => Nat.pos_of_ne_zero fun hzero => hnone ⟨block, hblock, hzero⟩
    have hzero' : (log.upTo (blocks.getLast?.map (·.blockNumber))).countUpTo block.blockNumber = 0 := by
      have := (countUpTo_upTo_pos_iff log (blocks.getLast?.map (·.blockNumber)) block.blockNumber).1
      omega
    obtain ⟨error, hthrow⟩ := herror ⟨block, hblock, hzero'⟩
    rw [hthrow]
    constructor
    · rintro ⟨-, hanswered⟩
      refine .inr ⟨⟨block, hblock, hzero⟩, fun other hother havailable => ?_⟩
      obtain ⟨datas, hdatas, -⟩ := hanswered other hother havailable
      cases hdatas
    · rintro (⟨hall', -⟩ | ⟨-, hnone⟩)
      · exact absurd hall' hall
      · refine ⟨fun eth1Datas heq => ?_, fun other hother havailable => absurd havailable (hnone other hother)⟩
        cases heq

/-! ## Three deposits in block 1 -/

def threeDeposits : DepositLog plainEth1Values := plainLog [1, 1, 1] (by decide) (by decide) (by decide)

def threeDepositsCache : Eth1DepositsCache := (add plainEth1Values ⟨.empty, none⟩ threeDeposits.events).2

theorem stored_threeDeposits : Stored threeDepositsCache threeDeposits := by
  have hadded : ∃ cache, add plainEth1Values ⟨.empty, none⟩ threeDeposits.events = (.ok (), cache) ∧
      Stored cache threeDeposits := Stored.add_eq Stored.nil (List.nil_append _).symm
  obtain ⟨cache, hadd, hstored⟩ := hadded
  unfold threeDepositsCache
  rw [hadd]
  exact hstored

def eth1Block (blockNumber : Nat) (h : blockNumber ≤ MAX_SAFE_INTEGER) : Eth1Block := ⟨zeroRoot, blockNumber, 0, h⟩

theorem getEth1DataForBlocks_answers_three :
    AnswersFor threeDeposits [eth1Block 1 (by decide), eth1Block 2 (by decide)] (some 2)
        (getEth1DataForBlocks plainEth1Values threeDepositsCache [eth1Block 1 (by decide), eth1Block 2 (by decide)] (some 2)).1 ↔
      Answerable threeDeposits [eth1Block 1 (by decide), eth1Block 2 (by decide)] (some 2) :=
  getEth1DataForBlocks_answers_iff stored_threeDeposits (by decide) (some 2)

/-- Asked for block 1 alone the stream stops at the deposit of index 1, and the data counts two deposits of three. -/
theorem getEth1DataForBlocks_drops_deposit :
    threeDeposits.countUpTo 1 = 3 ∧
      (∃ eth1Data, (getEth1DataForBlocks plainEth1Values threeDepositsCache [eth1Block 1 (by decide)] (some 1)).1 =
        .ok [eth1Data] ∧ eth1Data.blockNumber = 1 ∧ eth1Data.depositCount = 2) ∧
      ¬ AnswersFor threeDeposits [eth1Block 1 (by decide)] (some 1)
        (getEth1DataForBlocks plainEth1Values threeDepositsCache [eth1Block 1 (by decide)] (some 1)).1 := by
  have hstored := (@getEth1DataForBlocks_stored _ _ _ stored_threeDeposits [eth1Block 1 (by decide)] (some 1)).1
  have hlength : (threeDeposits.upTo (some 1)).events.length ≤ threeDeposits.roots.length := by decide
  have hresult := (getEth1DataForBlocks_eq plainEth1Values.depositDataRootListHashTreeRoot
    (List.pairwise_singleton _ (eth1Block 1 (by decide))) (threeDeposits.upTo (some 1)) hlength (some 1)).1 (by decide)
  have hcall := hstored.trans hresult
  rw [hcall]
  refine ⟨by decide, ⟨_, rfl, rfl, by decide⟩, fun h => ?_⟩
  have hcount := (h.1 _ rfl _ List.mem_cons_self).2.1
  exact absurd hcount (by decide)

end Eth1DepositsCache

end Lodestar.Eth1
