import Lodestar.StateTransition.CachedLists
/-!
# CachedListsAgree — the two views of a cached list hold the same values

The tree of a cached list is the tree of the values in its vector, whatever the operations.  An update of a whole list builds
its tree from the packed bytes, with the last chunk filled up; the other operations change both views at one place.
-/
namespace Lodestar.StateTransition

open Lib SszList

variable {subtreeFillToContents : List Node → Nat → Except String Node}

/-! ## What is relied on -/

def VALIDATOR_REGISTRY_LIMIT : Nat := 1099511627776

def FillsTree (subtreeFillToContents : List Node → Nat → Except String Node) : Prop :=
  ∀ nodes depth, nodes.length ≤ 2 ^ depth →
    subtreeFillToContents nodes depth = .ok (MerkleTree.root .branch (.leaf zeroChunk) depth nodes)

/-- The operations of a list type turn the tree of a list into the tree of the changed list. -/
structure FollowsSsz {α : Type} (basic : Basic α) (limit : Nat) (type : BasicListType α) : Prop where
  getChunkDepth_eq : type.getChunkDepth = contentDepth basic limit + 1
  treeSetProperty_eq : ∀ values index value, values.length ≤ limit → index < values.length →
    type.treeSetProperty (listTree basic (contentDepth basic limit) values) index value =
      .ok (listTree basic (contentDepth basic limit) (values.set index value))
  treeSetLength_eq : ∀ left right n, n ≤ limit → type.treeSetLength (.branch left right) n = .ok (.branch left (lengthLeaf n))
  treePush_eq : ∀ values value, values.length < limit →
    type.treePush (listTree basic (contentDepth basic limit) values) value =
      .ok (listTree basic (contentDepth basic limit) (values ++ [value]), values.length + 1)
  treePop_eq : ∀ values, values.length ≤ limit → values ≠ [] → type.treePop (listTree basic (contentDepth basic limit) values) =
    .ok (listTree basic (contentDepth basic limit) values.dropLast)

/-! ## Packed bytes -/

variable {bytes : List UInt8}

theorem chunkAt_full {j : Nat} (h : 32 * j + 32 ≤ bytes.length) :
    chunkAt bytes j = (bytes.drop (32 * j)).take 32 := by
  refine List.ext_getElem (by rw [length_chunkAt, List.length_take, List.length_drop]; omega) fun k hk hk' => ?_
  have hlt : k < 32 := by rwa [length_chunkAt] at hk
  rw [getElem_chunkAt, List.getElem_take, List.getElem_drop, List.getD_eq_getElem _ _ (by omega)]

theorem chunkAt_last {j r : Nat} (h : bytes.length = 32 * j + r) (hr : r < 32) :
    chunkAt bytes j = bytes.drop (32 * j) ++ List.replicate (32 - r) 0 := by
  refine List.ext_getElem (by rw [length_chunkAt, List.length_append, List.length_drop, List.length_replicate]; omega)
    fun k hk hk' => ?_
  rw [getElem_chunkAt]
  by_cases hin : k < r
  · rw [List.getElem_append_left (by rw [List.length_drop]; omega), List.getElem_drop, List.getD_eq_getElem _ _ (by omega)]
  · rw [List.getElem_append_right (by rw [List.length_drop]; omega), List.getElem_replicate, getD_of_le (by omega)]

theorem unsafeUint8ArrayToTree_eq (hfill : FillsTree subtreeFillToContents) {data : List UInt8} {depth : Nat}
    (h : (pack data).length ≤ 2 ^ depth) :
    unsafeUint8ArrayToTree subtreeFillToContents data depth = .ok (chunksTree depth (pack data)) := by
  have hfull : (List.range' 0 ((data.length - 31 + 31) / 32) 32).map (fun i => Node.leaf ((data.drop i).take 32)) =
      ((List.range (data.length / 32)).map (chunkAt data)).map .leaf := by
    have hcount : (data.length - 31 + 31) / 32 = data.length / 32 := by omega
    rw [hcount, List.map_map]
    refine List.ext_getElem (by simp) fun j hj hj' => ?_
    have hlt : j < data.length / 32 := by simpa using hj
    rw [List.getElem_map, List.getElem_map, List.getElem_range', List.getElem_range, Nat.zero_add]
    exact congrArg Node.leaf (chunkAt_full (by omega)).symm
  have hleaves : (if data.length % 32 ≠ 0 then
      ((List.range (data.length / 32)).map (chunkAt data)).map Node.leaf ++
        [.leaf (data.drop (data.length - data.length % 32) ++ List.replicate (32 - data.length % 32) 0)]
      else ((List.range (data.length / 32)).map (chunkAt data)).map .leaf) = (pack data).map .leaf := by
    have hdiv := Nat.div_add_mod data.length 32
    split
    · rename_i hextra
      have hcount : (data.length + 31) / 32 = data.length / 32 + 1 := by omega
      rw [pack, hcount, List.range_succ, List.map_append, List.map_append, List.map_singleton, List.map_singleton,
        chunkAt_last hdiv.symm (Nat.mod_lt _ (by decide)), show data.length - data.length % 32 = 32 * (data.length / 32) by omega]
    · have hcount : (data.length + 31) / 32 = data.length / 32 := by omega
      rw [pack, hcount]
  unfold unsafeUint8ArrayToTree
  dsimp only
  rw [hfull, hleaves, hfill _ _ (by rw [List.length_map]; exact h)]
  rfl

section

variable {α : Type} {basic : Basic α} {type : BasicListType α} {limit : Nat}

theorem updateAll_tree (hfill : FillsTree subtreeFillToContents) (htype : FollowsSsz basic limit type) {values : List α}
    (h : values.length ≤ limit) : (do
      let rootNode ← unsafeUint8ArrayToTree subtreeFillToContents (bytesOf basic values) type.getChunkDepth
      type.treeSetLength rootNode values.length) = Except.ok (listTree basic (contentDepth basic limit) values) := by
  have hfit : (pack (bytesOf basic values)).length ≤ 2 ^ contentDepth basic limit := length_pack_le h
  rw [htype.getChunkDepth_eq, unsafeUint8ArrayToTree_eq hfill (by rw [Nat.pow_succ]; omega), chunksTree_succ_of_le hfit]
  exact htype.treeSetLength_eq _ _ _ h

end

/-! ## Balances -/

namespace CachedBalanceList

def denote (values : List UInt64) : Op → List UInt64
  | .set index value => values.set index value
  | .updateAll balances => balances
  | .push value => values ++ [value]
  | .pop => values.dropLast

def Allowed (values : List UInt64) : Op → Prop
  | .set index _ => index < values.length
  | .updateAll balances => balances.length ≤ VALIDATOR_REGISTRY_LIMIT
  | .push _ => values.length < VALIDATOR_REGISTRY_LIMIT
  | .pop => values ≠ []

instance (values : List UInt64) : DecidablePred (Allowed values)
  | .set index _ => inferInstanceAs (Decidable (index < values.length))
  | .updateAll balances => inferInstanceAs (Decidable (balances.length ≤ VALIDATOR_REGISTRY_LIMIT))
  | .push _ => inferInstanceAs (Decidable (values.length < VALIDATOR_REGISTRY_LIMIT))
  | .pop => inferInstanceAs (Decidable (values ≠ []))

abbrev depth : Nat := contentDepth uint64 VALIDATOR_REGISTRY_LIMIT

structure Holds (values : List UInt64) (list : CachedBalanceList) : Prop where
  persistent : list.persistent = values
  tree : list.tree = listTree uint64 depth values
  limit : values.length ≤ VALIDATOR_REGISTRY_LIMIT

variable {type : BasicListType UInt64}

theorem apply_holds (hfill : FillsTree subtreeFillToContents) (htype : FollowsSsz uint64 VALIDATOR_REGISTRY_LIMIT type)
    (values : List UInt64) (list : CachedBalanceList) (op : Op) (h : Holds values list) (hallowed : Allowed values op) :
    ∃ list', list.apply subtreeFillToContents type op = .ok list' ∧ Holds (denote values op) list' := by
  obtain ⟨hpersistent, htree, hlimit⟩ := h
  cases op with
  | set index value =>
    refine ⟨⟨listTree uint64 depth (values.set index value), values.set index value⟩, ?_, rfl, rfl, ?_⟩
    · dsimp only [apply, set]
      rw [htree, hpersistent, htype.treeSetProperty_eq values index value hlimit hallowed]
      rfl
    · rw [denote, List.length_set]
      exact hlimit
  | updateAll balances =>
    refine ⟨⟨listTree uint64 depth balances, balances⟩, ?_, rfl, rfl, hallowed⟩
    have hlength : balances.length ≤ VALIDATOR_REGISTRY_LIMIT := hallowed
    obtain ⟨rootNode, hroot, hset⟩ := bind_eq_ok.1 (updateAll_tree hfill htype hlength)
    exact bind_eq_ok.2 ⟨rootNode, hroot, bind_eq_ok.2 ⟨_, hset, rfl⟩⟩
  | push value =>
    refine ⟨⟨listTree uint64 depth (values ++ [value]), values ++ [value]⟩, ?_, rfl, rfl, ?_⟩
    · dsimp only [apply, push]
      rw [htree, hpersistent, htype.treePush_eq values value hallowed]
      rfl
    · rw [denote, List.length_append, List.length_singleton]
      exact hallowed
  | pop =>
    refine ⟨⟨listTree uint64 depth values.dropLast, values.dropLast⟩, ?_, rfl, rfl, ?_⟩
    · dsimp only [apply, pop]
      rw [htree, hpersistent, htype.treePop_eq values hlimit hallowed]
      rfl
    · rw [denote, List.length_dropLast]
      omega

end CachedBalanceList

/-! ## Participation -/

theorem toParticipationFlags_from {flags : UInt8} (h : flags < 8) : toParticipationFlags (fromParticipationFlags flags) = flags := by
  have hall : ∀ n < 8, toParticipationFlags (fromParticipationFlags (UInt8.ofNat n)) = UInt8.ofNat n := by decide
  have hlt : flags.toNat < 8 := UInt8.lt_iff_toNat_lt.1 h
  have heq := hall flags.toNat hlt
  rwa [UInt8.ofNat_toNat] at heq

namespace CachedEpochParticipation

def denote (values : List ParticipationStatus) : Op → List ParticipationStatus
  | .set index value => values.set index (fromParticipationFlags value)
  | .setStatus index data => values.set index data
  | .updateAllStatus data => data
  | .push value => values ++ [fromParticipationFlags value]
  | .pushStatus data => values ++ [data]
  | .pop => values.dropLast

def Allowed (values : List ParticipationStatus) : Op → Prop
  | .set index value => index < values.length ∧ value < 8
  | .setStatus index _ => index < values.length
  | .updateAllStatus data => data.length ≤ VALIDATOR_REGISTRY_LIMIT
  | .push value => values.length < VALIDATOR_REGISTRY_LIMIT ∧ value < 8
  | .pushStatus _ => values.length < VALIDATOR_REGISTRY_LIMIT
  | .pop => values ≠ []

instance (values : List ParticipationStatus) : DecidablePred (Allowed values)
  | .set index value => inferInstanceAs (Decidable (index < values.length ∧ value < 8))
  | .setStatus index _ => inferInstanceAs (Decidable (index < values.length))
  | .updateAllStatus data => inferInstanceAs (Decidable (data.length ≤ VALIDATOR_REGISTRY_LIMIT))
  | .push value => inferInstanceAs (Decidable (values.length < VALIDATOR_REGISTRY_LIMIT ∧ value < 8))
  | .pushStatus _ => inferInstanceAs (Decidable (values.length < VALIDATOR_REGISTRY_LIMIT))
  | .pop => inferInstanceAs (Decidable (values ≠ []))

abbrev depth : Nat := contentDepth uint8 VALIDATOR_REGISTRY_LIMIT

structure Holds (values : List ParticipationStatus) (list : CachedEpochParticipation) : Prop where
  persistent : list.persistent = values
  tree : list.tree = some (listTree uint8 depth (values.map toParticipationFlags))
  limit : values.length ≤ VALIDATOR_REGISTRY_LIMIT

variable {type : BasicListType UInt8}

variable {values : List ParticipationStatus} {list : CachedEpochParticipation} {index : Nat}

section

variable (htype : FollowsSsz uint8 VALIDATOR_REGISTRY_LIMIT type) (h : Holds values list)
include htype h

theorem setStatus_holds (hindex : index < values.length) (data : ParticipationStatus) :
    ∃ list', list.setStatus type index data = .ok list' ∧ Holds (values.set index data) list' := by
  obtain ⟨hpersistent, htree, hlimit⟩ := h
  refine ⟨⟨some (listTree uint8 depth ((values.set index data).map toParticipationFlags)), values.set index data⟩, ?_, rfl, rfl, ?_⟩
  · unfold setStatus whenTree
    rw [htree, hpersistent]
    dsimp only
    rw [htype.treeSetProperty_eq _ _ _ (by rwa [List.length_map]) (by rwa [List.length_map]), List.map_set]
    rfl
  · rw [List.length_set]
    exact hlimit

theorem pushStatus_holds (hroom : values.length < VALIDATOR_REGISTRY_LIMIT) (data : ParticipationStatus) :
    ∃ list', list.pushStatus type data = .ok list' ∧ Holds (values ++ [data]) list' := by
  obtain ⟨hpersistent, htree, -⟩ := h
  refine ⟨⟨some (listTree uint8 depth ((values ++ [data]).map toParticipationFlags)), values ++ [data]⟩, ?_, rfl, rfl, ?_⟩
  · unfold pushStatus whenTree
    rw [htree, hpersistent]
    dsimp only
    rw [htype.treePush_eq _ _ (by rwa [List.length_map]), List.map_append, List.map_singleton]
    rfl
  · rw [List.length_append, List.length_singleton]
    exact hroom

end

theorem set_eq {value : UInt8} (h : value < 8) :
    list.set type index value = list.setStatus type index (fromParticipationFlags value) := by
  unfold set setStatus
  rw [toParticipationFlags_from h]

theorem apply_holds (hfill : FillsTree subtreeFillToContents) (htype : FollowsSsz uint8 VALIDATOR_REGISTRY_LIMIT type)
    (values : List ParticipationStatus) (list : CachedEpochParticipation) (op : Op) (h : Holds values list)
    (hallowed : Allowed values op) :
    ∃ list', list.apply subtreeFillToContents type op = .ok list' ∧ Holds (denote values op) list' := by
  cases op with
  | set index value =>
    dsimp only [apply]
    rw [set_eq hallowed.2]
    exact setStatus_holds htype h hallowed.1 _
  | setStatus index data => exact setStatus_holds htype h hallowed data
  | updateAllStatus data =>
    obtain ⟨-, htree, -⟩ := h
    refine ⟨⟨some (listTree uint8 depth (data.map toParticipationFlags)), data⟩, ?_, rfl, rfl, hallowed⟩
    have hlength : (data.map toParticipationFlags).length ≤ VALIDATOR_REGISTRY_LIMIT := by
      rw [List.length_map]
      exact hallowed
    have hwritten := updateAll_tree hfill htype hlength
    have hbytes : bytesOf uint8 (data.map toParticipationFlags) = data.map toParticipationFlags := List.flatMap_singleton' _
    rw [hbytes, List.length_map] at hwritten
    dsimp only [apply, updateAllStatus, whenTree]
    rw [htree]
    rw [hwritten]
    rfl
  | push value =>
    obtain ⟨list', hpush, hholds⟩ := pushStatus_holds htype h hallowed.1 (fromParticipationFlags value)
    refine ⟨list', ?_, hholds⟩
    dsimp only [apply, push]
    rw [hpush]
    rfl
  | pushStatus data => exact pushStatus_holds htype h hallowed data
  | pop =>
    obtain ⟨hpersistent, htree, hlimit⟩ := h
    refine ⟨⟨some (listTree uint8 depth (values.dropLast.map toParticipationFlags)), values.dropLast⟩, ?_, rfl, rfl, ?_⟩
    · dsimp only [apply, pop, whenTree]
      rw [htree, hpersistent]
      dsimp only
      rw [htype.treePop_eq _ (by rwa [List.length_map])
        fun hnil => hallowed (List.map_eq_nil_iff.1 hnil), List.map_dropLast]
      rfl
    · rw [denote, List.length_dropLast]
      omega

end CachedEpochParticipation

/-! ## Runs -/

theorem decode_tree {α : Type} {basic : Basic α} {values : List α} (h : values.length ≤ VALIDATOR_REGISTRY_LIMIT) :
    decode basic (contentDepth basic VALIDATOR_REGISTRY_LIMIT) (listTree basic (contentDepth basic VALIDATOR_REGISTRY_LIMIT) values) =
      values :=
  decode_listTree (by decide) h

/-- **After any operations the tree holds the values of the vector, and is the tree of these values**; the tree that is built of
bytes is that of their packed chunks. -/
theorem cachedLists_agree (hfill : FillsTree subtreeFillToContents) {balancesType : BasicListType UInt64}
    (hbalances : FollowsSsz uint64 VALIDATOR_REGISTRY_LIMIT balancesType) {participationType : BasicListType UInt8}
    (hparticipation : FollowsSsz uint8 VALIDATOR_REGISTRY_LIMIT participationType) :
    (∀ (values : List UInt64) (list : CachedBalanceList) (ops : List CachedBalanceList.Op),
      CachedBalanceList.Holds values list → Along CachedBalanceList.Allowed CachedBalanceList.denote values ops →
        ∃ list', ops.foldlM (CachedBalanceList.apply subtreeFillToContents balancesType) list = .ok list' ∧
          CachedBalanceList.Holds (ops.foldl CachedBalanceList.denote values) list' ∧
          decode uint64 CachedBalanceList.depth list'.tree = list'.persistent) ∧
    (∀ (values : List ParticipationStatus) (list : CachedEpochParticipation) (ops : List CachedEpochParticipation.Op),
      CachedEpochParticipation.Holds values list → Along CachedEpochParticipation.Allowed CachedEpochParticipation.denote values ops →
        ∃ list', ops.foldlM (CachedEpochParticipation.apply subtreeFillToContents participationType) list = .ok list' ∧
          CachedEpochParticipation.Holds (ops.foldl CachedEpochParticipation.denote values) list' ∧
          list'.tree.map (decode uint8 CachedEpochParticipation.depth) = some (list'.persistent.map toParticipationFlags)) ∧
    ∀ (data : List UInt8) (depth : Nat), (pack data).length ≤ 2 ^ depth →
      unsafeUint8ArrayToTree subtreeFillToContents data depth = .ok (chunksTree depth (pack data)) := by
  refine ⟨fun values list ops h hallowed => ?_, fun values list ops h hallowed => ?_,
    fun data depth hfit => unsafeUint8ArrayToTree_eq hfill hfit⟩
  · obtain ⟨list', hrun, hholds⟩ :=
      foldlM_refines (CachedBalanceList.apply_holds hfill hbalances) ops values list h hallowed
    refine ⟨list', hrun, hholds, ?_⟩
    rw [hholds.tree, hholds.persistent]
    exact decode_tree hholds.limit
  · obtain ⟨list', hrun, hholds⟩ :=
      foldlM_refines (CachedEpochParticipation.apply_holds hfill hparticipation) ops values list h hallowed
    refine ⟨list', hrun, hholds, ?_⟩
    rw [hholds.tree, hholds.persistent, Option.map_some, decode_tree (by rw [List.length_map]; exact hholds.limit)]

def rebuiltType {α : Type} (basic : Basic α) (limit : Nat) : BasicListType α where
  getChunkDepth := contentDepth basic limit + 1
  treeSetProperty tree index value :=
    .ok (listTree basic (contentDepth basic limit) ((decode basic (contentDepth basic limit) tree).set index value))
  treeSetLength
    | .branch left _, n => .ok (.branch left (lengthLeaf n))
    | .leaf _, _ => .error "ERR_NAVIGATION"
  treePush tree value :=
    let values := decode basic (contentDepth basic limit) tree
    .ok (listTree basic (contentDepth basic limit) (values ++ [value]), values.length + 1)
  treePop tree := .ok (listTree basic (contentDepth basic limit) (decode basic (contentDepth basic limit) tree).dropLast)

theorem rebuiltType_followsSsz {α : Type} (basic : Basic α) :
    FollowsSsz basic VALIDATOR_REGISTRY_LIMIT (rebuiltType basic VALIDATOR_REGISTRY_LIMIT) where
  getChunkDepth_eq := rfl
  treeSetProperty_eq values index value hlimit _ := by
    dsimp only [rebuiltType]
    rw [decode_tree hlimit]
  treeSetLength_eq _ _ _ _ := rfl
  treePush_eq values value hroom := by
    dsimp only [rebuiltType]
    rw [decode_tree (Nat.le_of_lt hroom)]
  treePop_eq values hlimit _ := by
    dsimp only [rebuiltType]
    rw [decode_tree hlimit]

def fillTree (nodes : List Node) (depth : Nat) : Except String Node :=
  if nodes.length ≤ 2 ^ depth then .ok (MerkleTree.root .branch (.leaf zeroChunk) depth nodes) else .error "ERR_TOO_MANY_NODES"

theorem cachedLists_agree_rebuilt :
    (∃ list', [CachedBalanceList.Op.push 7, .updateAll [1, 2, 3, 4, 5], .set 4 9, .pop].foldlM
        (CachedBalanceList.apply fillTree (rebuiltType uint64 VALIDATOR_REGISTRY_LIMIT))
        ⟨listTree uint64 CachedBalanceList.depth [], []⟩ = .ok list' ∧
      CachedBalanceList.Holds [1, 2, 3, 4] list' ∧ decode uint64 CachedBalanceList.depth list'.tree = list'.persistent) ∧
    (∃ list', [CachedEpochParticipation.Op.push 5, .updateAllStatus [], .pushStatus ⟨true, false, true⟩, .set 0 3].foldlM
        (CachedEpochParticipation.apply fillTree (rebuiltType uint8 VALIDATOR_REGISTRY_LIMIT))
        ⟨some (listTree uint8 CachedEpochParticipation.depth []), []⟩ = .ok list' ∧
      CachedEpochParticipation.Holds [⟨false, true, true⟩] list' ∧
      list'.tree.map (decode uint8 CachedEpochParticipation.depth) = some (list'.persistent.map toParticipationFlags)) ∧
    unsafeUint8ArrayToTree fillTree [1, 2, 3] 1 =
      .ok (.branch (.leaf ([1, 2, 3] ++ List.replicate 29 0)) (.leaf zeroChunk)) := by
  have hfill : FillsTree fillTree := fun nodes depth h => if_pos h
  obtain ⟨hbalances, hparticipation, hbytes⟩ :=
    cachedLists_agree hfill (rebuiltType_followsSsz uint64) (rebuiltType_followsSsz uint8)
  refine ⟨?_, ?_, hbytes [1, 2, 3] 1 (by decide)⟩
  · exact hbalances [] _ _ ⟨rfl, rfl, by decide⟩ ⟨by decide, by decide, by decide, by decide, trivial⟩
  · exact hparticipation [] _ _ ⟨rfl, rfl, by decide⟩
      ⟨by decide, by decide, by decide, by decide, trivial⟩

end Lodestar.StateTransition
