import Lodestar.Lib.GroupedSets
import Lodestar.ForkChoice.BlockSummaries
import Lodestar.StateTransition.State
/-!
# BlockPool — blocks that are pending processing, and the ancestor they wait for

Pending blocks come in two varieties: blocks with unknown parents are listed by their parent, blocks with future slots by their
slot, and a block can be both.  `Indexed` says that the two lists are of the pooled blocks, under what the blocks say, and that
every pooled block is in one of them; every call keeps it where the roots of blocks are collision free.
-/
namespace Lodestar

open Lib GroupedSets Climb StateTransition

structure BlockMeta where
  parentRoot : HexRoot
  slot : Nat
deriving DecidableEq

structure BlockPool where
  blocks : OrderedMap HexRoot BlockMeta
  blocksByParent : GroupedSets HexRoot HexRoot
  blocksBySlot : GroupedSets Nat HexRoot

namespace BlockPool

-- the types of the fork of a block's slot give its root
variable (codec : HexCodec) (hashTreeRoot : BeaconBlock → Root)

def empty : BlockPool := ⟨.empty, .empty, .empty⟩

section

variable (signedBlock : StateTransition.SignedBeaconBlock)

def getBlockKey : HexRoot := codec.toHexRoot (hashTreeRoot signedBlock.message)

def getParentKey : HexRoot := codec.toHexRoot signedBlock.message.parentRoot

def getSlotKey : Nat := signedBlock.message.slot

def metaOf : BlockMeta where
  parentRoot := codec.toHexRoot signedBlock.message.parentRoot
  slot := signedBlock.message.slot

end

section

variable (pool : BlockPool) (signedBlock : StateTransition.SignedBeaconBlock)

def addByParent : BlockPool :=
  let blockKey := getBlockKey codec hashTreeRoot signedBlock
  { pool with
    blocks := pool.blocks.set blockKey (metaOf codec signedBlock)
    blocksByParent := GroupedSets.insert pool.blocksByParent (getParentKey codec signedBlock) blockKey }

def addBySlot : BlockPool :=
  let blockKey := getBlockKey codec hashTreeRoot signedBlock
  { pool with
    blocks := pool.blocks.set blockKey (metaOf codec signedBlock)
    blocksBySlot := GroupedSets.insert pool.blocksBySlot (getSlotKey signedBlock) blockKey }

def remove : BlockPool :=
  let blockKey := getBlockKey codec hashTreeRoot signedBlock
  { blocks := pool.blocks.delete blockKey
    blocksBySlot := GroupedSets.discard pool.blocksBySlot (getSlotKey signedBlock) blockKey
    blocksByParent := GroupedSets.discard pool.blocksByParent (getParentKey codec signedBlock) blockKey }

end

def parentOf (pool : BlockPool) (root : HexRoot) : Option HexRoot := (pool.blocks.get? root).map (·.parentRoot)

/-- The loop runs while the root is of a pooled block. -/
def getMissingAncestor (pool : BlockPool) (fuel : Nat) (blockRoot : Root) : Option Root :=
  (climb pool.parentOf fuel (codec.toHexRoot blockRoot)).map codec.ofHexRoot

def has (pool : BlockPool) (blockRoot : Root) : Bool := pool.blocks.has (codec.toHexRoot blockRoot)

inductive Call
  | addByParent (signedBlock : StateTransition.SignedBeaconBlock)
  | addBySlot (signedBlock : StateTransition.SignedBeaconBlock)
  | remove (signedBlock : StateTransition.SignedBeaconBlock)

def Call.message : Call → BeaconBlock
  | .addByParent signedBlock => signedBlock.message
  | .addBySlot signedBlock => signedBlock.message
  | .remove signedBlock => signedBlock.message

def Call.run (pool : BlockPool) : Call → BlockPool
  | .addByParent signedBlock => pool.addByParent codec hashTreeRoot signedBlock
  | .addBySlot signedBlock => pool.addBySlot codec hashTreeRoot signedBlock
  | .remove signedBlock => pool.remove codec hashTreeRoot signedBlock

def runCalls (calls : List Call) : BlockPool := calls.foldl (Call.run codec hashTreeRoot) empty

/-! ## The indices -/

/-- What the indices list is pooled, and everything pooled is listed. -/
structure Indexed (pool : BlockPool) : Prop where
  byParent : ∀ parent root, Holds pool.blocksByParent parent root → ∃ block, pool.blocks.get? root = some block ∧ block.parentRoot = parent
  bySlot : ∀ slot root, Holds pool.blocksBySlot slot root → ∃ block, pool.blocks.get? root = some block ∧ block.slot = slot
  listed : ∀ root, pool.blocks.has root = true →
    (∃ parent, Holds pool.blocksByParent parent root) ∨ ∃ slot, Holds pool.blocksBySlot slot root
  noEmptyParent : NoEmpty pool.blocksByParent
  noEmptySlot : NoEmpty pool.blocksBySlot

/-- Two of these blocks with one root are one block. -/
def CollisionFree (hashTreeRoot : BeaconBlock → Root) (blocks : List BeaconBlock) : Prop :=
  ∀ b ∈ blocks, ∀ b' ∈ blocks, hashTreeRoot b = hashTreeRoot b' → b = b'

def ParentRoot (hashTreeRoot : BeaconBlock → Root) (blocks : List BeaconBlock) (root parent : Root) : Prop :=
  ∃ b ∈ blocks, hashTreeRoot b = root ∧ b.parentRoot = parent

variable {codec hashTreeRoot} {pool : BlockPool} {blocks : List BeaconBlock}

def About (codec : HexCodec) (hashTreeRoot : BeaconBlock → Root) (blocks : List BeaconBlock) (pool : BlockPool) : Prop :=
  ∀ root block, pool.blocks.get? root = some block → ∃ b ∈ blocks, codec.toHexRoot (hashTreeRoot b) = root ∧
    block = ⟨codec.toHexRoot b.parentRoot, b.slot⟩

theorem toHexString_inj {root root' : Root} (h : codec.toHexRoot root = codec.toHexRoot root') : root = root' := by
  rw [← codec.ofHexRoot_toHexRoot root, h, codec.ofHexRoot_toHexRoot]

variable {signedBlock : StateTransition.SignedBeaconBlock} {block : BlockMeta}

theorem About.eq_of_key (h : About codec hashTreeRoot blocks pool) (hcollision : CollisionFree hashTreeRoot blocks)
    (hmem : signedBlock.message ∈ blocks) (hget : pool.blocks.get? (getBlockKey codec hashTreeRoot signedBlock) = some block) :
    block = metaOf codec signedBlock := by
  obtain ⟨b, hb, hkey, rfl⟩ := h _ _ hget
  rw [hcollision b hb _ hmem (toHexString_inj hkey)]
  rfl

variable {root : HexRoot}

theorem About.set (h : About codec hashTreeRoot blocks pool) (hmem : signedBlock.message ∈ blocks)
    (hget : (pool.blocks.set (getBlockKey codec hashTreeRoot signedBlock) (metaOf codec signedBlock)).get? root = some block) :
    ∃ b ∈ blocks, codec.toHexRoot (hashTreeRoot b) = root ∧ block = ⟨codec.toHexRoot b.parentRoot, b.slot⟩ := by
  rw [OrderedMap.get?_set] at hget
  split at hget
  · rename_i hkey
    cases hget
    exact ⟨_, hmem, hkey.symm, rfl⟩
  · exact h root block hget

theorem About.get?_set (h : About codec hashTreeRoot blocks pool) (hcollision : CollisionFree hashTreeRoot blocks)
    (hmem : signedBlock.message ∈ blocks) (hget : pool.blocks.get? root = some block) :
    (pool.blocks.set (getBlockKey codec hashTreeRoot signedBlock) (metaOf codec signedBlock)).get? root = some block := by
  rw [OrderedMap.get?_set]
  split
  · rename_i hkey
    have hsame : block = metaOf codec signedBlock := h.eq_of_key hcollision hmem (hkey ▸ hget)
    rw [hsame]
  · exact hget

theorem has_set {value : BlockMeta} (h : (pool.blocks.set (getBlockKey codec hashTreeRoot signedBlock) value).has root = true) :
    root = getBlockKey codec hashTreeRoot signedBlock ∨ pool.blocks.has root = true := by
  rw [OrderedMap.has, OrderedMap.get?_set] at h
  split at h
  · rename_i hkey
    exact .inl hkey
  · exact .inr h

theorem Indexed.addByParent (h : pool.Indexed) (habout : About codec hashTreeRoot blocks pool)
    (hcollision : CollisionFree hashTreeRoot blocks) (hmem : signedBlock.message ∈ blocks) :
    (pool.addByParent codec hashTreeRoot signedBlock).Indexed where
  byParent parent root hholds := by
    rcases holds_insert.1 hholds with hold | ⟨rfl, rfl⟩
    · obtain ⟨block, hget, hparent⟩ := h.byParent parent root hold
      exact ⟨block, habout.get?_set hcollision hmem hget, hparent⟩
    · exact ⟨_, (OrderedMap.get?_set _ _ _ _).trans (if_pos rfl), rfl⟩
  bySlot slot root hholds := by
    obtain ⟨block, hget, hslot⟩ := h.bySlot slot root hholds
    exact ⟨block, habout.get?_set hcollision hmem hget, hslot⟩
  listed root hhas := by
    rcases has_set hhas with rfl | hold
    · exact .inl ⟨_, holds_insert.2 (.inr ⟨rfl, rfl⟩)⟩
    · exact (h.listed root hold).imp_left fun ⟨parent, hholds⟩ => ⟨parent, holds_insert.2 (.inl hholds)⟩
  noEmptyParent := h.noEmptyParent.insert
  noEmptySlot := h.noEmptySlot

theorem Indexed.addBySlot (h : pool.Indexed) (habout : About codec hashTreeRoot blocks pool)
    (hcollision : CollisionFree hashTreeRoot blocks) (hmem : signedBlock.message ∈ blocks) :
    (pool.addBySlot codec hashTreeRoot signedBlock).Indexed where
  byParent parent root hholds := by
    obtain ⟨block, hget, hparent⟩ := h.byParent parent root hholds
    exact ⟨block, habout.get?_set hcollision hmem hget, hparent⟩
  bySlot slot root hholds := by
    rcases holds_insert.1 hholds with hold | ⟨rfl, rfl⟩
    · obtain ⟨block, hget, hslot⟩ := h.bySlot slot root hold
      exact ⟨block, habout.get?_set hcollision hmem hget, hslot⟩
    · exact ⟨_, (OrderedMap.get?_set _ _ _ _).trans (if_pos rfl), rfl⟩
  listed root hhas := by
    rcases has_set hhas with rfl | hold
    · exact .inr ⟨_, holds_insert.2 (.inr ⟨rfl, rfl⟩)⟩
    · exact (h.listed root hold).imp_right fun ⟨slot, hholds⟩ => ⟨slot, holds_insert.2 (.inl hholds)⟩
  noEmptyParent := h.noEmptyParent
  noEmptySlot := h.noEmptySlot.insert

theorem Indexed.remove (h : pool.Indexed) (habout : About codec hashTreeRoot blocks pool)
    (hcollision : CollisionFree hashTreeRoot blocks) (hmem : signedBlock.message ∈ blocks) :
    (pool.remove codec hashTreeRoot signedBlock).Indexed where
  byParent parent root hholds := by
    obtain ⟨hold, hnot⟩ := holds_discard.1 hholds
    obtain ⟨block, hget, hparent⟩ := h.byParent parent root hold
    refine ⟨block, ?_, hparent⟩
    refine (OrderedMap.get?_delete _ _ _).trans ((if_neg fun hkey => hnot ⟨?_, hkey⟩).trans hget)
    have hsame : block = metaOf codec signedBlock := habout.eq_of_key hcollision hmem (hkey ▸ hget)
    rw [← hparent, hsame]
    rfl
  bySlot slot root hholds := by
    obtain ⟨hold, hnot⟩ := holds_discard.1 hholds
    obtain ⟨block, hget, hslot⟩ := h.bySlot slot root hold
    refine ⟨block, ?_, hslot⟩
    refine (OrderedMap.get?_delete _ _ _).trans ((if_neg fun hkey => hnot ⟨?_, hkey⟩).trans hget)
    have hsame : block = metaOf codec signedBlock := habout.eq_of_key hcollision hmem (hkey ▸ hget)
    rw [← hslot, hsame]
    rfl
  listed root hhas := by
    have hread : (pool.blocks.delete (getBlockKey codec hashTreeRoot signedBlock)).has root = true := hhas
    rw [OrderedMap.has, OrderedMap.get?_delete] at hread
    split at hread
    · cases hread
    · rename_i hkey
      exact (h.listed root hread).imp (Exists.imp fun parent hholds => holds_discard.2 ⟨hholds, fun heq => hkey heq.2⟩)
        (Exists.imp fun slot hholds => holds_discard.2 ⟨hholds, fun heq => hkey heq.2⟩)
  noEmptyParent := h.noEmptyParent.discard
  noEmptySlot := h.noEmptySlot.discard

theorem indexed_empty : empty.Indexed where
  byParent _ _ hholds := absurd hholds not_holds_empty
  bySlot _ _ hholds := absurd hholds not_holds_empty
  listed _ hhas := absurd hhas Bool.false_ne_true
  noEmptyParent := noEmpty_empty
  noEmptySlot := noEmpty_empty

theorem Call.run_keeps (hcollision : CollisionFree hashTreeRoot blocks) {call : Call} (hmem : call.message ∈ blocks)
    (h : pool.Indexed ∧ About codec hashTreeRoot blocks pool) :
    (call.run codec hashTreeRoot pool).Indexed ∧ About codec hashTreeRoot blocks (call.run codec hashTreeRoot pool) := by
  cases call with
  | addByParent signedBlock => exact ⟨h.1.addByParent h.2 hcollision hmem, fun _ _ hget => h.2.set hmem hget⟩
  | addBySlot signedBlock => exact ⟨h.1.addBySlot h.2 hcollision hmem, fun _ _ hget => h.2.set hmem hget⟩
  | remove signedBlock =>
    refine ⟨h.1.remove h.2 hcollision hmem, fun root block hget => ?_⟩
    have hread : (pool.blocks.delete (getBlockKey codec hashTreeRoot signedBlock)).get? root = some block := hget
    rw [OrderedMap.get?_delete] at hread
    split at hread
    · cases hread
    · exact h.2 root block hread

/-! ## The missing ancestor -/

inductive FirstMissing (codec : HexCodec) (hashTreeRoot : BeaconBlock → Root) (blocks : List BeaconBlock) (pool : BlockPool) :
    Root → Root → Prop
  | here {root : Root} (h : pool.has codec root = false) : FirstMissing codec hashTreeRoot blocks pool root root
  | up {b : BeaconBlock} {missing : Root} (hmem : b ∈ blocks) (h : pool.has codec (hashTreeRoot b) = true)
      (hrest : FirstMissing codec hashTreeRoot blocks pool b.parentRoot missing) :
      FirstMissing codec hashTreeRoot blocks pool (hashTreeRoot b) missing

variable {root parent text text' : HexRoot}

theorem About.parentOf (h : About codec hashTreeRoot blocks pool) (hparent : pool.parentOf root = some parent) :
    ∃ b ∈ blocks, codec.toHexRoot (hashTreeRoot b) = root ∧ codec.toHexRoot b.parentRoot = parent := by
  obtain ⟨block, hget, rfl⟩ := Option.map_eq_some_iff.1 hparent
  obtain ⟨b, hb, hkey, rfl⟩ := h root block hget
  exact ⟨b, hb, hkey, rfl⟩

section

variable (h : About codec hashTreeRoot blocks pool)
include h

theorem About.transGen (hchain : Relation.TransGen (Parent pool.parentOf) root parent) :
    ∃ r p, codec.toHexRoot r = root ∧ codec.toHexRoot p = parent ∧ Relation.TransGen (ParentRoot hashTreeRoot blocks) r p := by
  induction hchain with
  | single hstep =>
    obtain ⟨b, hb, hkey, hparent⟩ := h.parentOf hstep
    exact ⟨_, _, hkey, hparent, .single ⟨b, hb, rfl, rfl⟩⟩
  | tail _ hstep ih =>
    obtain ⟨r, p, hr, hp, hbefore⟩ := ih
    obtain ⟨b, hb, hkey, hparent⟩ := h.parentOf hstep
    exact ⟨r, _, hr, hparent, hbefore.tail ⟨b, hb, toHexString_inj (hkey.trans hp.symm), rfl⟩⟩

theorem About.acyclic (hacyclic : ∀ root, ¬ Relation.TransGen (ParentRoot hashTreeRoot blocks) root root) (root : HexRoot) :
    ¬ Relation.TransGen (Parent pool.parentOf) root root := fun hcycle => by
  obtain ⟨r, p, hr, hp, hchain⟩ := h.transGen hcycle
  obtain rfl : r = p := toHexString_inj (hr.trans hp.symm)
  exact hacyclic r hchain

theorem About.firstMissing (hleads : Leads pool.parentOf text text') :
    ∀ root, codec.toHexRoot root = text → ∃ missing, codec.toHexRoot missing = text' ∧
      FirstMissing codec hashTreeRoot blocks pool root missing := by
  induction hleads with
  | here hnone =>
    rintro root rfl
    refine ⟨root, rfl, .here ?_⟩
    unfold BlockPool.has OrderedMap.has
    rw [Option.map_eq_none_iff.1 hnone]
    rfl
  | up hparent _ ih =>
    rintro root rfl
    obtain ⟨b, hb, hkey, hb'⟩ := h.parentOf hparent
    obtain ⟨missing, hmissing, hrest⟩ := ih b.parentRoot hb'
    obtain rfl := toHexString_inj hkey
    refine ⟨missing, hmissing, .up hb ?_ hrest⟩
    unfold BlockPool.has OrderedMap.has
    obtain ⟨block, hget, -⟩ := Option.map_eq_some_iff.1 hparent
    rw [hget]
    rfl

end

theorem About.getMissingAncestor (h : About codec hashTreeRoot blocks pool)
    (hacyclic : ∀ root, ¬ Relation.TransGen (ParentRoot hashTreeRoot blocks) root root) {fuel : Nat}
    (hfuel : pool.blocks.size < fuel) (root : Root) :
    ∃ missing, pool.getMissingAncestor codec fuel root = some missing ∧ FirstMissing codec hashTreeRoot blocks pool root missing := by
  have hnodes : ∀ key, (pool.parentOf key).isSome → key ∈ pool.blocks.entries.map (·.1) := by
    intro key hsome
    rw [← OrderedMap.has_iff]
    rw [BlockPool.parentOf, Option.isSome_map] at hsome
    exact hsome
  obtain ⟨text, hclimb, hleads⟩ := climb_of_reachable (h.acyclic hacyclic) (by rw [List.length_map]; exact hfuel)
    (a := codec.toHexRoot root) fun b _ => hnodes b
  obtain ⟨missing, rfl, hmissing⟩ := h.firstMissing hleads root rfl
  refine ⟨missing, ?_, hmissing⟩
  unfold BlockPool.getMissingAncestor
  rw [hclimb, Option.map_some, codec.ofHexRoot_toHexRoot]

/-- **After any calls the indices are right and the walk ends at the first missing ancestor.** -/
theorem runCalls_right (codec : HexCodec) (hashTreeRoot : BeaconBlock → Root) (calls : List Call)
    (hcollision : CollisionFree hashTreeRoot (calls.map Call.message))
    (hacyclic : ∀ root, ¬ Relation.TransGen (ParentRoot hashTreeRoot (calls.map Call.message)) root root) :
    (runCalls codec hashTreeRoot calls).Indexed ∧ ∀ (root : Root) (fuel : Nat), (runCalls codec hashTreeRoot calls).blocks.size < fuel →
      ∃ missing, (runCalls codec hashTreeRoot calls).getMissingAncestor codec fuel root = some missing ∧
        FirstMissing codec hashTreeRoot (calls.map Call.message) (runCalls codec hashTreeRoot calls) root missing := by
  have hempty : About codec hashTreeRoot (calls.map Call.message) empty := fun _ _ hget => by cases hget
  obtain ⟨hindexed, habout⟩ := List.foldlRecOn (motive := fun pool => pool.Indexed ∧ About codec hashTreeRoot _ pool) calls
    (Call.run codec hashTreeRoot) ⟨indexed_empty, hempty⟩ fun pool h call hcall =>
      Call.run_keeps hcollision (List.mem_map_of_mem hcall) h
  exact ⟨hindexed, fun root fuel hfuel => habout.getMissingAncestor hacyclic hfuel root⟩

theorem acyclic_of_rank (rank : Root → Nat) (h : ∀ b ∈ blocks, rank b.parentRoot < rank (hashTreeRoot b)) (root : Root) :
    ¬ Relation.TransGen (ParentRoot hashTreeRoot blocks) root root := by
  have hlt : ∀ {r p : Root}, Relation.TransGen (ParentRoot hashTreeRoot blocks) r p → rank p < rank r := by
    intro r p hchain
    induction hchain with
    | single hstep =>
      obtain ⟨b, hb, rfl, rfl⟩ := hstep
      exact h b hb
    | tail _ hstep ih =>
      obtain ⟨b, hb, rfl, rfl⟩ := hstep
      exact Nat.lt_trans (h b hb) ih
  exact fun hcycle => Nat.lt_irrefl _ (hlt hcycle)

def plainBlock (slot : Nat) (parentRoot : Root) : StateTransition.SignedBeaconBlock where
  message :=
    { slot, proposerIndex := 0, parentRoot, stateRoot := zeroRoot
      body :=
        { randaoReveal := Vector.replicate 96 0, eth1Data := ⟨zeroRoot, 0, zeroRoot⟩, graffiti := zeroRoot
          proposerSlashings := [], attesterSlashings := [], attestations := [], deposits := [], voluntaryExits := []
          syncAggregate := ⟨[], Vector.replicate 96 0⟩ } }
  signature := Vector.replicate 96 0

def slotRoot (block : BeaconBlock) : Root := Vector.replicate 32 (UInt8.ofNat (block.slot + 1))

/-- The first block waits for its slot and the second for its parent. -/
def parentAndChild : List Call := [.addBySlot (plainBlock 0 zeroRoot), .addByParent (plainBlock 1 (Vector.replicate 32 1))]

theorem parentAndChild_right :
    (runCalls hexCodec slotRoot parentAndChild).Indexed ∧ ∀ (root : Root) (fuel : Nat),
      (runCalls hexCodec slotRoot parentAndChild).blocks.size < fuel →
      ∃ missing, (runCalls hexCodec slotRoot parentAndChild).getMissingAncestor hexCodec fuel root = some missing ∧
        FirstMissing hexCodec slotRoot (parentAndChild.map Call.message) (runCalls hexCodec slotRoot parentAndChild) root missing := by
  refine runCalls_right hexCodec slotRoot parentAndChild ?_ (acyclic_of_rank (fun root => root[0].toNat) ?_)
  · intro b hb b' hb' hroot
    have hslot : UInt8.ofNat (b.slot + 1) = UInt8.ofNat (b'.slot + 1) := congrArg (fun root : Root => root[0]) hroot
    rcases List.mem_cons.1 hb with rfl | hb <;> rcases List.mem_cons.1 hb' with rfl | hb'
    · rfl
    · rw [List.mem_singleton.1 hb'] at hslot
      exact absurd hslot (by decide)
    · rw [List.mem_singleton.1 hb] at hslot
      exact absurd hslot (by decide)
    · exact (List.mem_singleton.1 hb).trans (List.mem_singleton.1 hb').symm
  · intro b hb
    rcases List.mem_cons.1 hb with rfl | hb
    · decide
    · rw [List.mem_singleton.1 hb]
      decide

end BlockPool

end Lodestar
