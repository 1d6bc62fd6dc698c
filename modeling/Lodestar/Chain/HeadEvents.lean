import Lodestar.ForkChoice.ParentChains
/-!
# HeadEvents — the distance of a reorg

`emitForkChoiceHeadEvents` looks for the first block of the new head's history that the old head's history includes.  Each history is a
list of objects that were made for it, and `includes` compares objects by identity, so no block is found and the distance falls
back to zero (`emitForkChoiceHeadEvents_eq`), which it never is: `emitForkChoiceHeadEvents_distance`.
-/
namespace Lodestar

open Lib Forest
open Db (BlockSummary)

inductive HeadEvent
  | forkChoiceReorg (head oldHead : BlockSummary) (distance : Int)
  | forkChoiceHead (head : BlockSummary)
deriving DecidableEq

structure SummaryObject where
  id : Nat
  summary : BlockSummary

/-- `toBlockSummary` makes an object for each summary, the first of them with the identity `next`. -/
def newObjects (summaries : List BlockSummary) (next : Nat) : List SummaryObject :=
  (summaries.zipIdx next).map fun entry => ⟨entry.2, entry.1⟩

def includes (history : List SummaryObject) (object : SummaryObject) : Bool := history.any fun other => other.id == object.id

variable (codec : HexCodec) (fc : ForkChoice)

def reorgDistance (head oldHead : BlockSummary) (made : Nat) : Except ProtoArrayError Int := do
  let oldHeadSummaries ← fc.iterateBlockSummaries codec oldHead.blockRoot
  let headSummaries ← fc.iterateBlockSummaries codec head.blockRoot
  let oldHeadHistory := newObjects oldHeadSummaries made
  let headHistory := newObjects headSummaries (made + oldHeadSummaries.length)
  let firstAncestor := headHistory.find? (includes oldHeadHistory)
  pure (oldHead.slot - ((firstAncestor.map fun object => object.summary.slot).getD oldHead.slot : Nat))

def emitForkChoiceHeadEvents (head oldHead : BlockSummary) (made : Nat) : Except ProtoArrayError (List HeadEvent) :=
  if head.blockRoot = oldHead.blockRoot then pure []
  else do
    -- new head
    let isDescendant ← fc.protoArray.isDescendant (codec.toHexRoot oldHead.blockRoot) (codec.toHexRoot head.blockRoot)
    if isDescendant then pure [.forkChoiceHead head]
    else do
      -- chain reorg
      let distance ← reorgDistance codec fc head oldHead made
      pure [.forkChoiceReorg head oldHead distance, .forkChoiceHead head]

/-! ## What the distance is for -/

structure LatestCommonAncestor (s : ProtoArray) (a b ancestor : HexRoot) : Prop where
  left : s.ParentChain ancestor a
  right : s.ParentChain ancestor b
  latest : ∀ other, s.ParentChain other a → s.ParentChain other b → s.ParentChain other ancestor

def HeadOf (head : BlockSummary) : Prop :=
  ∃ block, fc.protoArray.getBlock (codec.toHexRoot head.blockRoot) = some block ∧ block.slot = head.slot

/-- The reorg is announced with the number of slots between the old head and the latest common ancestor. -/
def RightDistance (head oldHead : BlockSummary) (made : Nat) : Prop :=
  ∃ events ancestor block, emitForkChoiceHeadEvents codec fc head oldHead made = .ok events ∧
    LatestCommonAncestor fc.protoArray (codec.toHexRoot oldHead.blockRoot) (codec.toHexRoot head.blockRoot) ancestor ∧
    fc.protoArray.getBlock ancestor = some block ∧
    .forkChoiceReorg head oldHead ((oldHead.slot : Int) - (block.slot : Int)) ∈ events

variable {codec fc}

/-! ## Objects of two histories -/

theorem mem_newObjects {summaries : List BlockSummary} {next : Nat} {object : SummaryObject}
    (h : object ∈ newObjects summaries next) :
    next ≤ object.id ∧ object.id < next + summaries.length := by
  obtain ⟨entry, hentry, rfl⟩ := List.mem_map.1 h
  exact ⟨List.le_snd_of_mem_zipIdx hentry, List.snd_lt_add_of_mem_zipIdx hentry⟩

theorem find?_includes (first second : List BlockSummary) (made : Nat) :
    (newObjects second (made + first.length)).find? (includes (newObjects first made)) = none := by
  rw [List.find?_eq_none]
  intro object hobject hincludes
  obtain ⟨other, hother, hid⟩ := List.any_eq_true.1 hincludes
  have hlate := (mem_newObjects hobject).1
  have hearly := (mem_newObjects hother).2
  have hsame : other.id = object.id := by simpa using hid
  omega

theorem iterateBlockSummaries_ok (h : fc.protoArray.WellFormed) (root : Root) :
    ∃ summaries, fc.iterateBlockSummaries codec root = .ok summaries := by
  cases hi : fc.protoArray.indices.get? (codec.toHexRoot root) with
  | none =>
    refine ⟨[], ?_⟩
    unfold ForkChoice.iterateBlockSummaries ProtoArray.iterateNodes
    rw [hi]
    rfl
  | some i => exact ⟨_, ForkChoice.iterateBlockSummaries_eq h hi⟩

theorem reorgDistance_eq (h : fc.protoArray.WellFormed) (head oldHead : BlockSummary) (made : Nat) :
    reorgDistance codec fc head oldHead made = .ok 0 := by
  obtain ⟨oldHeadSummaries, hold⟩ : ∃ summaries, fc.iterateBlockSummaries codec oldHead.blockRoot = .ok summaries :=
    iterateBlockSummaries_ok h oldHead.blockRoot
  obtain ⟨headSummaries, hnew⟩ : ∃ summaries, fc.iterateBlockSummaries codec head.blockRoot = .ok summaries :=
    iterateBlockSummaries_ok h head.blockRoot
  have hdistance : reorgDistance codec fc head oldHead made = .ok ((oldHead.slot : Int) -
      ((((newObjects headSummaries (made + oldHeadSummaries.length)).find? (includes (newObjects oldHeadSummaries made))).map
        fun object => object.summary.slot).getD oldHead.slot : Nat)) := by
    unfold reorgDistance
    rw [hold, hnew]
    rfl
  rw [hdistance, find?_includes]
  simp

variable {s : ProtoArray}

theorem emitForkChoiceHeadEvents_eq (h : fc.protoArray.Chained) {head oldHead : BlockSummary} (hold : HeadOf codec fc oldHead)
    (hreorg : ¬ fc.protoArray.ParentChain (codec.toHexRoot oldHead.blockRoot) (codec.toHexRoot head.blockRoot)) (made : Nat) :
    emitForkChoiceHeadEvents codec fc head oldHead made = .ok [.forkChoiceReorg head oldHead 0, .forkChoiceHead head] := by
  obtain ⟨old, hgetOld, -⟩ := hold
  have hroots : head.blockRoot ≠ oldHead.blockRoot := by
    intro heq
    rw [heq] at hreorg
    exact hreorg (.self (ProtoArray.hasBlock_of_getBlock hgetOld))
  obtain ⟨result, hresult, hiff⟩ := h.isDescendant_iff (codec.toHexRoot oldHead.blockRoot) (codec.toHexRoot head.blockRoot)
  have hfalse : result = false := by
    cases result with
    | false => rfl
    | true => exact absurd (hiff.1 rfl) hreorg
  unfold emitForkChoiceHeadEvents
  rw [if_neg hroots, hresult, hfalse, reorgDistance_eq h.wellFormed]
  rfl

/-- **Zero is never the distance of a reorg**: the latest common ancestor of the heads comes in a slot before the old head. -/
theorem emitForkChoiceHeadEvents_distance (h : fc.protoArray.Chained) {head oldHead : BlockSummary} (hold : HeadOf codec fc oldHead)
    (hreorg : ¬ fc.protoArray.ParentChain (codec.toHexRoot oldHead.blockRoot) (codec.toHexRoot head.blockRoot)) (made : Nat) :
    emitForkChoiceHeadEvents codec fc head oldHead made = .ok [.forkChoiceReorg head oldHead 0, .forkChoiceHead head] ∧
    (∀ ancestor block, LatestCommonAncestor fc.protoArray (codec.toHexRoot oldHead.blockRoot) (codec.toHexRoot head.blockRoot)
      ancestor → fc.protoArray.getBlock ancestor = some block → (0 : Int) < (oldHead.slot : Int) - (block.slot : Int)) ∧
    ¬ RightDistance codec fc head oldHead made := by
  have hemits := emitForkChoiceHeadEvents_eq h hold hreorg made
  obtain ⟨old, hgetOld, hslot⟩ := hold
  have hpositive : ∀ ancestor block, LatestCommonAncestor fc.protoArray (codec.toHexRoot oldHead.blockRoot)
      (codec.toHexRoot head.blockRoot) ancestor → fc.protoArray.getBlock ancestor = some block →
      (0 : Int) < (oldHead.slot : Int) - (block.slot : Int) := by
    intro ancestor block hlca hblock
    rcases h.slot_lt_of_chain hlca.left hgetOld hblock with rfl | hlt
    · exact absurd hlca.right hreorg
    · omega
  refine ⟨hemits, hpositive, ?_⟩
  rintro ⟨events, ancestor, block, hevents, hlca, hblock, hmem⟩
  have hdistance := hpositive ancestor block hlca hblock
  rw [hemits] at hevents
  obtain rfl := Except.ok.inj hevents
  have hzero : (oldHead.slot : Int) - (block.slot : Int) = 0 := by simpa using hmem
  omega

/-! ## A fork -/

theorem LatestCommonAncestor.of_parent {a b : HexRoot} {old : ProtoBlock} (hold : s.getBlock a = some old)
    (hright : s.ParentChain old.parentRoot b) (hreorg : ¬ s.ParentChain a b) : LatestCommonAncestor s a b old.parentRoot where
  left := .parent hold (.self hright.ancestor_known)
  right := hright
  latest other hother hb := by
    cases hother with
    | self _ => exact absurd hb hreorg
    | parent hget hp =>
      rw [hold] at hget
      cases hget
      exact hp

def forkedChain : ForkChoice :=
  ForkChoice.construct ⟨5, ⟨0, ""⟩, ⟨0, ""⟩, ⟨0, ""⟩⟩
    (ProtoArray.runOps (.new 0 0 0) [.onBlock (chainBlock 0 1 0), .onBlock (chainBlock 3 2 1), .onBlock (chainBlock 5 3 1)]) [] []

def headAtSlot3 : BlockSummary := toBlockSummary hexCodec (chainBlock 3 2 1)

def headAtSlot5 : BlockSummary := toBlockSummary hexCodec (chainBlock 5 3 1)

theorem forkedChain_blocks :
    (∀ i < forkedChain.protoArray.nodes.length, ∀ p ∈ forkedChain.protoArray.parentOf i,
      (forkedChain.protoArray.nodes.map (·.slot)).getD p 0 < (forkedChain.protoArray.nodes.map (·.slot)).getD i 0) ∧
    (∀ node ∈ forkedChain.protoArray.nodes, node.parent = none → forkedChain.protoArray.hasBlock node.parentRoot = false) ∧
    forkedChain.protoArray.getBlock (chainBlock 0 1 0).blockRoot = some (chainBlock 0 1 0) ∧
    forkedChain.protoArray.getBlock (chainBlock 3 2 1).blockRoot = some (chainBlock 3 2 1) ∧
    forkedChain.protoArray.getBlock (chainBlock 5 3 1).blockRoot = some (chainBlock 5 3 1) ∧
    forkedChain.protoArray.isDescendant (chainBlock 3 2 1).blockRoot (chainBlock 5 3 1).blockRoot = .ok false := by
  decide +kernel

theorem forkedChain_chained : forkedChain.protoArray.Chained where
  wellFormed := ProtoArray.WellFormed.runOps _ (ProtoArray.WellFormed.new 0 0 0)
  parentRoots := ProtoArray.ParentRoots.runOps _ (ProtoArray.WellFormed.new 0 0 0) (ProtoArray.ParentRoots.new 0 0 0)
  slots := ProtoArray.slotsIncrease_of forkedChain_blocks.1
  tops := forkedChain_blocks.2.1

theorem forkedChain_slot3 :
    forkedChain.protoArray.getBlock (hexCodec.toHexRoot headAtSlot3.blockRoot) = some (chainBlock 3 2 1) := by
  unfold headAtSlot3
  rw [toHexString_chainBlock]
  exact forkedChain_blocks.2.2.2.1

theorem forkedChain_slot5 :
    forkedChain.protoArray.getBlock (hexCodec.toHexRoot headAtSlot5.blockRoot) = some (chainBlock 5 3 1) := by
  unfold headAtSlot5
  rw [toHexString_chainBlock]
  exact forkedChain_blocks.2.2.2.2.1

theorem headAtSlot5_not_descendant : ¬ forkedChain.protoArray.ParentChain (hexCodec.toHexRoot headAtSlot3.blockRoot)
    (hexCodec.toHexRoot headAtSlot5.blockRoot) := by
  unfold headAtSlot3 headAtSlot5
  rw [toHexString_chainBlock, toHexString_chainBlock]
  obtain ⟨result, hresult, hiff⟩ := forkedChain_chained.isDescendant_iff (chainBlock 3 2 1).blockRoot (chainBlock 5 3 1).blockRoot
  rw [forkedChain_blocks.2.2.2.2.2] at hresult
  rw [← hiff, ← Except.ok.inj hresult]
  simp

theorem headAtSlot3_headOf : HeadOf hexCodec forkedChain headAtSlot3 := ⟨chainBlock 3 2 1, forkedChain_slot3, rfl⟩

/-- The heads have the genesis block in common, three slots before the old head, and the distance is zero. -/
theorem rightDistance_fails :
    LatestCommonAncestor forkedChain.protoArray (hexCodec.toHexRoot headAtSlot3.blockRoot)
      (hexCodec.toHexRoot headAtSlot5.blockRoot) (chainBlock 0 1 0).blockRoot ∧
    forkedChain.protoArray.getBlock (chainBlock 0 1 0).blockRoot = some (chainBlock 0 1 0) ∧
    headAtSlot3.slot - (chainBlock 0 1 0).slot = 3 ∧
    emitForkChoiceHeadEvents hexCodec forkedChain headAtSlot5 headAtSlot3 0 =
      .ok [.forkChoiceReorg headAtSlot5 headAtSlot3 0, .forkChoiceHead headAtSlot5] := by
  have hgenesis : forkedChain.protoArray.getBlock (chainBlock 0 1 0).blockRoot = some (chainBlock 0 1 0) :=
    forkedChain_blocks.2.2.1
  have hknown : forkedChain.protoArray.hasBlock (chainBlock 5 3 1).parentRoot = true := ProtoArray.hasBlock_of_getBlock hgenesis
  have hlca := LatestCommonAncestor.of_parent forkedChain_slot3 (.parent forkedChain_slot5 (.self hknown))
    headAtSlot5_not_descendant
  exact ⟨hlca, hgenesis, rfl, emitForkChoiceHeadEvents_eq forkedChain_chained headAtSlot3_headOf headAtSlot5_not_descendant 0⟩

theorem emitForkChoiceHeadEvents_distance_fork : emitForkChoiceHeadEvents hexCodec forkedChain headAtSlot5 headAtSlot3 7 =
    .ok [.forkChoiceReorg headAtSlot5 headAtSlot3 0, .forkChoiceHead headAtSlot5] ∧
    ¬ RightDistance hexCodec forkedChain headAtSlot5 headAtSlot3 7 := by
  obtain ⟨hemits, -, hwrong⟩ := emitForkChoiceHeadEvents_distance forkedChain_chained headAtSlot3_headOf
    headAtSlot5_not_descendant 7
  exact ⟨hemits, hwrong⟩

end Lodestar
