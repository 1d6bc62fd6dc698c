import Mathlib.Order.Basic
import Mathlib.Data.String.Basic
import Lodestar.Lib.OrderedMap
/-!
# ProtoArray — the block tree behind the fork choice

Blocks are nodes of an array, parents before children, each with its weight and with links to its best child and best
descendant.  `applyScoreChanges` walks the array backwards once and updates weights and links together.

A method that mutates and may throw is a function to a pair: its outcome, and the array as it then is.
-/
namespace Lodestar

open Lib

abbrev HexRoot := String

def HEX_ZERO_HASH : HexRoot := "0x0000000000000000000000000000000000000000000000000000000000000000"

structure ProtoBlock where
  slot : Nat
  blockRoot : HexRoot
  parentRoot : HexRoot
  stateRoot : HexRoot
  targetRoot : HexRoot
  justifiedEpoch : Nat
  finalizedEpoch : Nat
deriving DecidableEq

structure ProtoNode extends ProtoBlock where
  parent : Option Nat
  weight : Int
  bestChild : Option Nat
  bestDescendant : Option Nat
deriving DecidableEq

inductive ProtoArrayError
  | FINALIZED_NODE_UNKNOWN (root : HexRoot)
  | JUSTIFIED_NODE_UNKNOWN (root : HexRoot)
  | INVALID_NODE_INDEX (index : Nat)
  | INVALID_BEST_CHILD_INDEX (index : Nat)
  | INVALID_JUSTIFIED_INDEX (index : Nat)
  | INVALID_BEST_DESCENDANT_INDEX (index : Nat)
  | INVALID_PARENT_DELTA (index : Nat)
  | INVALID_NODE_DELTA (index : Nat)
  | INDEX_OVERFLOW (value : String)
  | INVALID_DELTA_LEN (deltas indices : Nat)
  | INVALID_BEST_NODE (startRoot : HexRoot) (justifiedEpoch finalizedEpoch : Nat) (headRoot : HexRoot)
      (headJustifiedEpoch headFinalizedEpoch : Nat)
deriving DecidableEq

structure ProtoArray where
  pruneThreshold : Nat
  justifiedEpoch : Nat
  finalizedEpoch : Nat
  nodes : List ProtoNode
  indices : OrderedMap HexRoot Nat
deriving DecidableEq

def DEFAULT_PRUNE_THRESHOLD : Nat := 0

namespace ProtoArray

def new (pruneThreshold justifiedEpoch finalizedEpoch : Nat) : ProtoArray :=
  { pruneThreshold, justifiedEpoch, finalizedEpoch, nodes := [], indices := .empty }

section

variable (s : ProtoArray)

def getNodeByIndex (blockIndex : Nat) : Option ProtoNode := s.nodes[blockIndex]?

def setNode (i : Nat) (node : ProtoNode) : ProtoArray := { s with nodes := s.nodes.set i node }

def nodeIsViableForHead (node : ProtoNode) : Bool :=
  (node.justifiedEpoch == s.justifiedEpoch || s.justifiedEpoch == 0) &&
  (node.finalizedEpoch == s.finalizedEpoch || s.finalizedEpoch == 0)

def nodeLeadsToViableHead (node : ProtoNode) : Except ProtoArrayError Bool :=
  match node.bestDescendant with
  | some bestDescendantIndex =>
    match s.nodes[bestDescendantIndex]? with
    | none => .error (.INVALID_BEST_DESCENDANT_INDEX bestDescendantIndex)
    | some bestDescendantNode => .ok (s.nodeIsViableForHead bestDescendantNode || s.nodeIsViableForHead node)
  | none => .ok (s.nodeIsViableForHead node)

def maybeUpdateBestChildAndDescendant (parentIndex childIndex : Nat) : Except ProtoArrayError ProtoArray :=
  match s.nodes[childIndex]? with
  | none => .error (.INVALID_NODE_INDEX childIndex)
  | some childNode =>
  match s.nodes[parentIndex]? with
  | none => .error (.INVALID_NODE_INDEX parentIndex)
  | some parentNode => do
    let childLeadsToViableHead ← s.nodeLeadsToViableHead childNode
    let changeToNull : Option Nat × Option Nat := (none, none)
    let changeToChild : Option Nat × Option Nat := (some childIndex, some (childNode.bestDescendant.getD childIndex))
    let noChange : Option Nat × Option Nat := (parentNode.bestChild, parentNode.bestDescendant)
    let newChildAndDescendant ← match parentNode.bestChild with
      | some bestChildIndex =>
        if bestChildIndex = childIndex ∧ !childLeadsToViableHead then pure changeToNull
        else if bestChildIndex = childIndex then pure changeToChild
        else match s.nodes[bestChildIndex]? with
          | none => .error (.INVALID_BEST_CHILD_INDEX bestChildIndex)
          | some bestChildNode => do
            let bestChildLeadsToViableHead ← s.nodeLeadsToViableHead bestChildNode
            if childLeadsToViableHead && !bestChildLeadsToViableHead then pure changeToChild
            else if !childLeadsToViableHead && bestChildLeadsToViableHead then pure noChange
            else if childNode.weight = bestChildNode.weight then
              -- tie-breaker of equal weights by root
              if childNode.blockRoot ≥ bestChildNode.blockRoot then pure changeToChild else pure noChange
            else if childNode.weight ≥ bestChildNode.weight then pure changeToChild
            else pure noChange
      | none => if childLeadsToViableHead then pure changeToChild else pure noChange
    pure (s.setNode parentIndex
      { parentNode with bestChild := newChildAndDescendant.1, bestDescendant := newChildAndDescendant.2 })

end

/-- The loop of `applyScoreChanges`, over the nodes before `n` from the last to the first. -/
def applyScoreLoop : Nat → List Int → ProtoArray → Except ProtoArrayError Unit × ProtoArray
  | 0, _, s => (.ok (), s)
  | nodeIndex + 1, deltas, s =>
    match s.nodes[nodeIndex]? with
    | none => (.error (.INVALID_NODE_INDEX nodeIndex), s)
    | some node =>
      if node.blockRoot = HEX_ZERO_HASH then applyScoreLoop nodeIndex deltas s
      else match deltas[nodeIndex]? with
        | none => (.error (.INVALID_NODE_DELTA nodeIndex), s)
        | some nodeDelta =>
          let s := s.setNode nodeIndex { node with weight := node.weight + nodeDelta }
          match node.parent with
          | none => applyScoreLoop nodeIndex deltas s
          | some parentIndex =>
            match deltas[parentIndex]? with
            | none => (.error (.INVALID_PARENT_DELTA parentIndex), s)
            | some parentDelta =>
              match s.maybeUpdateBestChildAndDescendant parentIndex nodeIndex with
              | .error e => (.error e, s)
              | .ok s' => applyScoreLoop nodeIndex (deltas.set parentIndex (parentDelta + nodeDelta)) s'

/-- The epochs `applyScoreChanges` leaves: its guard compares the finalized epoch with itself. -/
def withEpochs (s : ProtoArray) (justifiedEpoch finalizedEpoch : Nat) : ProtoArray :=
  if justifiedEpoch ≠ s.justifiedEpoch ∨ s.finalizedEpoch ≠ s.finalizedEpoch then
    { s with justifiedEpoch := justifiedEpoch, finalizedEpoch := finalizedEpoch }
  else s

def applyScoreChanges (s : ProtoArray) (deltas : List Int) (justifiedEpoch finalizedEpoch : Nat) :
    Except ProtoArrayError Unit × ProtoArray :=
  if deltas.length ≠ s.indices.size then (.error (.INVALID_DELTA_LEN deltas.length s.indices.size), s)
  else applyScoreLoop s.nodes.length deltas (s.withEpochs justifiedEpoch finalizedEpoch)

/-- The loop of `onBlock` up the ancestors of a new node; a path has at most as many nodes as the array. -/
def updateAncestors : Nat → Option Nat → Nat → ProtoArray → Except ProtoArrayError Unit × ProtoArray
  | _, none, _, s => (.ok (), s)
  | 0, some _, _, s => (.ok (), s)
  | fuel + 1, some parentIndex, nodeIndex, s =>
    match s.maybeUpdateBestChildAndDescendant parentIndex nodeIndex with
    | .error e => (.error e, s)
    | .ok s' => updateAncestors fuel ((s'.getNodeByIndex parentIndex).bind (·.parent)) parentIndex s'

section

variable (s : ProtoArray)

def pushBlock (block : ProtoBlock) : ProtoArray :=
  { s with
    nodes := s.nodes ++
      [{ block with parent := s.indices.get? block.parentRoot, weight := 0, bestChild := none, bestDescendant := none }]
    indices := s.indices.set block.blockRoot s.nodes.length }

def onBlock (block : ProtoBlock) : Except ProtoArrayError Unit × ProtoArray :=
  if s.indices.has block.blockRoot then (.ok (), s)
  else updateAncestors s.nodes.length (s.indices.get? block.parentRoot) s.nodes.length (s.pushBlock block)

def initializeWith (block : ProtoBlock) : ProtoArray :=
  ((new DEFAULT_PRUNE_THRESHOLD block.justifiedEpoch block.finalizedEpoch).onBlock
    { block with targetRoot := block.blockRoot }).2

def findHead (justifiedRoot : HexRoot) : Except ProtoArrayError HexRoot :=
  match s.indices.get? justifiedRoot with
  | none => .error (.JUSTIFIED_NODE_UNKNOWN justifiedRoot)
  | some justifiedIndex =>
    match s.nodes[justifiedIndex]? with
    | none => .error (.INVALID_JUSTIFIED_INDEX justifiedIndex)
    | some justifiedNode =>
      let bestDescendantIndex := justifiedNode.bestDescendant.getD justifiedIndex
      match s.nodes[bestDescendantIndex]? with
      | none => .error (.INVALID_BEST_DESCENDANT_INDEX bestDescendantIndex)
      | some bestNode =>
        if !s.nodeIsViableForHead bestNode then
          .error (.INVALID_BEST_NODE justifiedRoot s.justifiedEpoch s.finalizedEpoch justifiedNode.blockRoot
            justifiedNode.justifiedEpoch justifiedNode.finalizedEpoch)
        else .ok bestNode.blockRoot

/-! ## Pruning -/

/-- The first loop of `maybePrune`: the keys of the nodes from `i` on, `n` of them, leave the map. -/
def deleteIndices (nodes : List ProtoNode) : Nat → Nat → OrderedMap HexRoot Nat →
    Except ProtoArrayError Unit × OrderedMap HexRoot Nat
  | 0, _, m => (.ok (), m)
  | n + 1, i, m =>
    match nodes[i]? with
    | none => (.error (.INVALID_NODE_INDEX i), m)
    | some node => deleteIndices nodes n (i + 1) (m.delete node.blockRoot)

/-- The second loop of `maybePrune`, over the entries left in the map. -/
def shiftIndices (finalizedIndex : Nat) : List (HexRoot × Nat) → OrderedMap HexRoot Nat →
    Except ProtoArrayError Unit × OrderedMap HexRoot Nat
  | [], m => (.ok (), m)
  | (key, value) :: entries, m =>
    if value < finalizedIndex then (.error (.INDEX_OVERFLOW "indices"), m)
    else shiftIndices finalizedIndex entries (m.set key (value - finalizedIndex))

/-- One node moved to the new layout, or the link that is lost, with the node as it then is. -/
def shiftNode (finalizedIndex : Nat) (node : ProtoNode) : Except ProtoArrayError Unit × ProtoNode :=
  let node := { node with parent := node.parent.bind (fun parentIndex =>
    if parentIndex < finalizedIndex then none else some (parentIndex - finalizedIndex)) }
  if node.bestChild.any (fun bestChild => decide (bestChild < finalizedIndex)) then
    (.error (.INDEX_OVERFLOW "bestChild"), node)
  else
    let node := { node with bestChild := node.bestChild.map (· - finalizedIndex) }
    if node.bestDescendant.any (fun bestDescendant => decide (bestDescendant < finalizedIndex)) then
      (.error (.INDEX_OVERFLOW "bestDescendant"), node)
    else (.ok (), { node with bestDescendant := node.bestDescendant.map (· - finalizedIndex) })

/-- The third loop of `maybePrune`, over the nodes that stay. -/
def shiftNodes (finalizedIndex : Nat) : List ProtoNode → Except ProtoArrayError Unit × List ProtoNode
  | [] => (.ok (), [])
  | node :: nodes =>
    match shiftNode finalizedIndex node with
    | (.error e, node') => (.error e, node' :: nodes)
    | (.ok (), node') =>
      let (r, nodes') := shiftNodes finalizedIndex nodes
      (r, node' :: nodes')

/-- The nodes removed, in the outcome; the array after the loops, as far as they got. -/
def maybePrune (finalizedRoot : HexRoot) : Except ProtoArrayError (List ProtoNode) × ProtoArray :=
  match s.indices.get? finalizedRoot with
  | none => (.error (.FINALIZED_NODE_UNKNOWN finalizedRoot), s)
  | some finalizedIndex =>
    if finalizedIndex < s.pruneThreshold then (.ok [], s)
    else match deleteIndices s.nodes finalizedIndex 0 s.indices with
      | (.error e, indices) => (.error e, { s with indices := indices })
      | (.ok (), indices) =>
        let removed := s.nodes.take finalizedIndex
        let nodes := s.nodes.drop finalizedIndex
        match shiftIndices finalizedIndex indices.entries indices with
        | (.error e, indices) => (.error e, { s with nodes := nodes, indices := indices })
        | (.ok (), indices) =>
          match shiftNodes finalizedIndex nodes with
          | (.error e, nodes) => (.error e, { s with nodes := nodes, indices := indices })
          | (.ok (), nodes) => (.ok removed, { s with nodes := nodes, indices := indices })

/-! ## Queries -/

/-- The loop of `iterateNodes` up the parents of a node. -/
def iterateParents (s : ProtoArray) : Nat → ProtoNode → Except ProtoArrayError (List ProtoNode)
  | 0, node => .ok [node]
  | fuel + 1, node =>
    match node.parent with
    | none => .ok [node]
    | some nodeParent =>
      match s.nodes[nodeParent]? with
      | none => .error (.INVALID_NODE_INDEX nodeParent)
      | some parentNode => (s.iterateParents fuel parentNode).map (node :: ·)

def iterateNodes (blockRoot : HexRoot) : Except ProtoArrayError (List ProtoNode) :=
  match s.indices.get? blockRoot with
  | none => .ok []
  | some startIndex =>
    match s.nodes[startIndex]? with
    | none => .error (.INVALID_NODE_INDEX startIndex)
    | some node => s.iterateParents s.nodes.length node

def hasBlock (blockRoot : HexRoot) : Bool := s.indices.has blockRoot

def getNode (s : ProtoArray) (blockRoot : HexRoot) : Option ProtoNode :=
  (s.indices.get? blockRoot).bind s.getNodeByIndex

def getBlock (blockRoot : HexRoot) : Option ProtoBlock := (s.getNode blockRoot).map (·.toProtoBlock)

/-- The loop of `isDescendant` over the nodes from the descendant upwards. -/
def reachesNode (ancestorNode : ProtoNode) : List ProtoNode → Bool
  | [] => false
  | node :: nodes =>
    if node.slot < ancestorNode.slot then false
    else if node.blockRoot = ancestorNode.blockRoot then true
    else reachesNode ancestorNode nodes

def isDescendant (ancestorRoot descendantRoot : HexRoot) : Except ProtoArrayError Bool :=
  match s.getNode ancestorRoot with
  | none => .ok false
  | some ancestorNode => (s.iterateNodes descendantRoot).map (reachesNode ancestorNode)

end

end ProtoArray

end Lodestar
