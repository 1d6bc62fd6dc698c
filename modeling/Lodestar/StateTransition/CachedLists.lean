import Lodestar.Lib.SszList
import Lodestar.Lib.Fallible
import Lodestar.StateTransition.State
/-!
# CachedLists — balances and participation, in a vector and in a merkle tree

Every operation writes both: the vector that the state transition reads, and the tree that is hashed.  The lists are of balances,
and of participation statuses that the tree has as flags.
-/
namespace Lodestar.StateTransition

open Lib SszList

/-- A list type of `@chainsafe/ssz`, and what it does to the tree of a list. -/
structure BasicListType (α : Type) where
  /-- From the root, below which the length stands, down to the chunks. -/
  getChunkDepth : Nat
  treeSetProperty : Node → Nat → α → Except String Node
  treeSetLength : Node → Nat → Except String Node
  /-- With the new length. -/
  treePush : Node → α → Except String (Node × Nat)
  treePop : Node → Except String Node

variable (subtreeFillToContents : List Node → Nat → Except String Node)

def unsafeUint8ArrayToTree (data : List UInt8) (depth : Nat) : Except String Node :=
  -- Loop 32 bytes at a time; with less than 32 bytes there is no start index
  let maxStartIndex := data.length - 31
  let leaves := (List.range' 0 ((maxStartIndex + 31) / 32) 32).map fun i => Node.leaf ((data.drop i).take 32)
  -- If there is any extra data at the end (less than 32 bytes), append a final leaf
  let lengthMod32 := data.length % 32
  let leaves :=
    if lengthMod32 ≠ 0 then
      leaves ++ [.leaf (data.drop (data.length - lengthMod32) ++ List.replicate (32 - lengthMod32) 0)]
    else leaves
  subtreeFillToContents leaves depth

/-! ## Balances -/

structure CachedBalanceList where
  tree : Node
  persistent : List UInt64

namespace CachedBalanceList

variable (type : BasicListType UInt64)

def set (index : Nat) (value : UInt64) (list : CachedBalanceList) : Except String CachedBalanceList := do
  let persistent := list.persistent.set index value
  let tree ← type.treeSetProperty list.tree index value
  pure { tree, persistent }

def updateAll (balances : List UInt64) : Except String CachedBalanceList := do
  -- the bytes of a `BigUint64Array`, on a little-endian machine
  let buffer := balances.flatMap fun value => leBytes 8 value.toNat
  let rootNode ← unsafeUint8ArrayToTree subtreeFillToContents buffer type.getChunkDepth
  let tree ← type.treeSetLength rootNode balances.length
  pure { tree, persistent := balances }

def push (value : UInt64) (list : CachedBalanceList) : Except String (CachedBalanceList × Nat) := do
  let persistent := list.persistent ++ [value]
  let (tree, length) ← type.treePush list.tree value
  pure ({ tree, persistent }, length)

def pop (list : CachedBalanceList) : Except String (CachedBalanceList × Option UInt64) := do
  let tree ← type.treePop list.tree
  pure ({ tree, persistent := list.persistent.dropLast }, list.persistent.getLast?)

inductive Op
  | set (index : Nat) (value : UInt64)
  | updateAll (balances : List UInt64)
  | push (value : UInt64)
  | pop

def apply (list : CachedBalanceList) : Op → Except String CachedBalanceList
  | .set index value => list.set type index value
  | .updateAll balances => updateAll subtreeFillToContents type balances
  | .push value => (list.push type value).map (·.1)
  | .pop => (list.pop type).map (·.1)

end CachedBalanceList

/-! ## Participation -/

def TIMELY_SOURCE : UInt8 := (1 : UInt8) <<< 0
def TIMELY_TARGET : UInt8 := (1 : UInt8) <<< 1
def TIMELY_HEAD : UInt8 := (1 : UInt8) <<< 2

def toParticipationFlags (data : ParticipationStatus) : UInt8 :=
  (if data.timelySource then TIMELY_SOURCE else 0) ||| (if data.timelyHead then TIMELY_HEAD else 0) |||
    (if data.timelyTarget then TIMELY_TARGET else 0)

def fromParticipationFlags (flags : UInt8) : ParticipationStatus where
  timelySource := TIMELY_SOURCE &&& flags == TIMELY_SOURCE
  timelyTarget := TIMELY_TARGET &&& flags == TIMELY_TARGET
  timelyHead := TIMELY_HEAD &&& flags == TIMELY_HEAD

structure CachedEpochParticipation where
  tree : Option Node
  persistent : List ParticipationStatus

namespace CachedEpochParticipation

variable (type : BasicListType UInt8)

/-- `if (this.type && this.tree)`. -/
def whenTree (tree : Option Node) (f : Node → Except String Node) : Except String (Option Node) :=
  match tree with
  | none => .ok none
  | some node => (f node).map some

def get (index : Nat) (list : CachedEpochParticipation) : Option UInt8 := (list.persistent[index]?).map toParticipationFlags

def set (index : Nat) (value : UInt8) (list : CachedEpochParticipation) : Except String CachedEpochParticipation := do
  let persistent := list.persistent.set index (fromParticipationFlags value)
  let tree ← whenTree list.tree fun tree => type.treeSetProperty tree index value
  pure { tree, persistent }

def setStatus (index : Nat) (data : ParticipationStatus) (list : CachedEpochParticipation) :
    Except String CachedEpochParticipation := do
  let tree ← whenTree list.tree fun tree => type.treeSetProperty tree index (toParticipationFlags data)
  pure { tree, persistent := list.persistent.set index data }

def updateAllStatus (data : List ParticipationStatus) (list : CachedEpochParticipation) :
    Except String CachedEpochParticipation := do
  let tree ← whenTree list.tree fun _ => do
    let packedData := data.map toParticipationFlags
    let rootNode ← unsafeUint8ArrayToTree subtreeFillToContents packedData type.getChunkDepth
    type.treeSetLength rootNode data.length
  pure { tree, persistent := data }

def pushStatus (data : ParticipationStatus) (list : CachedEpochParticipation) : Except String CachedEpochParticipation := do
  let persistent := list.persistent ++ [data]
  let tree ← whenTree list.tree fun tree => (type.treePush tree (toParticipationFlags data)).map (·.1)
  pure { tree, persistent }

def push (value : UInt8) (list : CachedEpochParticipation) : Except String (CachedEpochParticipation × Nat) := do
  let list ← list.pushStatus type (fromParticipationFlags value)
  pure (list, list.persistent.length)

def pop (list : CachedEpochParticipation) : Except String (CachedEpochParticipation × Option UInt8) := do
  let tree ← whenTree list.tree type.treePop
  pure ({ tree, persistent := list.persistent.dropLast }, list.persistent.getLast?.map toParticipationFlags)

inductive Op
  | set (index : Nat) (value : UInt8)
  | setStatus (index : Nat) (data : ParticipationStatus)
  | updateAllStatus (data : List ParticipationStatus)
  | push (value : UInt8)
  | pushStatus (data : ParticipationStatus)
  | pop

def apply (list : CachedEpochParticipation) : Op → Except String CachedEpochParticipation
  | .set index value => list.set type index value
  | .setStatus index data => list.setStatus type index data
  | .updateAllStatus data => list.updateAllStatus subtreeFillToContents type data
  | .push value => (list.push type value).map (·.1)
  | .pushStatus data => list.pushStatus type data
  | .pop => (list.pop type).map (·.1)

end CachedEpochParticipation

end Lodestar.StateTransition
