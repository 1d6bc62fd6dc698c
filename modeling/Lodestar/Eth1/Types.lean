import Lodestar.Db.NumberKeys
import Lodestar.Db.BeaconDb
import Lodestar.StateTransition.State
import Lodestar.Lib.SortedList
/-!
# Types — eth1 blocks, deposit events and the log of the deposit contract

A block number is a `number` of the source.  The contract numbers its deposits from zero in the order in which the blocks
include them, and its tree has 32 levels.
-/
namespace Lodestar.Eth1

open Lib Db StateTransition

inductive Eth1Error
  | db (error : DbError)
  | provider (message : String)
  | error (message : String)
deriving DecidableEq, Repr

structure DepositEvent where
  depositData : DepositData
  blockNumber : Nat
  index : Nat

structure Eth1Block where
  blockHash : Root
  blockNumber : Nat
  timestamp : Nat
  blockNumber_le : blockNumber ≤ MAX_SAFE_INTEGER
deriving DecidableEq

structure Eth1DataOfBlock extends Eth1Block where
  depositRoot : Root
  depositCount : Nat
deriving DecidableEq

structure Eth1Values extends Values where
  ofDepositEvent : DepositEvent → Value .depositEvent
  depositEvent : Value .depositEvent → DepositEvent
  depositEvent_of : ∀ event, depositEvent (ofDepositEvent event) = event
  ofRoot : Root → Value .depositDataRoot
  root : Value .depositDataRoot → Root
  root_of : ∀ r, root (ofRoot r) = r
  deserialize_root : ∀ value, deserialize .depositDataRoot (serialize .depositDataRoot value) = .ok value
  ofEth1Data : Eth1DataOfBlock → Value .eth1Data
  eth1BlockNumber : Value .eth1Data → Nat
  /-- `tree[index] = root` on the list of roots; at its end it appends. -/
  setRoot : List Root → Nat → Root → Except String (List Root)
  setRoot_length : ∀ tree root, tree.length < 2 ^ 32 → setRoot tree tree.length root = .ok (tree ++ [root])
  /-- `ssz.phase0.DepositData.hashTreeRoot`. -/
  depositDataHashTreeRoot : DepositData → Root
  /-- `ssz.phase0.DepositDataRootList.hashTreeRoot`. -/
  depositDataRootListHashTreeRoot : List Root → Root

/-- The events of the contract in the order of its blocks.  SSZ reads each back as it was written. -/
structure DepositLog (values : Eth1Values) where
  events : List DepositEvent
  index_eq : ∀ (i : Nat) (event : DepositEvent), events[i]? = some event → event.index = i
  ordered : events.Pairwise (fun a b => a.blockNumber ≤ b.blockNumber)
  length_le : events.length ≤ 2 ^ 32
  readable : ∀ event ∈ events, values.deserialize .depositEvent
    (values.serialize .depositEvent (values.ofDepositEvent event)) = .ok (values.ofDepositEvent event)

namespace DepositLog

variable {values : Eth1Values}

def take (log : DepositLog values) (n : Nat) : DepositLog values where
  events := log.events.take n
  index_eq i event h := by
    rw [List.getElem?_take] at h
    split at h
    · exact log.index_eq i event h
    · cases h
  ordered := log.ordered.sublist (List.take_sublist n log.events)
  length_le := (List.take_sublist n log.events).length_le.trans log.length_le
  readable event h := log.readable event (List.mem_of_mem_take h)

section

variable (log : DepositLog values)

def upTo : Option Nat → DepositLog values
  | none => log
  | some highest => log.take (highest + 1)

def empty : DepositLog values where
  events := []
  index_eq i event h := by cases h
  ordered := .nil
  length_le := Nat.zero_le _
  readable event h := absurd h List.not_mem_nil

def roots : List Root := log.events.map fun event => values.depositDataHashTreeRoot event.depositData

/-- How many deposits the blocks up to this one include. -/
def countUpTo (blockNumber : Nat) : Nat :=
  log.events.countP (fun event => decide (event.blockNumber ≤ blockNumber))

theorem lt_countUpTo_iff {i : Nat} {event : DepositEvent} (h : log.events[i]? = some event) (blockNumber : Nat) :
    i < log.countUpTo blockNumber ↔ event.blockNumber ≤ blockNumber :=
  lt_countP_iff DepositEvent.blockNumber blockNumber log.ordered h

end

end DepositLog

/-! ## Plain values -/

def plainEvent (index blockNumber : Nat) : DepositEvent where
  depositData := ⟨Vector.replicate 48 0, zeroRoot, 0, Vector.replicate 96 0⟩
  blockNumber := blockNumber
  index := index

/-- Values of which an empty deposit keeps its index and its block, a root its bytes and eth1 data its block number; the
root of a tree is its length. -/
def plainEth1Values : Eth1Values where
  Value
    | .depositEvent => DepositEvent
    | .depositDataRoot => Root
    | .eth1Data => Nat
    | _ => Buffer
  Single _ := Buffer
  Attestation := Root
  serialize
    | .depositEvent, event => BigEndian.encode 8 event.index ++ BigEndian.encode 8 event.blockNumber
    | .depositDataRoot, root => root.toList
    | .eth1Data, blockNumber => BigEndian.encode 8 blockNumber
    | .block, value | .pendingBlock, value | .blockArchive, value | .stateArchive, value | .aggregateAndProof, value
    | .voluntaryExit, value | .proposerSlashing, value | .attesterSlashing, value | .bestUpdatePerCommitteePeriod, value
    | .lightclientFinalizedCheckpoint, value | .lightClientInitProof, value | .lightClientSyncCommitteeProof, value => value
  deserialize
    | .depositEvent, bytes => .ok (plainEvent (BigEndian.decode (bytes.take 8)) (BigEndian.decode (bytes.drop 8)))
    | .depositDataRoot, bytes =>
      if h : bytes.length = 32 then .ok ⟨bytes.toArray, by simpa using h⟩ else .error (.ssz "a root has 32 bytes")
    | .eth1Data, bytes => .ok (BigEndian.decode bytes)
    | .block, bytes | .pendingBlock, bytes | .blockArchive, bytes | .stateArchive, bytes | .aggregateAndProof, bytes
    | .voluntaryExit, bytes | .proposerSlashing, bytes | .attesterSlashing, bytes | .bestUpdatePerCommitteePeriod, bytes
    | .lightclientFinalizedCheckpoint, bytes | .lightClientInitProof, bytes | .lightClientSyncCommitteeProof, bytes =>
      .ok bytes
  hashTreeRoot _ _ := zeroRoot
  serializeSingle _ value := value
  deserializeSingle _ value := .ok value
  blockMessageRoot _ := zeroRoot
  pendingBlockMessageRoot _ := zeroRoot
  archivedMessage _ := ⟨0, zeroRoot, zeroRoot⟩
  stateSlot _ := 0
  aggregate _ := zeroRoot
  attestationRoot root := root
  attestationSlot _ := 0
  exitValidatorIndex _ := 0
  proposerIndex _ := 0
  bufferToNumber _ := none
  ofDepositEvent event := event
  depositEvent event := event
  depositEvent_of _ := rfl
  ofRoot root := root
  root root := root
  root_of _ := rfl
  deserialize_root root := by
    have hlength : root.toList.length = 32 := root.length_toList
    show (if h : root.toList.length = 32 then Except.ok _ else _) = _
    rw [dif_pos hlength]
    rfl
  ofEth1Data eth1Data := eth1Data.blockNumber
  eth1BlockNumber blockNumber := blockNumber
  setRoot tree index root :=
    if index < tree.length then .ok (tree.set index root)
    else if index = tree.length then .ok (tree ++ [root]) else .error "Invalid length index"
  setRoot_length tree root _ := by
    rw [if_neg (Nat.lt_irrefl _), if_pos rfl]
  depositDataHashTreeRoot _ := zeroRoot
  depositDataRootListHashTreeRoot roots := Vector.replicate 32 (UInt8.ofNat roots.length)

def plainLog (blockNumbers : List Nat) (hordered : blockNumbers.Pairwise (· ≤ ·)) (hlength : blockNumbers.length ≤ 2 ^ 32)
    (hsmall : ∀ n ∈ blockNumbers, n < 2 ^ 64) : DepositLog plainEth1Values where
  events := blockNumbers.mapIdx plainEvent
  index_eq i event h := by
    rw [List.getElem?_mapIdx, Option.map_eq_some_iff] at h
    obtain ⟨n, -, rfl⟩ := h
    rfl
  ordered := by
    rw [List.pairwise_iff_getElem] at hordered ⊢
    intro i j hi hj hij
    rw [List.length_mapIdx] at hi hj
    simpa [plainEvent] using hordered i j hi hj hij
  length_le := by
    rw [List.length_mapIdx]
    exact hlength
  readable event h := by
    obtain ⟨i, hi, rfl⟩ := List.mem_mapIdx.1 h
    have hindex : i < 256 ^ 8 := by
      have : (2 : Nat) ^ 32 < 256 ^ 8 := by decide
      omega
    have hblock : blockNumbers[i] < 256 ^ 8 := hsmall _ (List.getElem_mem hi)
    generalize blockNumbers[i] = n at hblock
    show Except.ok (plainEvent (BigEndian.decode ((BigEndian.encode 8 i ++ BigEndian.encode 8 n).take 8))
      (BigEndian.decode ((BigEndian.encode 8 i ++ BigEndian.encode 8 n).drop 8))) = .ok (plainEvent i n)
    rw [List.take_left' (BigEndian.length_encode 8 i), List.drop_left' (BigEndian.length_encode 8 i),
      BigEndian.decode_encode hindex, BigEndian.decode_encode hblock]

end Lodestar.Eth1
