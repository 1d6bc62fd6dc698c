import Lodestar.Lib.Bits
import Lodestar.Lib.Memo
import Lodestar.Lib.SszList
import Lodestar.StateTransition.Util
import Mathlib.Data.Finset.Card
/-!
# AggregationBits — bits read from the bytes of a tree

The tree path reads the bytes under a bit list or vector, and takes the bits of each byte from a table that it fills as it goes.  The
plain path reads bit after bit.  Over the packed bits both do the same: `treeBacked_agrees`.
-/
namespace Lodestar.StateTransition

open Lib SszList Bits

namespace AggregationBits

def BITS_PER_BYTE : Nat := 8

inductive AggregationBitsErrorCode
  | NOT_EXACTLY_ONE_BIT_SET
deriving DecidableEq

/-! ## The bits of a byte -/

def computeUint8ByteToBitBooleanArray (byte : UInt8) : List Bool :=
  let binaryStr := Nat.toDigits 2 byte.toNat
  let binaryLength := binaryStr.length
  (List.range BITS_PER_BYTE).map fun j =>
    if j < binaryLength then binaryStr.getD (binaryLength - j - 1) '0' == '1' else false

/-- The global cache. -/
abbrev BitBooleanArrays : Type := OrderedMap UInt8 (List Bool)

def getUint8ByteToBitBooleanArray (uint8ByteToBitBooleanArrays : BitBooleanArrays) (byte : UInt8) : List Bool × BitBooleanArrays :=
  lookup computeUint8ByteToBitBooleanArray uint8ByteToBitBooleanArrays byte

def cacheAfter (asked : List UInt8) : BitBooleanArrays :=
  asked.foldl (fun cache byte => (getUint8ByteToBitBooleanArray cache byte).2) .empty

/-! ## Bits in a tree -/

structure TreeBacked where
  length : Nat
  chunks : List (List UInt8)

inductive BitArr
  | struct (bits : List Bool)
  | treeBacked (bits : TreeBacked)

def bitsToUint8Array (bits : TreeBacked) : List UInt8 :=
  -- The last chunk has 32 bytes, of which not all are used
  bits.chunks.flatten.take ((bits.length + 7) / BITS_PER_BYTE)

/-! ## Zipping -/

def takeIndex (indexes : List Nat) (iByte : Nat) (booleansInByte : List Bool) (indices : List Nat × List Nat) (iBit : Nat) :
    List Nat × List Nat :=
  match indexes[iByte * BITS_PER_BYTE + iBit]? with
  | none => indices
  | some committeeIndex =>
    if booleansInByte.getD iBit false then (indices.1 ++ [committeeIndex], indices.2)
    else (indices.1, indices.2 ++ [committeeIndex])

/-- The bytes from `iByte` on. -/
def zipIndexesFrom (indexes : List Nat) : List UInt8 → Nat → List Nat × List Nat → BitBooleanArrays →
    (List Nat × List Nat) × BitBooleanArrays
  | [], _, indices, cache => (indices, cache)
  | byte :: bytes, iByte, indices, cache =>
    let booleansInByte := getUint8ByteToBitBooleanArray cache byte
    zipIndexesFrom indexes bytes (iByte + 1)
      ((List.range BITS_PER_BYTE).foldl (takeIndex indexes iByte booleansInByte.1) indices) booleansInByte.2

def zipIndexesTreeBacked (indexes : List Nat) (bits : TreeBacked) (cache : BitBooleanArrays) :
    (List Nat × List Nat) × BitBooleanArrays :=
  zipIndexesFrom indexes (bitsToUint8Array bits) 0 ([], []) cache

def zipIndexes (indexes : List Nat) (bitlist : BitArr) (cache : BitBooleanArrays) : (List Nat × List Nat) × BitBooleanArrays :=
  match bitlist with
  | .treeBacked bits => zipIndexesTreeBacked indexes bits cache
  | .struct bits => (StateTransition.zipIndexes indexes bits, cache)

/-! ## The single bit -/

def noteBit (index : Option Nat) (bit : Bool) (position : Nat) : Except AggregationBitsErrorCode (Option Nat) :=
  if bit then
    match index with
    | some _ => throw .NOT_EXACTLY_ONE_BIT_SET
    | none => pure (some position)
  else pure index

def noteByte (iByte : Nat) (booleansInByte : List Bool) (index : Option Nat) : Except AggregationBitsErrorCode (Option Nat) :=
  (List.range BITS_PER_BYTE).foldlM
    (fun index iBit => noteBit index (booleansInByte.getD iBit false) (iByte * BITS_PER_BYTE + iBit)) index

/-- The bytes from `iByte` on; a byte of zero is not looked up. -/
def singleBitFrom : List UInt8 → Nat → Option Nat → BitBooleanArrays →
    Except AggregationBitsErrorCode (Option Nat) × BitBooleanArrays
  | [], _, index, cache => (.ok index, cache)
  | byte :: bytes, iByte, index, cache =>
    if byte = 0 then singleBitFrom bytes (iByte + 1) index cache
    else
      let booleansInByte := getUint8ByteToBitBooleanArray cache byte
      match noteByte iByte booleansInByte.1 index with
      | .error e => (.error e, booleansInByte.2)
      | .ok index => singleBitFrom bytes (iByte + 1) index booleansInByte.2

def foundBit : Option Nat → Except AggregationBitsErrorCode Nat
  | none => throw .NOT_EXACTLY_ONE_BIT_SET
  | some index => pure index

def getSingleBitIndex (bits : BitArr) (cache : BitBooleanArrays) : Except AggregationBitsErrorCode Nat × BitBooleanArrays :=
  match bits with
  | .treeBacked bits =>
    let index := singleBitFrom (bitsToUint8Array bits) 0 none cache
    (index.1 >>= foundBit, index.2)
  | .struct bits => (bits.zipIdx.foldlM (fun index entry => noteBit index entry.1 entry.2) none >>= foundBit, cache)

/-! ## The table -/

theorem computeUint8ByteToBitBooleanArray_eq (byte : UInt8) : computeUint8ByteToBitBooleanArray byte = bitsOfByte byte := by
  have hall : ∀ n < 256, computeUint8ByteToBitBooleanArray (UInt8.ofNat n) = bitsOfByte (UInt8.ofNat n) := by decide +kernel
  have hbyte := hall byte.toNat byte.toNat_lt
  rwa [UInt8.ofNat_toNat] at hbyte

variable {cache : BitBooleanArrays}

theorem memoizes_getUint8ByteToBitBooleanArray (h : Memoizes computeUint8ByteToBitBooleanArray cache) (byte : UInt8) :
    Memoizes computeUint8ByteToBitBooleanArray (getUint8ByteToBitBooleanArray cache byte).2 := h.lookup byte

theorem memoizes_cacheAfter (asked : List UInt8) : Memoizes computeUint8ByteToBitBooleanArray (cacheAfter asked) := by
  have hfold : ∀ (asked : List UInt8) (cache : BitBooleanArrays), Memoizes computeUint8ByteToBitBooleanArray cache →
      Memoizes computeUint8ByteToBitBooleanArray
        (asked.foldl (fun cache byte => (getUint8ByteToBitBooleanArray cache byte).2) cache) := by
    intro asked
    induction asked with
    | nil => exact fun _ h => h
    | cons byte asked ih => exact fun cache h => ih _ (memoizes_getUint8ByteToBitBooleanArray h byte)
  exact hfold asked .empty (memoizes_empty _)

theorem getUint8ByteToBitBooleanArray_eq (h : Memoizes computeUint8ByteToBitBooleanArray cache) (byte : UInt8) :
    (getUint8ByteToBitBooleanArray cache byte).1 = bitsOfByte byte :=
  (lookup_value h byte).trans (computeUint8ByteToBitBooleanArray_eq byte)

/-! ## From bytes to bits -/

theorem zipIdx_flatMap_cons (byte : UInt8) (bytes : List UInt8) (iByte : Nat) :
    ((byte :: bytes).flatMap bitsOfByte).zipIdx (iByte * BITS_PER_BYTE) =
      (bitsOfByte byte).zipIdx (iByte * BITS_PER_BYTE) ++ (bytes.flatMap bitsOfByte).zipIdx ((iByte + 1) * BITS_PER_BYTE) := by
  rw [List.flatMap_cons, List.zipIdx_append, length_bitsOfByte, Nat.add_mul]
  rfl

def zipStep (indexes : List Nat) (indices : List Nat × List Nat) (entry : Bool × Nat) : List Nat × List Nat :=
  match indexes[entry.2]? with
  | none => indices
  | some committeeIndex =>
    if entry.1 then (indices.1 ++ [committeeIndex], indices.2) else (indices.1, indices.2 ++ [committeeIndex])

theorem zipIndexesFrom_eq (indexes : List Nat) : ∀ (bytes : List UInt8) (iByte : Nat) (indices : List Nat × List Nat)
    (cache : BitBooleanArrays), Memoizes computeUint8ByteToBitBooleanArray cache →
    (zipIndexesFrom indexes bytes iByte indices cache).1 =
      ((bytes.flatMap bitsOfByte).zipIdx (iByte * BITS_PER_BYTE)).foldl (zipStep indexes) indices
  | [], _, _, _, _ => rfl
  | byte :: bytes, iByte, indices, cache, h => by
    have hbits := getUint8ByteToBitBooleanArray_eq h byte
    have hbyte : (List.range BITS_PER_BYTE).foldl (takeIndex indexes iByte (bitsOfByte byte)) indices =
        ((bitsOfByte byte).zipIdx (iByte * BITS_PER_BYTE)).foldl (zipStep indexes) indices := by
      rfl
    unfold zipIndexesFrom
    dsimp only
    rw [hbits, zipIndexesFrom_eq indexes bytes (iByte + 1) _ _ (memoizes_getUint8ByteToBitBooleanArray h byte), hbyte,
      zipIdx_flatMap_cons, List.foldl_append]

theorem noteByte_eq (iByte : Nat) (byte : UInt8) (index : Option Nat) : noteByte iByte (bitsOfByte byte) index =
    ((bitsOfByte byte).zipIdx (iByte * BITS_PER_BYTE)).foldlM (fun index entry => noteBit index entry.1 entry.2) index := by
  rfl

theorem foldlM_noteBit_unset (extra start : Nat) (index : Option Nat) :
    ((List.replicate extra false).zipIdx start).foldlM (fun index entry => noteBit index entry.1 entry.2) index = .ok index := by
  induction extra generalizing start with
  | zero => rfl
  | succ extra ih =>
    exact ih (start + 1)

theorem singleBitFrom_eq : ∀ (bytes : List UInt8) (iByte : Nat) (index : Option Nat) (cache : BitBooleanArrays),
    Memoizes computeUint8ByteToBitBooleanArray cache → (singleBitFrom bytes iByte index cache).1 =
      ((bytes.flatMap bitsOfByte).zipIdx (iByte * BITS_PER_BYTE)).foldlM (fun index entry => noteBit index entry.1 entry.2) index
  | [], _, _, _, _ => rfl
  | byte :: bytes, iByte, index, cache, h => by
    rw [zipIdx_flatMap_cons, List.foldlM_append, ← noteByte_eq]
    unfold singleBitFrom
    by_cases hzero : byte = 0
    · have hnone : noteByte iByte (bitsOfByte byte) index = .ok index := by
        rw [noteByte_eq, hzero, bitsOfByte_zero]
        exact foldlM_noteBit_unset 8 _ index
      rw [if_pos hzero, hnone, singleBitFrom_eq bytes (iByte + 1) index cache h]
      rfl
    · dsimp only
      rw [if_neg hzero, getUint8ByteToBitBooleanArray_eq h byte]
      cases hnote : noteByte iByte (bitsOfByte byte) index with
      | error e => rfl
      | ok next => exact singleBitFrom_eq bytes (iByte + 1) next _ (memoizes_getUint8ByteToBitBooleanArray h byte)

/-! ## The plain path -/

variable {indexes : List Nat}

theorem foldl_zipStep_out (bits : List Bool) (start : Nat) (h : indexes.length ≤ start) (indices : List Nat × List Nat) :
    (bits.zipIdx start).foldl (zipStep indexes) indices = indices := by
  induction bits generalizing start with
  | nil => rfl
  | cons bit bits ih =>
    rw [List.zipIdx_cons, List.foldl_cons, show zipStep indexes indices (bit, start) = indices by simp [zipStep, h]]
    exact ih (start + 1) (by omega)

theorem foldl_zipStep_eq (before : List Nat) : ∀ (indexes : List Nat) (bits : List Bool) (indices : List Nat × List Nat),
    indexes.length = bits.length → (bits.zipIdx before.length).foldl (zipStep (before ++ indexes)) indices =
      (indices.1 ++ (StateTransition.zipIndexes indexes bits).1, indices.2 ++ (StateTransition.zipIndexes indexes bits).2) := by
  intro indexes
  induction indexes generalizing before with
  | nil =>
    intro bits indices hlen
    obtain rfl : bits = [] := List.length_eq_zero_iff.1 hlen.symm
    simp [StateTransition.zipIndexes]
  | cons index indexes ih =>
    intro bits indices hlen
    cases bits with
    | nil => cases hlen
    | cons bit bits =>
      have hrest := ih (before ++ [index]) bits
      have hstep : zipStep (before ++ index :: indexes) indices (bit, before.length) =
          if bit then (indices.1 ++ [index], indices.2) else (indices.1, indices.2 ++ [index]) := by
        simp [zipStep]
      rw [List.zipIdx_cons, List.foldl_cons, hstep]
      cases bit with
      | true => simpa [StateTransition.zipIndexes] using hrest (indices.1 ++ [index], indices.2) (by simpa using hlen)
      | false => simpa [StateTransition.zipIndexes] using hrest (indices.1, indices.2 ++ [index]) (by simpa using hlen)

theorem zipIndexes_eq_filter : ∀ (indexes : List Nat) (bits : List Bool), indexes.length = bits.length →
    StateTransition.zipIndexes indexes bits =
      (((indexes.zip bits).filter fun entry => entry.2).map Prod.fst, ((indexes.zip bits).filter fun entry => !entry.2).map Prod.fst)
  | [], _, _ => rfl
  | index :: indexes, [], h => by cases h
  | index :: indexes, bit :: bits, h => by
    have ih := zipIndexes_eq_filter indexes bits (by simpa using h)
    cases bit <;> simp [StateTransition.zipIndexes, ih]

def setPositions (bits : List Bool) (start : Nat) : List Nat := ((bits.zipIdx start).filter fun entry => entry.1).map Prod.snd

def settle : List Nat → Except AggregationBitsErrorCode (Option Nat)
  | [] => .ok none
  | [position] => .ok (some position)
  | _ => .error .NOT_EXACTLY_ONE_BIT_SET

theorem foldlM_noteBit (bits : List Bool) (start : Nat) (index : Option Nat) :
    (bits.zipIdx start).foldlM (fun index entry => noteBit index entry.1 entry.2) index =
      settle (index.toList ++ setPositions bits start) := by
  induction bits generalizing start index with
  | nil => cases index <;> rfl
  | cons bit bits ih =>
    cases bit with
    | false =>
      have hskip : setPositions (false :: bits) start = setPositions bits (start + 1) := by simp [setPositions]
      rw [hskip, ← ih]
      rfl
    | true =>
      cases index with
      | none => exact ih (start + 1) (some start)
      | some before => rfl

theorem settle_foundBit (positions : List Nat) :
    (∀ index, settle positions >>= foundBit = .ok index ↔ positions = [index]) ∧
    (settle positions >>= foundBit = .error .NOT_EXACTLY_ONE_BIT_SET ↔ positions.length ≠ 1) := by
  cases positions with
  | nil =>
    have hrun : settle [] >>= foundBit = .error .NOT_EXACTLY_ONE_BIT_SET := rfl
    simp [hrun]
  | cons first others =>
    cases others with
    | nil =>
      have hrun : settle [first] >>= foundBit = .ok first := rfl
      simp [hrun]
    | cons second others =>
      have hrun : settle (first :: second :: others) >>= foundBit = .error .NOT_EXACTLY_ONE_BIT_SET := rfl
      simp [hrun]

variable {bits : List Bool} {position : Nat}

theorem mem_setPositions : position ∈ setPositions bits 0 ↔ bits[position]? = some true := by
  unfold setPositions
  simp [List.mem_zipIdx_iff_getElem?]

theorem nodup_setPositions (bits : List Bool) : (setPositions bits 0).Nodup := by
  have hsub : (setPositions bits 0).Sublist (List.range' 0 bits.length) := by
    rw [← List.zipIdx_map_snd 0 bits]
    exact List.filter_sublist.map Prod.snd
  exact (List.nodup_range' 1).sublist hsub

theorem toFinset_setPositions (bits : List Bool) : (setPositions bits 0).toFinset = ones bits := by
  ext position
  rw [List.mem_toFinset, mem_setPositions, mem_ones]

theorem setPositions_eq_singleton_iff :
    setPositions bits 0 = [position] ↔ ones bits = {position} := by
  rw [← toFinset_setPositions]
  constructor
  · intro h
    simp [h]
  · intro h
    have hcard := List.toFinset_card_of_nodup (nodup_setPositions bits)
    rw [h, Finset.card_singleton] at hcard
    obtain ⟨only, honly⟩ := List.length_eq_one_iff.1 hcard.symm
    rw [honly] at h ⊢
    simpa using h

theorem getSingleBitIndex_struct (bits : List Bool) (cache : BitBooleanArrays) :
    (∀ index, (getSingleBitIndex (.struct bits) cache).1 = .ok index ↔ ones bits = {index}) ∧
    ((getSingleBitIndex (.struct bits) cache).1 = .error .NOT_EXACTLY_ONE_BIT_SET ↔ (ones bits).card ≠ 1) := by
  have hcard : (ones bits).card = (setPositions bits 0).length := by
    rw [← toFinset_setPositions]
    exact List.toFinset_card_of_nodup (nodup_setPositions bits)
  have hrun : (getSingleBitIndex (.struct bits) cache).1 = settle (setPositions bits 0) >>= foundBit := by
    dsimp only [getSingleBitIndex]
    rw [foldlM_noteBit]
    rfl
  simp only [hrun, hcard, ← setPositions_eq_singleton_iff]
  exact settle_foundBit _

/-! ## Both paths -/

/-- The tree holds the bits: their number, and the chunks of their bytes. -/
def TreeBacked.Packs (tree : TreeBacked) (bits : List Bool) : Prop :=
  tree.length = bits.length ∧ tree.chunks = pack (packBits bits)

theorem TreeBacked.Packs.bitsToUint8Array {tree : TreeBacked} (h : tree.Packs bits) :
    bitsToUint8Array tree = packBits bits := by
  unfold AggregationBits.bitsToUint8Array
  have htake := take_flatten_pack (packBits bits)
  rw [length_packBits] at htake
  rw [h.1, h.2]
  exact htake

/-- **The tree path does what the plain path does**, whatever bytes were looked up before: the zipped indices are those at set bits
and those at unset bits, and the single bit is found exactly where one bit is set. -/
theorem treeBacked_agrees {tree : TreeBacked} {bits : List Bool} (htree : tree.Packs bits) (asked : List UInt8) :
    (∀ indexes : List Nat, indexes.length = bits.length →
      (zipIndexes indexes (.treeBacked tree) (cacheAfter asked)).1 = (zipIndexes indexes (.struct bits) (cacheAfter asked)).1 ∧
      (zipIndexes indexes (.struct bits) (cacheAfter asked)).1 =
        (((indexes.zip bits).filter fun entry => entry.2).map Prod.fst,
          ((indexes.zip bits).filter fun entry => !entry.2).map Prod.fst)) ∧
    (getSingleBitIndex (.treeBacked tree) (cacheAfter asked)).1 = (getSingleBitIndex (.struct bits) (cacheAfter asked)).1 ∧
    (∀ index, (getSingleBitIndex (.struct bits) (cacheAfter asked)).1 = .ok index ↔ ones bits = {index}) ∧
    ((getSingleBitIndex (.struct bits) (cacheAfter asked)).1 = .error .NOT_EXACTLY_ONE_BIT_SET ↔ (ones bits).card ≠ 1) := by
  have hcache := memoizes_cacheAfter asked
  have hbits : ((bitsToUint8Array tree).flatMap bitsOfByte).zipIdx (0 * BITS_PER_BYTE) =
      bits.zipIdx ++ (List.replicate (8 * ((bits.length + 7) / 8) - bits.length) false).zipIdx bits.length := by
    rw [htree.bitsToUint8Array, flatMap_bitsOfByte_packBits, Nat.zero_mul, List.zipIdx_append, Nat.zero_add]
  refine ⟨?_, ?_, getSingleBitIndex_struct bits _⟩
  · intro indexes hlen
    refine ⟨?_, zipIndexes_eq_filter indexes bits hlen⟩
    have hplain := foldl_zipStep_eq [] indexes bits ([], []) hlen
    have htreeRun := zipIndexesFrom_eq indexes (bitsToUint8Array tree) 0 ([], []) (cacheAfter asked) hcache
    rw [hbits, List.foldl_append, foldl_zipStep_out _ _ (Nat.le_of_eq hlen)] at htreeRun
    exact htreeRun.trans hplain
  · have htreeRun := singleBitFrom_eq (bitsToUint8Array tree) 0 none (cacheAfter asked) hcache
    have hplain : ∀ index, ((List.replicate (8 * ((bits.length + 7) / 8) - bits.length) false).zipIdx bits.length).foldlM
        (fun index entry => noteBit index entry.1 entry.2) index = .ok index := foldlM_noteBit_unset _ _
    rw [hbits, List.foldlM_append] at htreeRun
    simp only [hplain] at htreeRun
    have hend : (singleBitFrom (bitsToUint8Array tree) 0 none (cacheAfter asked)).1 =
        bits.zipIdx.foldlM (fun index entry => noteBit index entry.1 entry.2) none := by
      rw [htreeRun]
      exact bind_pure _
    unfold getSingleBitIndex
    dsimp only
    rw [hend]

theorem treeBacked_agrees_ten :
    (zipIndexes [4, 7, 1, 3, 9, 8, 6, 2, 5, 0] (.treeBacked ⟨10, [[32, 2] ++ List.replicate 30 0]⟩) (cacheAfter [2])).1 =
      ([8, 0], [4, 7, 1, 3, 9, 6, 2, 5]) := by
  have hpacks : (TreeBacked.mk 10 [[32, 2] ++ List.replicate 30 0]).Packs
      [false, false, false, false, false, true, false, false, false, true] := ⟨rfl, by decide⟩
  have hboth := (treeBacked_agrees hpacks [2]).1 [4, 7, 1, 3, 9, 8, 6, 2, 5, 0] rfl
  exact hboth.1.trans hboth.2

end AggregationBits

end Lodestar.StateTransition
