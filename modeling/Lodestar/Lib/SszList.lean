import Mathlib.Data.List.GetD
import Mathlib.Data.Nat.Log
import Mathlib.Data.Nat.Init
import Lodestar.Lib.MerkleTree
import Lodestar.Lib.Tiles
/-!
# SszList — lists of basic values and of bits in a merkle tree

The values of a basic type are serialized one after the other, cut into chunks of 32 bytes, and the last chunk is filled up with
zeros.  The chunks are the leaves of a perfect tree, beside which the number of values stands.  `decode` reads such a tree.

Eight bits fill a byte, the first of them its lowest, and the last byte is filled up with unset bits.
-/
namespace Lib.SszList

/-! ## Bytes -/

def leBytes : Nat → Nat → List UInt8
  | 0, _ => []
  | count + 1, n => UInt8.ofNat n :: leBytes count (n / 256)

def ofLeBytes : List UInt8 → Nat
  | [] => 0
  | byte :: bytes => byte.toNat + 256 * ofLeBytes bytes

@[simp] theorem length_leBytes (count n : Nat) : (leBytes count n).length = count := by
  induction count generalizing n with
  | zero => rfl
  | succ count ih => rw [leBytes, List.length_cons, ih]

theorem ofLeBytes_leBytes (count n : Nat) : ofLeBytes (leBytes count n) = n % 256 ^ count := by
  induction count generalizing n with
  | zero => rw [Nat.pow_zero, Nat.mod_one]; rfl
  | succ count ih =>
    rw [leBytes, ofLeBytes, ih, Nat.pow_succ', Nat.mod_mul, UInt8.toNat_ofNat']

structure Basic (α : Type) where
  size : Nat
  serialize : α → List UInt8
  deserialize : List UInt8 → α
  length_serialize : ∀ value, (serialize value).length = size
  deserialize_serialize : ∀ value, deserialize (serialize value) = value

def uint8 : Basic UInt8 where
  size := 1
  serialize value := [value]
  deserialize bytes := bytes.headD 0
  length_serialize _ := rfl
  deserialize_serialize _ := rfl

def uint64 : Basic UInt64 where
  size := 8
  serialize value := leBytes 8 value.toNat
  deserialize bytes := UInt64.ofNat (ofLeBytes bytes)
  length_serialize value := length_leBytes 8 value.toNat
  deserialize_serialize value := by
    have hlt := value.toNat_lt
    rw [ofLeBytes_leBytes, Nat.mod_eq_of_lt (by omega), UInt64.ofNat_toNat]

/-! ## Trees -/

inductive Node
  | leaf (chunk : List UInt8)
  | branch (left right : Node)
deriving DecidableEq

def zeroChunk : List UInt8 := List.replicate 32 0

def chunksTree (depth : Nat) (chunks : List (List UInt8)) : Node :=
  MerkleTree.root .branch (.leaf zeroChunk) depth (chunks.map .leaf)

def chunkAt (bytes : List UInt8) (j : Nat) : List UInt8 := (List.range 32).map fun k => bytes.getD (32 * j + k) 0

def pack (bytes : List UInt8) : List (List UInt8) := (List.range ((bytes.length + 31) / 32)).map (chunkAt bytes)

variable {α : Type} (basic : Basic α)

def bytesOf (values : List α) : List UInt8 := values.flatMap basic.serialize

def lengthLeaf (n : Nat) : Node := .leaf (leBytes 32 n)

/-- The tree of a list whose chunks fill a tree of the depth at most. -/
def listTree (depth : Nat) (values : List α) : Node :=
  .branch (chunksTree depth (pack (bytesOf basic values))) (lengthLeaf values.length)

def contentDepth (limit : Nat) : Nat := Nat.clog 2 ((limit * basic.size + 31) / 32)

/-! ## Reading -/

def leafAt : Nat → Nat → Node → List UInt8
  | 0, _, .leaf chunk => chunk
  | depth + 1, j, .branch left right => if j < 2 ^ depth then leafAt depth j left else leafAt depth (j - 2 ^ depth) right
  | _, _, _ => []

def byteAt (depth : Nat) (content : Node) (position : Nat) : UInt8 := (leafAt depth (position / 32) content).getD (position % 32) 0

def elementAt (depth : Nat) (content : Node) (i : Nat) : α :=
  basic.deserialize ((List.range basic.size).map fun k => byteAt depth content (i * basic.size + k))

def decode (depth : Nat) : Node → List α
  | .branch content (.leaf length) => (List.range (ofLeBytes length)).map (elementAt basic depth content)
  | _ => []

/-! ## Reading what was written -/

variable {basic}

theorem chunksTree_succ (depth : Nat) (chunks : List (List UInt8)) : chunksTree (depth + 1) chunks =
    .branch (chunksTree depth (chunks.take (2 ^ depth))) (chunksTree depth (chunks.drop (2 ^ depth))) := by
  unfold chunksTree
  rw [MerkleTree.root_succ, List.map_take, List.map_drop]

variable {depth : Nat}

theorem chunksTree_succ_of_le {chunks : List (List UInt8)} (h : chunks.length ≤ 2 ^ depth) :
    chunksTree (depth + 1) chunks = .branch (chunksTree depth chunks) (chunksTree depth []) := by
  rw [chunksTree_succ, List.take_of_length_le h, List.drop_eq_nil_of_le h]

theorem leafAt_chunksTree (depth : Nat) (chunks : List (List UInt8)) (j : Nat) (hj : j < 2 ^ depth) :
    leafAt depth j (chunksTree depth chunks) = chunks.getD j zeroChunk := by
  induction depth generalizing chunks j with
  | zero =>
    obtain rfl : j = 0 := by omega
    cases chunks with
    | nil => rfl
    | cons chunk chunks => rfl
  | succ depth ih =>
    rw [chunksTree_succ]
    unfold leafAt
    split
    · rename_i hleft
      rw [ih _ j hleft, List.getD_eq_getElem?_getD, List.getD_eq_getElem?_getD, List.getElem?_take_of_lt hleft]
    · rename_i hright
      rw [ih _ _ (by omega), List.getD_eq_getElem?_getD, List.getD_eq_getElem?_getD, List.getElem?_drop,
        Nat.add_sub_cancel' (by omega)]

@[simp] theorem length_chunkAt (bytes : List UInt8) (j : Nat) : (chunkAt bytes j).length = 32 := by
  rw [chunkAt, List.length_map, List.length_range]

variable {bytes : List UInt8}

theorem getElem_chunkAt {j k : Nat} (hk : k < (chunkAt bytes j).length) :
    (chunkAt bytes j)[k] = bytes.getD (32 * j + k) 0 := by
  simp [chunkAt]

theorem getD_chunkAt (bytes : List UInt8) (j k : Nat) (hk : k < 32) : (chunkAt bytes j).getD k 0 = bytes.getD (32 * j + k) 0 := by
  unfold chunkAt
  rw [List.getD_eq_getElem?_getD, List.getElem?_map, List.getElem?_range hk]
  rfl

theorem getD_of_le {position : Nat} (h : bytes.length ≤ position) : bytes.getD position 0 = 0 := by
  rw [List.getD_eq_getElem?_getD, List.getElem?_eq_none h]
  rfl

theorem byteAt_pack (bytes : List UInt8) (position : Nat) (h : position < 32 * 2 ^ depth) :
    byteAt depth (chunksTree depth (pack bytes)) position = bytes.getD position 0 := by
  unfold byteAt
  rw [leafAt_chunksTree _ _ _ (by omega)]
  have hk : position % 32 < 32 := Nat.mod_lt _ (by decide)
  have hposition := Nat.div_add_mod position 32
  by_cases hj : position / 32 < (bytes.length + 31) / 32
  · have hsome : (pack bytes).getD (position / 32) zeroChunk = chunkAt bytes (position / 32) := by
      rw [pack, List.getD_eq_getElem?_getD, List.getElem?_map, List.getElem?_range hj]
      rfl
    rw [hsome, getD_chunkAt bytes _ _ hk, hposition]
  · have hnone : (pack bytes).getD (position / 32) zeroChunk = zeroChunk := by
      rw [pack, List.getD_eq_getElem?_getD, List.getElem?_eq_none (by rw [List.length_map, List.length_range]; omega)]
      rfl
    have hzero : zeroChunk.getD (position % 32) 0 = 0 := by
      rw [zeroChunk, List.getD_eq_getElem?_getD, List.getElem?_replicate, if_pos hk]
      rfl
    rw [hnone, hzero, getD_of_le (by omega)]

theorem getD_bytesOf (values : List α) (i k : Nat) (value : α) (h : values[i]? = some value) (hk : k < basic.size) :
    (bytesOf basic values).getD (i * basic.size + k) 0 = (basic.serialize value).getD k 0 := by
  induction values generalizing i with
  | nil => cases h
  | cons first values ih =>
    have hlen := basic.length_serialize first
    unfold bytesOf at ih ⊢
    rw [List.flatMap_cons]
    cases i with
    | zero =>
      cases h
      rw [Nat.zero_mul, Nat.zero_add, List.getD_append _ _ _ _ (by omega)]
    | succ i =>
      rw [List.getD_append_right _ _ _ _ (by rw [hlen, Nat.add_mul]; omega), hlen]
      rw [show (i + 1) * basic.size + k - basic.size = i * basic.size + k by rw [Nat.add_mul, Nat.one_mul]; omega]
      exact ih i h

theorem length_bytesOf (values : List α) : (bytesOf basic values).length = values.length * basic.size := by
  unfold bytesOf
  induction values with
  | nil => simp
  | cons value values ih =>
    rw [List.flatMap_cons, List.length_append, ih, basic.length_serialize, List.length_cons, Nat.add_mul, Nat.one_mul, Nat.add_comm]

theorem length_pack (bytes : List UInt8) : (pack bytes).length = (bytes.length + 31) / 32 := by
  rw [pack, List.length_map, List.length_range]

variable {values : List α} {limit : Nat}

theorem length_pack_le (h : values.length ≤ limit) :
    (pack (bytesOf basic values)).length ≤ 2 ^ contentDepth basic limit := by
  rw [length_pack, length_bytesOf]
  have hle : values.length * basic.size ≤ limit * basic.size := Nat.mul_le_mul_right _ h
  exact Nat.le_trans (Nat.div_le_div_right (by omega)) (Nat.le_pow_clog (by decide) _)

theorem decode_listTree (hlimit : limit < 256 ^ 32) (h : values.length ≤ limit) :
    decode basic (contentDepth basic limit) (listTree basic (contentDepth basic limit) values) = values := by
  unfold listTree lengthLeaf
  rw [decode, ofLeBytes_leBytes, Nat.mod_eq_of_lt (Nat.lt_of_le_of_lt h hlimit)]
  refine List.ext_getElem (by rw [List.length_map, List.length_range]) fun i hi hi' => ?_
  rw [List.getElem_map, List.getElem_range]
  have hvalue : values[i]? = some values[i] := List.getElem?_eq_getElem hi'
  unfold elementAt
  have hbytes : (List.range basic.size).map (fun k => byteAt (contentDepth basic limit)
      (chunksTree (contentDepth basic limit) (pack (bytesOf basic values))) (i * basic.size + k)) = basic.serialize values[i] := by
    refine List.ext_getElem (by rw [List.length_map, List.length_range, basic.length_serialize]) fun k hk hk' => ?_
    rw [List.getElem_map, List.getElem_range]
    rw [List.length_map, List.length_range] at hk
    have hfit : (pack (bytesOf basic values)).length ≤ 2 ^ contentDepth basic limit := length_pack_le h
    rw [length_pack, length_bytesOf] at hfit
    have hrow : (i + 1) * basic.size ≤ values.length * basic.size := Nat.mul_le_mul_right _ hi'
    rw [Nat.add_mul, Nat.one_mul] at hrow
    rw [byteAt_pack _ _ (by omega), getD_bytesOf values i k _ hvalue hk, List.getD_eq_getElem _ _ hk']
  rw [hbytes, basic.deserialize_serialize]

/-! ## Bits in bytes, bytes in chunks -/

section Bits

def bitsOfByte (byte : UInt8) : List Bool := (List.range 8).map byte.toNat.testBit

section

variable (bits : List Bool)

def byteOfBits (j : Nat) : UInt8 := UInt8.ofNat (Nat.ofBits fun k : Fin 8 => bits.getD (8 * j + k) false)

def packBits : List UInt8 := (List.range ((bits.length + 7) / 8)).map (byteOfBits bits)

@[simp] theorem length_bitsOfByte (byte : UInt8) : (bitsOfByte byte).length = 8 := by
  simp [bitsOfByte]

@[simp] theorem length_packBits : (packBits bits).length = (bits.length + 7) / 8 := by
  simp [packBits]

theorem bitsOfByte_zero : bitsOfByte 0 = List.replicate 8 false := by decide

theorem flatMap_rows {α : Type} (f : Nat → α) (rows width : Nat) :
    (List.range rows).flatMap (fun j => (List.range width).map fun k => f (width * j + k)) = (List.range (width * rows)).map f := by
  have hgrid := flatMap_grid (fun i => [f i]) rows width
  simp only [← List.map_eq_flatMap] at hgrid
  rw [Nat.mul_comm width rows, ← hgrid]
  simp only [Nat.mul_comm width]

theorem map_getD_range {α : Type} (l : List α) (d : α) (extra : Nat) :
    (List.range (l.length + extra)).map (fun i => l.getD i d) = l ++ List.replicate extra d := by
  apply List.ext_getElem?
  intro i
  by_cases hi : i < l.length
  · rw [List.getElem?_append_left hi, List.getElem?_map, List.getElem?_range (by omega)]
    simp [hi]
  · rw [List.getElem?_append_right (by omega), List.getElem?_replicate, List.getElem?_map]
    by_cases hextra : i < l.length + extra
    · rw [List.getElem?_range hextra, if_pos (by omega)]
      simp [Nat.le_of_not_lt hi]
    · rw [List.getElem?_eq_none (by simpa using hextra), if_neg (by omega)]
      rfl

theorem bitsOfByte_byteOfBits (j : Nat) :
    bitsOfByte (byteOfBits bits j) = (List.range 8).map fun k => bits.getD (8 * j + k) false := by
  unfold bitsOfByte byteOfBits
  have hlt := Nat.ofBits_lt_two_pow fun k : Fin 8 => bits.getD (8 * j + k) false
  rw [UInt8.toNat_ofNat', Nat.mod_eq_of_lt hlt]
  apply List.map_congr_left
  intro k hk
  rw [Nat.testBit_ofBits_lt _ _ (List.mem_range.1 hk)]

theorem flatMap_bitsOfByte_packBits :
    (packBits bits).flatMap bitsOfByte = bits ++ List.replicate (8 * ((bits.length + 7) / 8) - bits.length) false := by
  unfold packBits
  rw [List.flatMap_map]
  simp only [bitsOfByte_byteOfBits]
  rw [flatMap_rows fun i => bits.getD i false]
  have hlen : 8 * ((bits.length + 7) / 8) = bits.length + (8 * ((bits.length + 7) / 8) - bits.length) := by omega
  rw [hlen, map_getD_range, Nat.add_sub_cancel_left]

end

theorem take_flatten_pack (bytes : List UInt8) : (pack bytes).flatten.take bytes.length = bytes := by
  have hrows : (pack bytes).flatten = (List.range (32 * ((bytes.length + 31) / 32))).map fun i => bytes.getD i 0 := by
    unfold pack chunkAt
    rw [← List.flatMap_def, flatMap_rows fun i => bytes.getD i 0]
  have hlen : 32 * ((bytes.length + 31) / 32) = bytes.length + (32 * ((bytes.length + 31) / 32) - bytes.length) := by omega
  rw [hrows, hlen, map_getD_range, List.take_left]

end Bits

end Lib.SszList
