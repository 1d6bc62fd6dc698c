import Mathlib.Order.Lattice
import Mathlib.Algebra.Group.Nat.Defs
import Mathlib.Data.List.Lex
import Mathlib.Data.List.Induction
import Mathlib.Order.Basic
import Mathlib.Data.Vector.Defs
import Mathlib.Tactic.IntervalCases
/-!
# Numerals — numbers and bytes as bytes and as text

`BigEndian` writes a number in a fixed width, the most significant byte first, and byte strings are compared byte by byte, a proper
start of a string before the string.  `Varint` writes it in groups of seven bits, the least significant first, and every byte but
the last has its top bit set; a reader stops at the first byte without it.  `Decimal` reads a number back from its digits.  `Hex`
writes bytes, two digits each, after `0x`; it reads digits of either case, with the mark or without.
-/
/-! ## Bytes of a fixed width -/

namespace Lib.BigEndian

scoped instance linearOrderUInt8 : LinearOrder UInt8 where
  le_refl := UInt8.le_refl
  le_trans _ _ _ := UInt8.le_trans
  lt_iff_le_not_ge a b := by rw [UInt8.lt_iff_toNat_lt, UInt8.le_iff_toNat_le, UInt8.le_iff_toNat_le]; omega
  le_antisymm _ _ := UInt8.le_antisymm
  le_total := UInt8.le_total
  toDecidableLE := inferInstance
  toDecidableEq := inferInstance
  toDecidableLT := inferInstance

def encode : Nat → Nat → List UInt8
  | 0, _ => []
  | width + 1, n => encode width (n / 256) ++ [UInt8.ofNat n]

def decode (bytes : List UInt8) : Nat := bytes.foldl (fun n byte => n * 256 + byte.toNat) 0

theorem decode_append (bytes : List UInt8) (byte : UInt8) : decode (bytes ++ [byte]) = decode bytes * 256 + byte.toNat := by
  unfold decode
  rw [List.foldl_append]
  rfl

theorem decode_encode : ∀ {width n : Nat}, n < 256 ^ width → decode (encode width n) = n
  | 0, n, h => by
    have hn : n = 0 := by simpa using h
    rw [hn]
    rfl
  | width + 1, n, h => by
    have hdiv : n / 256 < 256 ^ width := by
      rw [Nat.div_lt_iff_lt_mul (by decide), ← Nat.pow_succ]
      exact h
    rw [encode, decode_append, decode_encode hdiv, UInt8.toNat_ofNat']
    omega

variable {width n n' : Nat}

theorem encode_inj (hn : n < 256 ^ width) (hn' : n' < 256 ^ width) (h : encode width n = encode width n') : n = n' := by
  rw [← decode_encode hn, ← decode_encode hn', h]

/-! ## Order -/

theorem length_encode : ∀ width n, (encode width n).length = width
  | 0, _ => rfl
  | width + 1, n => by
    rw [encode, List.length_append, length_encode width, List.length_singleton]

theorem decode_cons (byte : UInt8) (bytes : List UInt8) :
    decode (byte :: bytes) = byte.toNat * 256 ^ bytes.length + decode bytes := by
  induction bytes using List.reverseRecOn with
  | nil => simp [decode]
  | append_singleton bytes last ih =>
    rw [← List.cons_append, decode_append, decode_append, ih, List.length_append, List.length_singleton, Nat.pow_succ,
      Nat.add_mul, Nat.mul_assoc, Nat.add_assoc]

theorem decode_lt : ∀ bytes : List UInt8, decode bytes < 256 ^ bytes.length
  | [] => by decide
  | byte :: bytes => by
    have hrest := decode_lt bytes
    have hbyte : byte.toNat + 1 ≤ 256 := byte.toNat_lt
    have hmul := Nat.mul_le_mul_right (256 ^ bytes.length) hbyte
    rw [Nat.add_mul, Nat.one_mul] at hmul
    rw [decode_cons, List.length_cons, Nat.pow_succ, Nat.mul_comm (256 ^ bytes.length)]
    omega

theorem lt_iff_decode_lt : ∀ {l l' : List UInt8}, l.length = l'.length → (l < l' ↔ decode l < decode l')
  | [], [], _ => by simp
  | a :: l, b :: l', h => by
    have hlength : l.length = l'.length := Nat.succ.inj h
    have hl := decode_lt l
    have hl' := decode_lt l'
    rw [← hlength] at hl'
    -- a lower first byte outweighs the rest
    have hfirst : ∀ {m n : Nat} {s t : List UInt8}, m < n → decode s < 256 ^ l.length →
        m * 256 ^ l.length + decode s < n * 256 ^ l.length + decode t := by
      intro m n s t hlt hs
      have hmul := Nat.mul_le_mul_right (256 ^ l.length) (Nat.succ_le_of_lt hlt)
      rw [Nat.succ_eq_add_one, Nat.add_mul, Nat.one_mul] at hmul
      omega
    rw [List.cons_lt_cons_iff, lt_iff_decode_lt hlength, decode_cons, decode_cons, ← hlength, UInt8.lt_iff_toNat_lt]
    constructor
    · rintro (hlt | ⟨rfl, hlt⟩)
      · exact hfirst hlt hl
      · exact Nat.add_lt_add_left hlt _
    · intro hlt
      rcases Nat.lt_trichotomy a.toNat b.toNat with hab | hab | hab
      · exact .inl hab
      · rw [hab] at hlt
        exact .inr ⟨UInt8.toNat_inj.1 hab, Nat.lt_of_add_lt_add_left hlt⟩
      · exact absurd (hfirst hab hl') (Nat.lt_asymm hlt)

theorem encode_lt_iff (hn : n < 256 ^ width) (hn' : n' < 256 ^ width) :
    encode width n < encode width n' ↔ n < n' := by
  rw [lt_iff_decode_lt (by rw [length_encode, length_encode]), decode_encode hn, decode_encode hn']

theorem append_lt_append_iff {α : Type} [LinearOrder α] : ∀ {a b x y : List α}, a.length = b.length →
    (a ++ x < b ++ y ↔ a < b ∨ a = b ∧ x < y)
  | [], [], x, y, _ => by simp
  | c :: a, d :: b, x, y, h => by
    have hlength : a.length = b.length := Nat.succ.inj h
    rw [List.cons_append, List.cons_append, List.cons_lt_cons_iff, List.cons_lt_cons_iff, append_lt_append_iff hlength,
      List.cons.injEq]
    tauto

end Lib.BigEndian

/-! ## Groups of seven bits -/

namespace Lib.Varint

def encode (n : Nat) : List UInt8 :=
  if n < 128 then [UInt8.ofNat n] else UInt8.ofNat (n % 128 + 128) :: encode (n / 128)

/-- The number at the front of some bytes and how many of them it takes. -/
def decode : List UInt8 → Except String (Nat × Nat)
  | [] => .error "Could not decode varint"
  | byte :: bytes =>
    if byte.toNat < 128 then .ok (byte.toNat, 1)
    else
      match decode bytes with
      | .error error => .error error
      | .ok (value, used) => .ok (byte.toNat - 128 + 128 * value, used + 1)

theorem decode_cons_ok {byte : UInt8} {bytes : List UInt8} {value used : Nat}
    (h : decode (byte :: bytes) = .ok (value, used)) :
    (byte.toNat < 128 ∧ value = byte.toNat ∧ used = 1) ∨
    ∃ value' used', ¬ byte.toNat < 128 ∧ decode bytes = .ok (value', used') ∧ value = byte.toNat - 128 + 128 * value' ∧
      used = used' + 1 := by
  rw [decode] at h
  split at h
  · rename_i hlt
    cases h
    exact .inl ⟨hlt, rfl, rfl⟩
  · rename_i hge
    split at h
    · cases h
    · rename_i value' used' htail
      cases h
      exact .inr ⟨value', used', hge, htail, rfl, rfl⟩

theorem decode_used : ∀ {bytes : List UInt8} {value used : Nat}, decode bytes = .ok (value, used) →
    0 < used ∧ used ≤ bytes.length
  | [], _, _, h => by cases h
  | byte :: bytes, value, used, h => by
    rcases decode_cons_ok h with ⟨-, -, rfl⟩ | ⟨value', used', -, htail, -, rfl⟩
    · simp
    · have ih := decode_used htail
      rw [List.length_cons]
      omega

/-- **A number is read from its own bytes, whatever follows them.** -/
theorem decode_front : ∀ {bytes : List UInt8} {value used : Nat}, decode bytes = .ok (value, used) →
    ∀ rest, decode (bytes.take used ++ rest) = .ok (value, used)
  | [], _, _, h, _ => by cases h
  | byte :: bytes, value, used, h, rest => by
    rcases decode_cons_ok h with ⟨hlt, rfl, rfl⟩ | ⟨value', used', hge, htail, rfl, rfl⟩
    · simp [decode, hlt]
    · have ih := decode_front htail rest
      rw [List.take_succ_cons, List.cons_append, decode, if_neg hge, ih]

theorem length_encode_le {n k : Nat} (h : n < 128 ^ (k + 1)) : (encode n).length ≤ k + 1 := by
  induction k generalizing n with
  | zero =>
    rw [encode, if_pos (by omega)]
    exact Nat.le_refl 1
  | succ k ih =>
    rw [encode]
    split
    · simp
    · have hdiv : n / 128 < 128 ^ (k + 1) := by
        exact Nat.div_lt_of_lt_mul (by rw [Nat.mul_comm]; exact h)
      have hle := ih hdiv
      rw [List.length_cons]
      omega

theorem decode_encode (n : Nat) : decode (encode n) = .ok (n, (encode n).length) := by
  fun_induction encode n with
  | case1 n hlt =>
    have hbyte : (UInt8.ofNat n).toNat = n := UInt8.toNat_ofNat_of_lt (Nat.lt_trans hlt (by decide))
    rw [decode, hbyte, if_pos hlt]
    rfl
  | case2 n hge ih =>
    have hbyte : (UInt8.ofNat (n % 128 + 128)).toNat = n % 128 + 128 :=
      UInt8.toNat_ofNat_of_lt (show n % 128 + 128 < 256 by omega)
    rw [decode, hbyte, if_neg (by omega), ih]
    have hvalue : n % 128 + 128 - 128 + 128 * (n / 128) = n := by omega
    simp only [hvalue, List.length_cons]

end Lib.Varint

/-! ## Decimal text -/

namespace Lib.Decimal

variable {n n' : Nat}

theorem toDigits_inj (h : Nat.toDigits 10 n = Nat.toDigits 10 n') : n = n' := by
  rw [← @Nat.ofDigitChars_ten_toDigits n, h, Nat.ofDigitChars_ten_toDigits]

theorem toString_inj (h : toString n = toString n') : n = n' := by
  refine toDigits_inj ?_
  rw [← Nat.toList_repr, ← Nat.toList_repr]
  exact congrArg String.toList h

theorem isDigit_of_mem_toDigits {c : Char} (h : c ∈ Nat.toDigits 10 n) : c.isDigit = true :=
  Nat.isDigit_of_mem_toDigits (by decide) (by decide) h

end Lib.Decimal

/-! ## Hexadecimal text -/

namespace Lib.Hex

def digit (n : Nat) : Char := if n < 10 then Char.ofNat ('0'.toNat + n) else Char.ofNat ('a'.toNat + (n - 10))

def ofByte (byte : UInt8) : List Char := [digit (byte.toNat / 16), digit (byte.toNat % 16)]

def ofBytes (bytes : List UInt8) : String := String.ofList ('0' :: 'x' :: bytes.flatMap ofByte)

def value (c : Char) : Option Nat :=
  if '0' ≤ c ∧ c ≤ '9' then some (c.toNat - '0'.toNat)
  else if 'a' ≤ c ∧ c ≤ 'f' then some (c.toNat - 'a'.toNat + 10)
  else if 'A' ≤ c ∧ c ≤ 'F' then some (c.toNat - 'A'.toNat + 10)
  else none

def bytesOf : List Char → Option (List UInt8)
  | [] => some []
  | [_] => none
  | c :: d :: cs => do
    let high ← value c
    let low ← value d
    let bytes ← bytesOf cs
    some (UInt8.ofNat (16 * high + low) :: bytes)

def toBytes (text : String) : Option (List UInt8) :=
  match text.toList with
  | '0' :: 'x' :: cs => bytesOf cs
  | cs => bytesOf cs

variable {n : Nat}

theorem value_digit (h : n < 16) : value (digit n) = some n := by
  interval_cases n <;> decide

theorem bytesOf_flatMap : ∀ bytes : List UInt8, bytesOf (bytes.flatMap ofByte) = some bytes
  | [] => rfl
  | byte :: bytes => by
    have hlt : byte.toNat < 256 := byte.toNat_lt
    have hhigh : value (digit (byte.toNat / 16)) = some (byte.toNat / 16) := value_digit (by omega)
    have hlow : value (digit (byte.toNat % 16)) = some (byte.toNat % 16) := value_digit (by omega)
    have hbyte : UInt8.ofNat (16 * (byte.toNat / 16) + byte.toNat % 16) = byte := by
      rw [Nat.div_add_mod, UInt8.ofNat_toNat]
    show bytesOf (digit (byte.toNat / 16) :: digit (byte.toNat % 16) :: bytes.flatMap ofByte) = _
    rw [bytesOf, hhigh, hlow, bytesOf_flatMap bytes]
    simp only [Option.bind_eq_bind, Option.bind_some]
    rw [hbyte]

theorem toBytes_ofBytes (bytes : List UInt8) : toBytes (ofBytes bytes) = some bytes := by
  unfold toBytes ofBytes
  rw [String.toList_ofList]
  exact bytesOf_flatMap bytes

theorem ofBytes_ne_empty (bytes : List UInt8) : ofBytes bytes ≠ "" := by
  intro h
  have hlist := congrArg String.toList h
  unfold ofBytes at hlist
  rw [String.toList_ofList] at hlist
  cases hlist

def toVector (n : Nat) (text : String) : Option (Vector UInt8 n) :=
  (toBytes text).bind fun bytes => if h : bytes.length = n then some ⟨bytes.toArray, by simpa using h⟩ else none

theorem toVector_ofBytes (bytes : Vector UInt8 n) : toVector n (ofBytes bytes.toList) = some bytes := by
  unfold toVector
  rw [toBytes_ofBytes]
  simp [Vector.toList]

/-! ## Numbers -/

/-- `n.toString(16)`. -/
def ofNat (n : Nat) : String := String.ofList (Nat.toDigits 16 n)

def readDigits (digits : List Char) : Nat := digits.foldl (fun n c => 16 * n + (value c).getD 0) 0

theorem value_digitChar (h : n < 16) : value n.digitChar = some n := by
  interval_cases n <;> decide

theorem readDigits_toDigits (n : Nat) : readDigits (Nat.toDigits 16 n) = n := by
  induction n using Nat.strongRecOn with
  | ind n ih =>
    by_cases h : n < 16
    · rw [Nat.toDigits_of_lt_base h]
      simp [readDigits, value_digitChar h]
    · rw [Nat.toDigits_of_base_le (by decide) (by omega)]
      have hrest := ih (n / 16) (by omega)
      unfold readDigits at hrest ⊢
      rw [List.foldl_append, hrest]
      simp only [List.foldl_cons, List.foldl_nil, value_digitChar (Nat.mod_lt n (by decide : 0 < 16)), Option.getD_some]
      omega

theorem toDigits_inj {m n : Nat} (h : Nat.toDigits 16 m = Nat.toDigits 16 n) : m = n := by
  rw [← readDigits_toDigits m, h, readDigits_toDigits]

theorem ofBytes_inj {bytes bytes' : List UInt8} (h : ofBytes bytes = ofBytes bytes') : bytes = bytes' := by
  have hread := toBytes_ofBytes bytes
  rw [h, toBytes_ofBytes, Option.some.injEq] at hread
  exact hread.symm

theorem length_ofBytes (bytes : List UInt8) : (ofBytes bytes).toList.length = 2 + 2 * bytes.length := by
  unfold ofBytes
  rw [String.toList_ofList, List.length_cons, List.length_cons, List.length_flatMap]
  have htwo : bytes.map (fun byte => (ofByte byte).length) = List.replicate bytes.length 2 := List.map_eq_replicate_iff.2 fun _ _ => rfl
  rw [htwo, List.sum_replicate_nat]
  omega

end Lib.Hex

namespace Lib

/-- `toHexString` and `fromHexString`, the latter for a field of `n` bytes. -/
structure HexCodec where
  toHexString : List UInt8 → String
  fromHexString : (n : Nat) → String → Except String (Vector UInt8 n)
  toHexString_ne_empty : ∀ bytes, toHexString bytes ≠ ""
  fromHexString_toHexString : ∀ n (bytes : Vector UInt8 n), fromHexString n (toHexString bytes.toList) = .ok bytes

namespace HexCodec

variable (codec : HexCodec)

def toHexRoot (root : Vector UInt8 32) : String := codec.toHexString root.toList

/-- The root of a text that `toHexRoot` wrote. -/
def ofHexRoot (text : String) : Vector UInt8 32 := (codec.fromHexString 32 text).toOption.getD (Vector.replicate 32 0)

theorem ofHexRoot_toHexRoot (root : Vector UInt8 32) : codec.ofHexRoot (codec.toHexRoot root) = root := by
  unfold ofHexRoot toHexRoot
  rw [codec.fromHexString_toHexString]
  rfl

end HexCodec

def hexCodec : HexCodec where
  toHexString := Hex.ofBytes
  fromHexString n text := (Hex.toVector n text).elim (.error "Invalid hex string") .ok
  toHexString_ne_empty := Hex.ofBytes_ne_empty
  fromHexString_toHexString n bytes := by rw [Hex.toVector_ofBytes]; rfl

end Lib
