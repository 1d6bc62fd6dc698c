import Mathlib.Data.List.Basic
import Mathlib.Tactic.Ring
/-!
# Utf8 — text as bytes, and bytes read as text whatever they are

The reader never fails: a byte that cannot stand where it does is read as the replacement character, and a sequence broken
off is one replacement character, the byte that broke it off being read afresh.  So a byte below 0x80 is always itself
(`filter_decode`), in whatever company it comes.
-/
namespace Lib.Utf8

def encode (text : List Char) : List UInt8 := text.flatMap String.utf8EncodeChar

def replacement : Char := Char.ofNat 0xFFFD

/-- A sequence under way: how many bytes it still needs, the code point so far, and the bounds of the next byte. -/
structure Pending where
  needed : Nat
  point : Nat
  lower : Nat
  upper : Nat

def first (byte : Nat) : List Char × Option Pending :=
  if byte < 0x80 then ([Char.ofNat byte], none)
  else if 0xC2 ≤ byte ∧ byte ≤ 0xDF then ([], some ⟨1, byte % 0x20, 0x80, 0xBF⟩)
  else if 0xE0 ≤ byte ∧ byte ≤ 0xEF then
    ([], some ⟨2, byte % 0x10, if byte = 0xE0 then 0xA0 else 0x80, if byte = 0xED then 0x9F else 0xBF⟩)
  else if 0xF0 ≤ byte ∧ byte ≤ 0xF4 then
    ([], some ⟨3, byte % 0x08, if byte = 0xF0 then 0x90 else 0x80, if byte = 0xF4 then 0x8F else 0xBF⟩)
  else ([replacement], none)

def step (pending : Option Pending) (byte : Nat) : List Char × Option Pending :=
  match pending with
  | none => first byte
  | some p =>
    if p.lower ≤ byte ∧ byte ≤ p.upper then
      let point := p.point * 64 + byte % 64
      if p.needed = 1 then ([Char.ofNat point], none) else ([], some ⟨p.needed - 1, point, 0x80, 0xBF⟩)
    else
      (replacement :: (first byte).1, (first byte).2)

def decodeFrom : Option Pending → List UInt8 → List Char
  | none, [] => []
  | some _, [] => [replacement]
  | pending, byte :: bytes => (step pending byte.toNat).1 ++ decodeFrom (step pending byte.toNat).2 bytes

def decode (bytes : List UInt8) : List Char := decodeFrom none bytes

/-! ## The characters below 0x80 -/

def Pending.least (p : Pending) : Nat := (p.point * 64 + (p.lower - 0x80)) * 64 ^ (p.needed - 1)

/-- A sequence of two or more bytes ends in a code point from 0x80 on. -/
structure Pending.Wide (p : Pending) : Prop where
  needed : 0 < p.needed
  lower : 0x80 ≤ p.lower
  upper : p.upper ≤ 0xBF
  least : 0x80 ≤ p.least

variable {keep : Char → Bool}

theorem toNat_ofNat (n : Nat) : (Char.ofNat n).toNat = if n.isValidChar then n else 0 := by
  unfold Char.ofNat
  by_cases h : n.isValidChar
  · rw [dif_pos h, if_pos h]
    rfl
  · rw [dif_neg h, if_neg h]
    rfl

theorem not_keep_ofNat (hkeep : ∀ c, keep c = true → 0 < c.toNat ∧ c.toNat < 0x80) {n : Nat} (hn : 0x80 ≤ n) :
    keep (Char.ofNat n) = false := by
  cases h : keep (Char.ofNat n) with
  | false => rfl
  | true =>
    have hbounds := hkeep _ h
    rw [toNat_ofNat] at hbounds
    split at hbounds <;> omega

theorem first_wide {byte : Nat} {p : Pending} (h : (first byte).2 = some p) : p.Wide ∧ 0x80 ≤ byte := by
  unfold first at h
  split at h
  · cases h
  split at h
  · rename_i hge hr
    cases h
    refine ⟨⟨Nat.one_pos, le_rfl, le_rfl, ?_⟩, by omega⟩
    simp only [Pending.least]
    omega
  split at h
  · rename_i hge _ hr
    cases h
    refine ⟨⟨Nat.succ_pos _, ?_, ?_, ?_⟩, by omega⟩
    · dsimp only
      split <;> omega
    · dsimp only
      split <;> omega
    · simp only [Pending.least]
      split <;> omega
  split at h
  · rename_i hge _ _ hr
    cases h
    refine ⟨⟨Nat.succ_pos _, ?_, ?_, ?_⟩, by omega⟩
    · dsimp only
      split <;> omega
    · dsimp only
      split <;> omega
    · simp only [Pending.least]
      split <;> omega
  · cases h

section

variable (hkeep : ∀ c, keep c = true → 0 < c.toNat ∧ c.toNat < 0x80) (byte : Nat)
include hkeep

theorem filter_first : (first byte).1.filter keep = [Char.ofNat byte].filter keep := by
  have hrep := not_keep_ofNat hkeep (n := 0xFFFD) (by decide)
  unfold first
  split
  · rfl
  · rename_i hge
    have hbyte := not_keep_ofNat hkeep (n := byte) (by omega)
    split
    · simp [hbyte]
    split
    · simp [hbyte]
    split
    · simp [hbyte]
    · simp [hbyte, replacement, hrep]

theorem filter_step {pending : Option Pending} (hwide : ∀ p, pending = some p → p.Wide) :
    (step pending byte).1.filter keep = [Char.ofNat byte].filter keep ∧
      ∀ p, (step pending byte).2 = some p → p.Wide := by
  have hrep := not_keep_ofNat hkeep (n := 0xFFFD) (by decide)
  cases pending with
  | none => exact ⟨filter_first hkeep byte, fun p hp => (first_wide hp).1⟩
  | some p =>
    have hw := hwide p rfl
    simp only [step]
    split
    · rename_i hin
      have hlower := hw.lower
      have hupper := hw.upper
      have hbyte := not_keep_ofNat hkeep (n := byte) (by omega)
      have hge : (p.point * 64 + (p.lower - 0x80)) ≤ p.point * 64 + byte % 64 := by omega
      split
      · rename_i hone
        have hleast := hw.least
        unfold Pending.least at hleast
        rw [hone, Nat.sub_self, pow_zero, mul_one] at hleast
        have hpoint := not_keep_ofNat hkeep (n := p.point * 64 + byte % 64) (by omega)
        refine ⟨by simp [hbyte, hpoint], fun q hq => ?_⟩
        cases hq
      · rename_i hmore
        refine ⟨by simp [hbyte], fun q hq => ?_⟩
        cases hq
        have hpos := hw.needed
        refine ⟨by dsimp only; omega, le_rfl, le_rfl, ?_⟩
        have hleast := hw.least
        have hexp : p.needed - 1 = p.needed - 1 - 1 + 1 := by omega
        calc 0x80 ≤ (p.point * 64 + (p.lower - 0x80)) * 64 ^ (p.needed - 1) := hleast
          _ ≤ (p.point * 64 + byte % 64) * 64 ^ (p.needed - 1) := Nat.mul_le_mul_right _ hge
          _ = ((p.point * 64 + byte % 64) * 64 + (0x80 - 0x80)) * 64 ^ (p.needed - 1 - 1) := by
            obtain ⟨k, hk⟩ : ∃ k, p.needed - 1 = k + 1 := ⟨_, hexp⟩
            rw [hk, Nat.add_sub_cancel, Nat.sub_self]
            ring
    · refine ⟨?_, fun q hq => (first_wide hq).1⟩
      rw [List.filter_cons_of_neg (by simp [replacement, hrep])]
      exact filter_first hkeep byte

end

theorem filter_decodeFrom (hkeep : ∀ c, keep c = true → 0 < c.toNat ∧ c.toNat < 0x80) :
    ∀ (bytes : List UInt8) (pending : Option Pending), (∀ p, pending = some p → p.Wide) →
      (decodeFrom pending bytes).filter keep = (bytes.map fun byte => Char.ofNat byte.toNat).filter keep
  | [], none, _ => rfl
  | [], some _, _ => by
    have hrep := not_keep_ofNat hkeep (n := 0xFFFD) (by decide)
    simp [decodeFrom, replacement, hrep]
  | byte :: bytes, pending, hwide => by
    obtain ⟨hfilter, hnext⟩ := filter_step hkeep byte.toNat hwide
    rw [decodeFrom, List.filter_append, hfilter, filter_decodeFrom hkeep bytes _ hnext, ← List.filter_append]
    rfl

/-! ## Writing -/

theorem encodeChar_ascii {c : Char} (h : c.toNat < 0x80) : String.utf8EncodeChar c = [UInt8.ofNat c.toNat] := by
  exact if_pos (Nat.le_of_lt_succ h)

theorem encode_ascii : ∀ {text : List Char}, (∀ c ∈ text, c.toNat < 0x80) →
    encode text = text.map fun c => UInt8.ofNat c.toNat
  | [], _ => rfl
  | c :: text, h => by
    have ih := encode_ascii fun c' hc' => h c' (List.mem_cons_of_mem _ hc')
    unfold encode at ih ⊢
    rw [List.flatMap_cons, encodeChar_ascii (h c (List.mem_cons_self ..)), ih]
    rfl

theorem map_encode_ascii {text : List Char} (h : ∀ c ∈ text, c.toNat < 0x80) :
    (encode text).map (fun byte => Char.ofNat byte.toNat) = text := by
  rw [encode_ascii h, List.map_map]
  conv => rhs; rw [← List.map_id text]
  apply List.map_congr_left
  intro c hc
  have hlt := h c hc
  have hbyte : (UInt8.ofNat c.toNat).toNat = c.toNat := UInt8.toNat_ofNat_of_lt (Nat.lt_trans hlt (by decide))
  simp only [Function.comp_apply, hbyte, Char.ofNat_toNat, id_eq]

end Lib.Utf8
