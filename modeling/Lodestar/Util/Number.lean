import Mathlib.Data.List.TakeWhile
import Lodestar.Db.NumberKeys
/-!
# Number — whole numbers as texts

A text of digits is read as the nearest double, and a double is printed with as few digits as tell it from the others.  What is
printed without an exponent is read back (`parseInt_text`); a safe integer is printed as it is.
-/
namespace Lodestar.Util

open Lib

/-- A `number` that is whole and not negative: one that has a double, or the one past them all. -/
inductive Number
  | finite (n : Nat)
  | Infinity
deriving DecidableEq, Repr

def Number.ofNat (n : Nat) : Number := if Db.toNumber n < 2 ^ 1024 then .finite (Db.toNumber n) else .Infinity

def roundedTo (n digits k : Nat) : Nat :=
  let unit := 10 ^ (digits - 1 - k)
  (n + unit / 2) / unit * unit

/-- The number that is printed for `n`: the one with the fewest digits other than zeros behind that is read back as `n`. -/
def shortest (n : Nat) : Nat :=
  if n ≤ MAX_SAFE_INTEGER then n
  else
    let digits := (Nat.toDigits 10 n).length
    (((List.range digits).map (roundedTo n digits)).find? fun m => Db.toNumber m == n).getD n

/-- `toString`: from 22 digits on with an exponent. -/
def Number.text : Number → List Char
  | .Infinity => "Infinity".toList
  | .finite n =>
    let digits := Nat.toDigits 10 (shortest n)
    if digits.length ≤ 21 then digits
    else
      let exponent := "e+".toList ++ Nat.toDigits 10 (digits.length - 1)
      match (digits.reverse.dropWhile (· == '0')).reverse with
      | first :: second :: more => first :: '.' :: second :: more ++ exponent
      | significant => significant ++ exponent

/-- `parseInt(text, 10)` of word characters, which have no space and no sign in front; `NaN` is none. -/
def parseInt (text : List Char) : Option Number :=
  let digits := text.takeWhile Char.isDigit
  if digits.isEmpty then none else some (.ofNat (Nat.ofDigitChars 10 digits 0))

/-! ## What is printed is read back -/

def Number.Plain : Number → Prop
  | .finite n => Db.toNumber n = n ∧ n < 10 ^ 21
  | .Infinity => False

variable {n : Nat}

theorem plain_of_safe (h : n ≤ MAX_SAFE_INTEGER) : (Number.finite n).Plain := by
  refine ⟨Db.toNumber_eq h, ?_⟩
  unfold MAX_SAFE_INTEGER at h
  omega

theorem shortest_cases (n : Nat) : shortest n = n ∨
    ∃ k < (Nat.toDigits 10 n).length, shortest n = roundedTo n (Nat.toDigits 10 n).length k ∧ Db.toNumber (shortest n) = n := by
  unfold shortest
  dsimp only
  split
  · exact .inl rfl
  · cases hfind : ((List.range (Nat.toDigits 10 n).length).map (roundedTo n (Nat.toDigits 10 n).length)).find? fun m =>
      Db.toNumber m == n with
    | none => exact .inl rfl
    | some m =>
      obtain ⟨k, hk, rfl⟩ := List.mem_map.1 (List.mem_of_find?_eq_some hfind)
      exact .inr ⟨k, List.mem_range.1 hk, rfl, by simpa using List.find?_some hfind⟩

theorem toNumber_shortest (h : Db.toNumber n = n) : Db.toNumber (shortest n) = n := by
  rcases shortest_cases n with heq | ⟨k, -, -, hread⟩
  · rw [heq, h]
  · exact hread

theorem roundedTo_le {n digits k : Nat} (hn : n < 10 ^ digits) (hk : k < digits) : roundedTo n digits k ≤ 10 ^ digits := by
  unfold roundedTo
  have hpow : 10 ^ digits = 10 ^ (k + 1) * 10 ^ (digits - 1 - k) := by
    rw [← Nat.pow_add]
    congr 1
    omega
  have hunit : 0 < 10 ^ (digits - 1 - k) := Nat.pow_pos (by decide)
  rw [hpow] at hn ⊢
  generalize 10 ^ (digits - 1 - k) = unit at hn hunit ⊢
  refine Nat.mul_le_mul_right unit (Nat.lt_succ_iff.1 ((Nat.div_lt_iff_lt_mul hunit).2 ?_))
  rw [Nat.succ_mul]
  omega

theorem shortest_lt (h : Db.toNumber n = n) (hn : n < 10 ^ 21) : shortest n < 10 ^ 21 := by
  have hle : shortest n ≤ 10 ^ 21 := by
    rcases shortest_cases n with heq | ⟨k, hk, heq, -⟩
    · rw [heq]
      exact Nat.le_of_lt hn
    · have hdigits : n < 10 ^ (Nat.toDigits 10 n).length :=
        (Nat.length_toDigits_le_iff (by decide) Nat.length_toDigits_pos).1 (Nat.le_refl _)
      have hlength : (Nat.toDigits 10 n).length ≤ 21 := (Nat.length_toDigits_le_iff (by decide) (by decide)).2 hn
      rw [heq]
      exact (roundedTo_le hdigits hk).trans (Nat.pow_le_pow_right (by decide) hlength)
  refine Nat.lt_of_le_of_ne hle fun heq => ?_
  -- the bound is a double of its own
  have hread := toNumber_shortest h
  have hself : Db.toNumber (10 ^ 21) = 10 ^ 21 := by decide
  rw [heq, hself] at hread
  omega

theorem text_plain (h : (Number.finite n).Plain) : (Number.finite n).text = Nat.toDigits 10 (shortest n) := by
  exact if_pos ((Nat.length_toDigits_le_iff (by decide) (by decide)).2 (shortest_lt h.1 h.2))

variable {number : Number}

theorem isDigit_of_mem_text (h : number.Plain) {c : Char} (hc : c ∈ number.text) : c.isDigit = true := by
  cases number with
  | Infinity => exact h.elim
  | finite n =>
    rw [text_plain h] at hc
    exact Decimal.isDigit_of_mem_toDigits hc

theorem text_ne_nil (h : number.Plain) : number.text ≠ [] := by
  cases number with
  | Infinity => exact h.elim
  | finite n =>
    rw [text_plain h]
    exact Nat.toDigits_ne_nil

theorem parseInt_text (h : number.Plain) : parseInt number.text = some number := by
  have htake : number.text.takeWhile Char.isDigit = number.text :=
    List.takeWhile_eq_self_iff.2 fun c hc => isDigit_of_mem_text h hc
  unfold parseInt
  rw [htake, if_neg (by simpa using text_ne_nil h)]
  cases number with
  | Infinity => exact h.elim
  | finite n =>
    have hlarge : ∀ k, 70 ≤ k → n < 2 ^ k := fun k hk =>
      Nat.lt_of_lt_of_le (Nat.lt_trans h.2 (show 10 ^ 21 < 2 ^ 70 by decide)) (Nat.pow_le_pow_right Nat.two_pos hk)
    rw [text_plain h, Nat.ofDigitChars_ten_toDigits]
    unfold Number.ofNat
    rw [toNumber_shortest h.1, if_pos (hlarge 1024 (by decide))]

theorem slash_notMem_text (number : Number) : '/' ∉ number.text := by
  have hdigits : ∀ n : Nat, '/' ∉ Nat.toDigits 10 n := fun n hn => absurd (Decimal.isDigit_of_mem_toDigits hn) (by decide)
  cases number with
  | Infinity => decide
  | finite n =>
    unfold Number.text
    dsimp only
    split
    · exact hdigits _
    · have hexponent : ∀ length : Nat, '/' ∉ "e+".toList ++ Nat.toDigits 10 length := by
        intro length hmem
        rcases List.mem_append.1 hmem with hmem | hmem
        · exact absurd hmem (by decide)
        · exact hdigits length hmem
      have hsignificant : '/' ∉ ((Nat.toDigits 10 (shortest n)).reverse.dropWhile (· == '0')).reverse := by
        rw [List.mem_reverse]
        exact fun hmem => hdigits _ (List.mem_reverse.1 ((List.dropWhile_sublist _).mem hmem))
      split
      · rename_i first second more heq
        rw [heq] at hsignificant
        simp only [List.cons_append, List.mem_cons, List.mem_append, not_or] at hsignificant hexponent ⊢
        exact ⟨hsignificant.1, by decide, hsignificant.2.1, hsignificant.2.2, hexponent _⟩
      · rw [List.mem_append, not_or]
        exact ⟨hsignificant, hexponent _⟩

/-! ## Texts that are printed -/

/-- The digits of a number below those that are printed with an exponent, without a zero in front, and no more of them than
zeros behind leave apart from the other doubles. -/
def CanonicalDigits (text : List Char) : Prop :=
  ∃ n, n < 10 ^ 21 ∧ shortest (Db.toNumber n) = n ∧ text = Nat.toDigits 10 n

theorem canonicalDigits_of_safe (h : n ≤ MAX_SAFE_INTEGER) : CanonicalDigits (Nat.toDigits 10 n) := by
  refine ⟨n, ?_, ?_, rfl⟩
  · unfold MAX_SAFE_INTEGER at h
    omega
  · rw [Db.toNumber_eq h]
    exact if_pos h

variable {text : List Char}

theorem CanonicalDigits.isDigit (h : CanonicalDigits text) {c : Char} (hc : c ∈ text) : c.isDigit = true := by
  obtain ⟨n, -, -, rfl⟩ := h
  exact Decimal.isDigit_of_mem_toDigits hc

theorem parseInt_toDigits (n : Nat) : parseInt (Nat.toDigits 10 n) = some (.ofNat n) := by
  have htake : (Nat.toDigits 10 n).takeWhile Char.isDigit = Nat.toDigits 10 n :=
    List.takeWhile_eq_self_iff.2 fun c hc => Decimal.isDigit_of_mem_toDigits hc
  unfold parseInt
  rw [htake, if_neg (by simp), Nat.ofDigitChars_ten_toDigits]

theorem toNumber_le (n : Nat) : Db.toNumber n ≤ 2 * n + 1 := by
  unfold Db.toNumber
  have hunit : 2 ^ (n.log2 - 52) ≤ n + 1 := by
    rcases Nat.eq_zero_or_pos n with rfl | hpos
    · decide
    · have hlog : 2 ^ n.log2 ≤ n := Nat.log2_self_le (Nat.ne_of_gt hpos)
      have hsub : 2 ^ (n.log2 - 52) ≤ 2 ^ n.log2 := Nat.pow_le_pow_right Nat.two_pos (Nat.sub_le _ _)
      omega
  have hdiv := Nat.div_mul_le_self n (2 ^ (n.log2 - 52))
  rw [Nat.add_mul]
  split <;> omega

theorem text_ofNat (hn : n < 10 ^ 21) (h : shortest (Db.toNumber n) = n) : (Number.ofNat n).text = Nat.toDigits 10 n := by
  have hfinite : Db.toNumber n < 2 ^ 1024 := by
    have hle : Db.toNumber n < 2 ^ 71 := by
      have hdouble := toNumber_le n
      omega
    have hlarge : ∀ k, 71 ≤ k → 2 ^ 71 ≤ 2 ^ k := fun k hk => Nat.pow_le_pow_right Nat.two_pos hk
    exact Nat.lt_of_lt_of_le hle (hlarge 1024 (by decide))
  unfold Number.ofNat
  rw [if_pos hfinite]
  unfold Number.text
  dsimp only
  rw [h]
  exact if_pos ((Nat.length_toDigits_le_iff (by decide) (by decide)).2 hn)

theorem text_eq_iff (h : parseInt text = some number) (hplus : '+' ∉ text) :
    number.text = text ↔ CanonicalDigits text := by
  constructor
  · intro htext
    unfold parseInt at h
    dsimp only at h
    split at h
    · cases h
    · rename_i hne
      have hnumber : Number.ofNat (Nat.ofDigitChars 10 (text.takeWhile Char.isDigit) 0) = number := Option.some.inj h
      cases number with
      | Infinity =>
        rw [← htext] at hne
        exact absurd (show (Number.Infinity.text.takeWhile Char.isDigit).isEmpty = true by decide) hne
      | finite n =>
        unfold Number.ofNat at hnumber
        split at hnumber
        · have hn : Db.toNumber (Nat.ofDigitChars 10 (text.takeWhile Char.isDigit) 0) = n := Number.finite.inj hnumber
          unfold Number.text at htext
          dsimp only at htext
          split at htext
          · rename_i hlength
            -- all of the text is digits, and they are those of the number that was read
            have htake : text.takeWhile Char.isDigit = text :=
              List.takeWhile_eq_self_iff.2 fun c hc => Decimal.isDigit_of_mem_toDigits (htext ▸ hc)
            rw [htake, ← htext, Nat.ofDigitChars_ten_toDigits] at hn
            refine ⟨shortest n, (Nat.length_toDigits_le_iff (by decide) (by decide)).1 hlength, ?_, htext.symm⟩
            rw [hn]
          · -- an exponent has a plus
            refine absurd ?_ hplus
            rw [← htext]
            split <;> simp
        · cases hnumber
  · rintro ⟨n, hn, hshortest, rfl⟩
    rw [parseInt_toDigits, Option.some.injEq] at h
    rw [← h]
    exact text_ofNat hn hshortest

end Lodestar.Util
