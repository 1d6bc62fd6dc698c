import Mathlib.Data.List.Chain
import Mathlib.Data.Nat.Cast.Order.Field
import Mathlib.Data.Nat.Sqrt
import Mathlib.Data.Rat.Floor
import Mathlib.Tactic.Linarith
import Lodestar.StateTransition.Util
/-!
# Math — square roots, binary search and chunks of a range

`intSqrt` divides numbers, which rounds to the nearest double, and floors the quotient.  A quotient of safe integers is never
rounded up to the next whole number (`intDiv_eq`), so the iteration is the one that `bigIntSqrt` makes.
-/
namespace Lodestar.Util

open Lib StateTransition

/-! ## Square roots -/

/-- A double that is not past the largest: 53 bits times a power of two. -/
def IsDouble (x : ℚ) : Prop := ∃ m e : Int, |m| ≤ 2 ^ 53 ∧ -1074 ≤ e ∧ e ≤ 971 ∧ x = m * 2 ^ e

/-- Rounds what is not past the safe integers to a double that no other is nearer than. -/
def RoundsToNearest (round : ℚ → ℚ) : Prop := ∀ x y, |x| ≤ 2 ^ 53 → IsDouble y → |round x - x| ≤ |y - x|

def intDiv (round : ℚ → ℚ) (dividend divisor : ℚ) : Nat := ⌊round (dividend / divisor)⌋₊

def intSqrtLoop (round : ℚ → ℚ) (n x y : Nat) : Nat :=
  if y < x then intSqrtLoop round n y (intDiv round (round (y + intDiv round n y)) 2) else x
termination_by x

def intSqrt (round : ℚ → ℚ) (n : Nat) : Nat := intSqrtLoop round n n (intDiv round (round (n + 1)) 2)

section Doubles

variable {n a b j : Nat}

theorem isDouble_natCast (hn : n ≤ 2 ^ 53) : IsDouble (n : ℚ) := by
  refine ⟨n, 0, ?_, by decide, by decide, by simp⟩
  rw [Nat.abs_cast]
  exact_mod_cast hn

/-- How fine the doubles are below the next whole number after a quotient. -/
theorem exists_bits (hb : b ≤ 2 ^ 53) (hlow : b * (a / b) < 2 ^ 53) :
    ∃ j ≤ 53, b < 2 ^ (j + 1) ∧ (a / b + 1) * 2 ^ j ≤ 2 ^ 53 := by
  rcases Nat.eq_zero_or_pos (a / b) with hzero | hpos
  · exact ⟨53, Nat.le_refl _, by omega, by rw [hzero]; decide⟩
  · have hlog : 2 ^ (a / b).log2 ≤ a / b := Nat.log2_self_le (Nat.ne_of_gt hpos)
    have hnext : a / b + 1 ≤ 2 ^ ((a / b).log2 + 1) := Nat.lt_log2_self
    have hdivisor : 1 ≤ b := Nat.pos_of_ne_zero fun h => by simp [h] at hpos
    generalize a / b = q at *
    generalize q.log2 = k at *
    have hk : k ≤ 52 := by
      have hlt : 2 ^ k < 2 ^ 53 := Nat.lt_of_le_of_lt (hlog.trans (Nat.le_mul_of_pos_left q hdivisor)) hlow
      exact Nat.lt_succ_iff.1 ((Nat.pow_lt_pow_iff_right Nat.one_lt_two).1 hlt)
    obtain ⟨j, hj⟩ := Nat.exists_eq_add_of_le hk
    refine ⟨j, by omega, ?_, ?_⟩
    · have hmul : b * 2 ^ k < 2 ^ (j + 1) * 2 ^ k := by
        rw [← Nat.pow_add, show j + 1 + k = 53 by omega]
        exact Nat.lt_of_le_of_lt (Nat.mul_le_mul_left b hlog) hlow
      exact Nat.lt_of_mul_lt_mul_right hmul
    · calc (q + 1) * 2 ^ j ≤ 2 ^ (k + 1) * 2 ^ j := Nat.mul_le_mul_right _ hnext
        _ = 2 ^ 53 := by rw [← Nat.pow_add, show k + 1 + j = 53 by omega]

theorem isDouble_sub_bit (hj : j ≤ 53) (hbits : n * 2 ^ j ≤ 2 ^ 53) : IsDouble ((n : ℚ) - 1 / 2 ^ j) := by
  have hpow : (2 : ℚ) ^ j ≠ 0 := by positivity
  refine ⟨n * 2 ^ j - 1, -j, ?_, by omega, by omega, ?_⟩
  · have hcast : (n : Int) * 2 ^ j ≤ 2 ^ 53 := by exact_mod_cast hbits
    rw [abs_le]
    constructor
    · have hnonneg : (0 : Int) ≤ n * 2 ^ j := by positivity
      omega
    · omega
  · rw [zpow_neg, zpow_natCast]
    push_cast
    rw [sub_mul, one_mul, mul_assoc, mul_inv_cancel₀ hpow, mul_one, one_div]

variable {round : ℚ → ℚ} (hround : RoundsToNearest round)

include hround

theorem round_natCast (hn : n ≤ 2 ^ 53) : round n = n := by
  have hcast : (n : ℚ) ≤ 2 ^ 53 := by exact_mod_cast hn
  have hnear := hround n n (by rwa [Nat.abs_cast]) (isDouble_natCast hn)
  rw [sub_self, abs_zero, abs_nonpos_iff] at hnear
  exact sub_eq_zero.1 hnear

theorem intDiv_eq (ha : a ≤ 2 ^ 53) (hb : b ≤ 2 ^ 53) (hpos : 0 < b) : intDiv round a b = a / b := by
  have hposQ : (0 : ℚ) < b := Nat.cast_pos.2 hpos
  unfold intDiv
  rcases Nat.lt_or_eq_of_le (Nat.mul_div_le a b) with hlow | heq
  · have haQ : (a : ℚ) ≤ 2 ^ 53 := by exact_mod_cast ha
    have habs : |(a : ℚ) / b| ≤ 2 ^ 53 := by
      rw [abs_of_nonneg (by positivity)]
      exact (div_le_self (Nat.cast_nonneg a) (by exact_mod_cast hpos)).trans haQ
    have hq : ((a / b : Nat) : ℚ) ≤ a / b := Nat.cast_div_le
    have hmul : (a : ℚ) / b * b = a := div_mul_cancel₀ _ hposQ.ne'
    have hnext : (a : ℚ) + 1 ≤ ((a / b : Nat) + 1) * b := by
      have hlt := Nat.lt_mul_div_succ a hpos
      rw [Nat.mul_comm] at hlt
      exact_mod_cast hlt
    obtain ⟨j, hj, hfine, hbits⟩ := exists_bits hb (Nat.lt_of_lt_of_le hlow ha)
    have hbelow := isDouble_sub_bit hj hbits
    generalize (a : ℚ) / b = x at *
    have hself : a / b ≤ 2 ^ 53 := (Nat.div_le_self a b).trans ha
    generalize a / b = q at *
    push_cast at hbelow
    -- the double below is nearer than the whole number, as its distance to that is less than twice that of the quotient
    have hgap : (b : ℚ) * (1 / 2 ^ j) < 2 := by
      rw [mul_one_div, div_lt_iff₀ (by positivity)]
      have hcast : (b : ℚ) < 2 ^ (j + 1) := by exact_mod_cast hfine
      rwa [pow_succ, mul_comm] at hcast
    have hgapPos : (0 : ℚ) < 1 / 2 ^ j := by positivity
    generalize (1 : ℚ) / 2 ^ j = gap at *
    have hlower := (abs_le.1 (hround x q habs (isDouble_natCast hself))).1
    have hupper := (abs_le.1 (hround x _ habs hbelow)).2
    rw [abs_of_nonpos (sub_nonpos.2 hq)] at hlower
    have hround_ge : (q : ℚ) ≤ round x := by linarith
    refine (Nat.floor_eq_iff ((Nat.cast_nonneg q).trans hround_ge)).2 ⟨hround_ge, ?_⟩
    rcases le_total x (q + 1 - gap) with hle | hle
    · rw [abs_of_nonneg (sub_nonneg.2 hle)] at hupper
      linarith
    · rw [abs_of_nonpos (sub_nonpos.2 hle)] at hupper
      have hscaled : (2 * x + gap) * b < 2 * ((q + 1) * b) := by linarith
      have htwice : 2 * x + gap < 2 * (q + 1) := by
        refine lt_of_mul_lt_mul_right ?_ hposQ.le
        linarith
      linarith
  · have hexact : (a : ℚ) / b = (a / b : Nat) := by
      rw [div_eq_iff hposQ.ne', mul_comm]
      exact_mod_cast heq.symm
    rw [hexact, round_natCast hround ((Nat.div_le_self a b).trans ha), Nat.floor_natCast]

/-! ### The iteration -/

omit hround in
theorem add_div_le {n y : Nat} (hpos : 0 < y) (hle : y ≤ n) : y + n / y ≤ n + 1 := by
  obtain ⟨k, rfl⟩ := Nat.exists_eq_add_of_le' hpos
  have hmul := Nat.mul_div_le n (k + 1)
  have hq : 1 ≤ n / (k + 1) := (Nat.one_le_div_iff hpos).2 hle
  obtain ⟨q, hq⟩ := Nat.exists_eq_add_of_le' hq
  rw [hq] at hmul ⊢
  have hexpand : (k + 1) * (q + 1) = k * q + k + q + 1 := by ring
  omega

theorem intSqrtLoop_eq (hn : n ≤ MAX_SAFE_INTEGER) : ∀ (x : Nat) {y : Nat}, 0 < y → y ≤ n →
    intSqrtLoop round n x y = bigIntSqrtLoop n x y := by
  intro x
  induction x using Nat.strong_induction_on with
  | _ x ih =>
    intro y hpos hle
    rw [intSqrtLoop, bigIntSqrtLoop]
    split
    · rename_i hless
      unfold MAX_SAFE_INTEGER at hn
      have hsum := add_div_le hpos hle
      have hq : 1 ≤ n / y := (Nat.one_le_div_iff hpos).2 hle
      have hcast : (y : ℚ) + (n / y : Nat) = (y + n / y : Nat) := by push_cast; ring
      rw [intDiv_eq hround (by omega) (by omega) hpos, hcast, round_natCast hround (by omega),
        show (2 : ℚ) = (2 : Nat) from rfl, intDiv_eq hround (by omega) (by decide) Nat.two_pos]
      exact ih y hless (by omega) (by omega)
    · rfl

theorem intSqrt_eq (hn : n ≤ MAX_SAFE_INTEGER) : intSqrt round n = bigIntSqrt n := by
  unfold intSqrt bigIntSqrt
  have hle : n + 1 ≤ 2 ^ 53 := Nat.succ_le_succ hn
  have hcast : (n : ℚ) + 1 = (n + 1 : Nat) := by push_cast; ring
  rw [hcast, round_natCast hround hle, show (2 : ℚ) = (2 : Nat) from rfl, intDiv_eq hround hle (by decide) Nat.two_pos]
  rcases Nat.eq_zero_or_pos n with rfl | hpos
  · rw [intSqrtLoop, bigIntSqrtLoop]
    rfl
  · exact intSqrtLoop_eq hround hn n (by omega) (by omega)

end Doubles

theorem sqrt_le_next {n x : Nat} (hx : 0 < x) : Nat.sqrt n ≤ (x + n / x) / 2 := by
  have hroot : Nat.sqrt n * Nat.sqrt n ≤ n := Nat.sqrt_le n
  generalize Nat.sqrt n = r at hroot
  have hdiv : 2 * r - x ≤ n / x := by
    rw [Nat.le_div_iff_mul_le hx]
    refine le_trans ?_ hroot
    rcases Nat.le_total (2 * r) x with hle | hle
    · rw [Nat.sub_eq_zero_of_le hle, Nat.zero_mul]
      exact Nat.zero_le _
    · obtain ⟨d, hd⟩ := Nat.exists_eq_add_of_le hle
      rw [hd, Nat.add_sub_cancel_left]
      have hsquare : (2 * r) * (2 * r) = (x + d) * (x + d) := by rw [hd]
      have hmean : 0 ≤ ((x : Int) - d) * ((x : Int) - d) := mul_self_nonneg _
      zify at hsquare ⊢
      linarith
  omega

theorem bigIntSqrtLoop_eq {n : Nat} (hn : 0 < n) : ∀ (x : Nat), 0 < x → Nat.sqrt n ≤ x →
    bigIntSqrtLoop n x ((x + n / x) / 2) = Nat.sqrt n := by
  intro x
  induction x using Nat.strong_induction_on with
  | _ x ih =>
    intro hx hle
    have hnext := sqrt_le_next (n := n) hx
    rw [bigIntSqrtLoop]
    split
    · rename_i hless
      have hpos : 0 < Nat.sqrt n := Nat.sqrt_pos.2 hn
      exact ih _ hless (by omega) hnext
    · rename_i hmore
      have hge : x ≤ n / x := by omega
      rw [Nat.le_div_iff_mul_le hx] at hge
      exact le_antisymm (Nat.le_sqrt.2 hge) hle

theorem bigIntSqrt_eq (n : Nat) : bigIntSqrt n = Nat.sqrt n := by
  unfold bigIntSqrt
  rcases Nat.eq_zero_or_pos n with rfl | hn
  · rw [bigIntSqrtLoop]
    simp
  · have hloop := bigIntSqrtLoop_eq hn n hn (Nat.sqrt_le_self n)
    rwa [Nat.div_self hn] at hloop

/-- **The square roots are floored.** -/
theorem sqrts_floored {round : ℚ → ℚ} (hround : RoundsToNearest round) :
    (∀ n r : Nat, r = bigIntSqrt n ↔ r * r ≤ n ∧ n < (r + 1) * (r + 1)) ∧
    ∀ n r : Nat, n ≤ MAX_SAFE_INTEGER → (r = intSqrt round n ↔ r * r ≤ n ∧ n < (r + 1) * (r + 1)) := by
  have hbig : ∀ n r : Nat, r = bigIntSqrt n ↔ r * r ≤ n ∧ n < (r + 1) * (r + 1) := by
    intro n r
    rw [bigIntSqrt_eq]
    exact Nat.eq_sqrt
  refine ⟨hbig, fun n r hn => ?_⟩
  rw [intSqrt_eq hround hn]
  exact hbig n r

/-- All quotients on the way from 4 are doubles. -/
theorem sqrts_floored_four : 2 = intSqrt id 4 :=
  ((sqrts_floored fun x y _ _ => by simp).2 4 2 (by decide)).2 (by decide)

/-! ## Binary search -/

inductive ErrorBinarySearch (κ : Type)
  | ErrorNoValues
  | ErrorNoValueMinValue (value minValue : κ)
deriving DecidableEq

section BinarySearch

variable {T κ : Type} [LinearOrder κ] {items : List T} {value : κ} {getter : T → κ}

/-- The loop of `binarySearchLte`. -/
def searchLte (items : List T) (value : κ) (getter : T → κ) (min max : Nat) : Option T :=
  if max > min then
    let mid := (max + min + 1) / 2
    if (items[mid]?).any (fun item => decide (getter item ≤ value)) then searchLte items value getter mid max
    else searchLte items value getter min (mid - 1)
  else items[min]?
termination_by max - min

def binarySearchLte (items : List T) (value : κ) (getter : T → κ) : Except (ErrorBinarySearch κ) T :=
  match items.head?, items.getLast? with
  | some first, some last =>
    let maxValue := getter last
    let minValue := getter first
    -- Shortcut for the actual value
    if value ≥ maxValue then .ok last
    else if value < minValue then .error (.ErrorNoValueMinValue value minValue)
    else (searchLte items value getter 0 (items.length - 1)).elim (.error .ErrorNoValues) .ok
  | _, _ => .error .ErrorNoValues

/-- An item with the greatest key that is not above the value. -/
structure GreatestLte (items : List T) (value : κ) (getter : T → κ) (item : T) : Prop where
  mem : item ∈ items
  le : getter item ≤ value
  greatest : ∀ other ∈ items, getter other ≤ value → getter other ≤ getter item

theorem getter_le (hsorted : items.Pairwise (fun a b => getter a ≤ getter b)) {i j : Nat} {a b : T} (hij : i ≤ j)
    (ha : items[i]? = some a) (hb : items[j]? = some b) : getter a ≤ getter b := by
  obtain ⟨hi, rfl⟩ := List.getElem?_eq_some_iff.1 ha
  obtain ⟨hj, rfl⟩ := List.getElem?_eq_some_iff.1 hb
  rcases Nat.lt_or_eq_of_le hij with hlt | rfl
  · exact List.pairwise_iff_getElem.1 hsorted i j hi hj hlt
  · exact le_rfl

theorem searchLte_greatest (hsorted : items.Pairwise (fun a b => getter a ≤ getter b)) (min max : Nat) (hmax : max < items.length)
    (hle : min ≤ max) (hlow : ∀ item, items[min]? = some item → getter item ≤ value)
    (habove : ∀ (i : Nat) item, max < i → items[i]? = some item → value < getter item) :
    ∃ item, searchLte items value getter min max = some item ∧ GreatestLte items value getter item := by
  fun_induction searchLte items value getter min max with
  | case1 min max hlt mid hmid ih =>
    refine ih hmax (by omega) (fun item hitem => ?_) habove
    rw [hitem, Option.any_some] at hmid
    exact of_decide_eq_true hmid
  | case2 min max hlt mid hmid ih =>
    have hbound : mid < items.length := by omega
    obtain ⟨probe, hprobe⟩ : ∃ probe, items[mid]? = some probe := ⟨_, List.getElem?_eq_getElem hbound⟩
    rw [hprobe, Option.any_some, decide_eq_true_eq, not_le] at hmid
    refine ih (by omega) (by omega) hlow fun i item hi hitem => ?_
    exact hmid.trans_le (getter_le hsorted (by omega) hprobe hitem)
  | case3 min max hnot =>
    obtain ⟨item, hitem⟩ : ∃ item, items[min]? = some item := ⟨_, List.getElem?_eq_getElem (by omega)⟩
    refine ⟨item, hitem, List.mem_of_getElem? hitem, hlow item hitem, fun other hother hvalue => ?_⟩
    obtain ⟨i, hi⟩ := List.getElem?_of_mem hother
    rcases Nat.lt_or_ge max i with hafter | hbefore
    · exact absurd (habove i other hafter hi) (not_lt.2 hvalue)
    · exact getter_le hsorted (by omega) hi hitem

theorem binarySearchLte_cases (hsorted : items.Pairwise (fun a b => getter a ≤ getter b)) (value : κ) :
    (∃ item, binarySearchLte items value getter = .ok item ∧ GreatestLte items value getter item) ∨
      (items = [] ∧ binarySearchLte items value getter = .error .ErrorNoValues) ∨
      ∃ first, items.head? = some first ∧ (∀ item ∈ items, value < getter item) ∧
        binarySearchLte items value getter = .error (.ErrorNoValueMinValue value (getter first)) := by
  cases items with
  | nil => exact .inr (.inl ⟨rfl, rfl⟩)
  | cons first rest =>
    have hend : (first :: rest)[(first :: rest).length - 1]? = some ((first :: rest).getLast (List.cons_ne_nil _ _)) := by
      rw [← List.getLast?_eq_getElem?, List.getLast?_eq_some_getLast]
    have hfirst : ∀ item ∈ first :: rest, getter first ≤ getter item := by
      intro item hitem
      obtain ⟨i, hi⟩ := List.getElem?_of_mem hitem
      exact getter_le hsorted (Nat.zero_le i) rfl hi
    unfold binarySearchLte
    rw [List.head?_cons, List.getLast?_eq_some_getLast (List.cons_ne_nil _ _)]
    generalize (first :: rest).getLast (List.cons_ne_nil _ _) = last at hend
    dsimp only
    by_cases hmax : value ≥ getter last
    · rw [if_pos hmax]
      refine .inl ⟨last, rfl, List.mem_of_getElem? hend, hmax, fun other hother _ => ?_⟩
      obtain ⟨i, hi⟩ := List.getElem?_of_mem hother
      have hbound := (List.getElem?_eq_some_iff.1 hi).1
      exact getter_le hsorted (by omega) hi hend
    · rw [if_neg hmax]
      by_cases hmin : value < getter first
      · rw [if_pos hmin]
        exact .inr (.inr ⟨first, rfl, fun item hitem => hmin.trans_le (hfirst item hitem), rfl⟩)
      · rw [if_neg hmin]
        obtain ⟨item, hfound, hgreatest⟩ := searchLte_greatest hsorted 0 ((first :: rest).length - 1) (by simp) (Nat.zero_le _)
          (fun item hitem => Option.some.inj hitem ▸ not_lt.1 hmin) fun i item hi hitem => by
            have hbound := (List.getElem?_eq_some_iff.1 hitem).1
            omega
        rw [hfound]
        exact .inl ⟨item, rfl, hgreatest⟩

/-- **The search finds an item with the greatest key up to the value**, also among repeated keys.  It throws `ErrorNoValues` where there
are no items, and `ErrorNoValueMinValue` with the least key where there are some and every key is above the value. -/
theorem binarySearchLte_finds (hsorted : items.Pairwise (fun a b => getter a ≤ getter b)) (value : κ) :
    (∀ item, binarySearchLte items value getter = .ok item → GreatestLte items value getter item) ∧
    ((∃ item, binarySearchLte items value getter = .ok item) ↔ ∃ item ∈ items, getter item ≤ value) ∧
    (binarySearchLte items value getter = .error .ErrorNoValues ↔ items = []) ∧
    ((∃ first, items.head? = some first ∧ binarySearchLte items value getter = .error (.ErrorNoValueMinValue value (getter first))) ↔
      items ≠ [] ∧ ∀ item ∈ items, value < getter item) := by
  rcases binarySearchLte_cases hsorted value with ⟨found, hfound, hgreatest⟩ | ⟨rfl, hthrown⟩ | ⟨first, hfirst, habove, hthrown⟩
  · have hne : items ≠ [] := List.ne_nil_of_mem hgreatest.mem
    rw [hfound]
    refine ⟨fun item hitem => Except.ok.inj hitem ▸ hgreatest, ?_, ?_, ?_⟩
    · exact iff_of_true ⟨found, rfl⟩ ⟨found, hgreatest.mem, hgreatest.le⟩
    · exact iff_of_false nofun hne
    · exact iff_of_false nofun fun h => (h.2 found hgreatest.mem).not_ge hgreatest.le
  · rw [hthrown]
    exact ⟨nofun, iff_of_false nofun nofun, iff_of_true rfl rfl, iff_of_false nofun fun h => h.1 rfl⟩
  · have hne : items ≠ [] := by
      rintro rfl
      cases hfirst
    rw [hthrown]
    refine ⟨nofun, iff_of_false nofun ?_, iff_of_false nofun hne, iff_of_true ⟨first, hfirst, rfl⟩ ⟨hne, habove⟩⟩
    rintro ⟨item, hitem, hle⟩
    exact (habove item hitem).not_ge hle

theorem binarySearchLte_finds_repeated : GreatestLte [1, 2, 2, 5] 3 id 2 :=
  (@binarySearchLte_finds Nat Nat _ [1, 2, 2, 5] id (by decide) 3).1 2 (by decide +kernel)

end BinarySearch

/-! ## Chunks of a range -/

/-- The loop of `chunkifyInclusiveRange`, from the chunk `i` on. -/
def chunksFrom (fromItem toItem itemsPerChunk : Int) : Nat → Int → List (Int × Int)
  | 0, _ => []
  | rounds + 1, i =>
    let _from := fromItem + i * itemsPerChunk
    let _to := min (fromItem + (i + 1) * itemsPerChunk - 1) toItem
    (_from, _to) :: if _to ≥ toItem then [] else chunksFrom fromItem toItem itemsPerChunk rounds (i + 1)

def chunkifyInclusiveRange (fromItem toItem itemsPerChunk : Int) : List (Int × Int) :=
  let itemsPerChunk := if itemsPerChunk < 1 then 1 else itemsPerChunk
  let totalItems := toItem - fromItem + 1
  -- Enforce chunkCount >= 1
  let chunkCount := max ⌈(totalItems : ℚ) / itemsPerChunk⌉ 1
  chunksFrom fromItem toItem itemsPerChunk chunkCount.toNat 0

/-- The chunks are the range from `first` to `last`, cut into stretches of at most `itemsPerChunk` items. -/
structure CutsRange (first last itemsPerChunk : Int) (chunks : List (Int × Int)) : Prop where
  short : ∀ chunk ∈ chunks, chunk.1 ≤ chunk.2 ∧ chunk.2 - chunk.1 + 1 ≤ itemsPerChunk
  ascending : chunks.Pairwise fun chunk later => chunk.2 < later.1
  contiguous : chunks.IsChain fun chunk next => next.1 = chunk.2 + 1
  covers : ∀ n, (∃ chunk ∈ chunks, chunk.1 ≤ n ∧ n ≤ chunk.2) ↔ first ≤ n ∧ n ≤ last
  starts : ∀ chunk ∈ chunks.head?, chunk.1 = first

namespace CutsRange

variable {first last itemsPerChunk : Int} {chunks : List (Int × Int)}

theorem single (hle : first ≤ last) (hshort : last - first + 1 ≤ itemsPerChunk) : CutsRange first last itemsPerChunk [(first, last)] where
  short := List.forall_mem_singleton.2 ⟨hle, hshort⟩
  ascending := List.pairwise_singleton _ _
  contiguous := .singleton _
  covers n := by simp
  starts chunk hchunk := by
    rw [← Option.some.inj hchunk]

theorem cons {stop : Int} (hle : first ≤ stop) (hshort : stop - first + 1 ≤ itemsPerChunk) (hlast : stop < last)
    (h : CutsRange (stop + 1) last itemsPerChunk chunks) : CutsRange first last itemsPerChunk ((first, stop) :: chunks) where
  short := List.forall_mem_cons.2 ⟨⟨hle, hshort⟩, h.short⟩
  ascending := by
    refine List.pairwise_cons.2 ⟨fun chunk hchunk => ?_, h.ascending⟩
    have hcovered := (h.covers chunk.1).1 ⟨chunk, hchunk, le_rfl, (h.short chunk hchunk).1⟩
    dsimp only
    omega
  contiguous := List.isChain_cons.2 ⟨h.starts, h.contiguous⟩
  covers n := by
    rw [List.exists_mem_cons_iff, h.covers]
    dsimp only
    omega
  starts chunk hchunk := by
    rw [← Option.some.inj hchunk]

end CutsRange

theorem chunksFrom_cuts {fromItem toItem itemsPerChunk : Int} (hpos : 1 ≤ itemsPerChunk) : ∀ (rounds : Nat) (i : Int),
    fromItem + i * itemsPerChunk ≤ toItem → toItem < fromItem + (i + rounds) * itemsPerChunk →
    CutsRange (fromItem + i * itemsPerChunk) toItem itemsPerChunk (chunksFrom fromItem toItem itemsPerChunk rounds i)
  | 0, i, hle, henough => by
    rw [Int.natCast_zero, add_zero] at henough
    omega
  | rounds + 1, i, hle, henough => by
    have hnext : (i + 1) * itemsPerChunk = i * itemsPerChunk + itemsPerChunk := by ring
    unfold chunksFrom
    dsimp only
    by_cases hend : fromItem + (i + 1) * itemsPerChunk - 1 < toItem
    · have hmin : min (fromItem + (i + 1) * itemsPerChunk - 1) toItem = fromItem + (i + 1) * itemsPerChunk - 1 :=
        min_eq_left hend.le
      rw [hmin, if_neg (by omega)]
      refine CutsRange.cons (by omega) (by omega) hend ?_
      have hrounds : i + 1 + (rounds : Int) = i + (rounds + 1 : Nat) := by
        push_cast
        ring
      have hrest := @chunksFrom_cuts fromItem toItem itemsPerChunk hpos rounds (i + 1) (by omega) (hrounds ▸ henough)
      rwa [sub_add_cancel]
    · rw [min_eq_right (by omega), if_pos le_rfl]
      exact CutsRange.single hle (by omega)

end Lodestar.Util
