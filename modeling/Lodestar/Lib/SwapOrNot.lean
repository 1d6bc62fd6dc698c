import Mathlib.Data.List.Basic
/-!
# SwapOrNot — lists that are read through index maps

A list is `Reindexed` by a map when its entry at `i` is the other's entry at the image of `i`.  A loop that reindexes once for every
round reads the first list through the maps of all rounds, the last one first.

A swap-or-not round mirrors the places around a pivot and keeps or exchanges the two places of a pair by one bit, which is the same
for both.
-/
namespace Lib

variable {α ι : Type}

/-! ## Reindexed lists -/

def Reindexed (f : Nat → Nat) (l l' : List α) : Prop := l'.length = l.length ∧ ∀ i < l.length, l'[i]? = l[f i]?

theorem Reindexed.refl (l : List α) : Reindexed id l l := ⟨rfl, fun _ _ => rfl⟩

theorem Reindexed.trans {f g : Nat → Nat} {l l' l'' : List α} (h : Reindexed f l l') (h' : Reindexed g l' l'')
    (hg : ∀ i < l.length, g i < l.length) : Reindexed (fun i => f (g i)) l l'' := by
  refine ⟨h'.1.trans h.1, fun i hi => ?_⟩
  rw [h'.2 i (h.1.symm ▸ hi), h.2 (g i) (hg i hi)]

def through (σ : ι → Nat → Nat) (rounds : List ι) (i : Nat) : Nat := rounds.foldl (fun i r => σ r i) i

variable {σ : ι → Nat → Nat} {n i : Nat}

theorem through_lt (hσ : ∀ r, ∀ i < n, σ r i < n) (rounds : List ι) (hi : i < n) :
    through σ rounds i < n := by
  induction rounds generalizing i with
  | nil => exact hi
  | cons r rounds ih => exact ih (hσ r i hi)

theorem through_reverse (hσ : ∀ r, ∀ i < n, σ r i < n) (hinv : ∀ r, ∀ i < n, σ r (σ r i) = i) (rounds : List ι) (hi : i < n)
    : through σ rounds.reverse (through σ rounds i) = i := by
  induction rounds generalizing i with
  | nil => rfl
  | cons r rounds ih =>
    have hstep : through σ (r :: rounds).reverse (through σ (r :: rounds) i) =
        σ r (through σ rounds.reverse (through σ rounds (σ r i))) := by
      unfold through
      rw [List.reverse_cons, List.foldl_append]
      rfl
    rw [hstep, ih (hσ r i hi), hinv r i hi]

theorem Reindexed.foldl {step : List α → ι → List α} (hσ : ∀ r, ∀ i < n, σ r i < n)
    (hstep : ∀ (l : List α) r, l.length = n → Reindexed (σ r) l (step l r)) (rounds : List ι) (l : List α) (hl : l.length = n) :
    Reindexed (through σ rounds.reverse) l (rounds.foldl step l) := by
  induction rounds generalizing l with
  | nil => exact .refl l
  | cons r rounds ih =>
    have hfirst := hstep l r hl
    have hrest := ih (step l r) (hfirst.1.trans hl)
    have hall := hfirst.trans hrest fun i hi => by
      rw [hl] at hi ⊢
      exact through_lt hσ _ hi
    have hrounds : through σ (r :: rounds).reverse = fun i => σ r (through σ rounds.reverse i) := by
      funext i
      unfold through
      rw [List.reverse_cons, List.foldl_append]
      rfl
    rw [hrounds]
    exact hall

theorem Reindexed.eq_of_id {f : Nat → Nat} {l l' : List α} (h : Reindexed f l l') (hf : ∀ i < l.length, f i = i) : l' = l := by
  apply List.ext_getElem?
  intro i
  by_cases hi : i < l.length
  · rw [h.2 i hi, hf i hi]
  · have hle : l.length ≤ i := Nat.le_of_not_lt hi
    rw [List.getElem?_eq_none hle, List.getElem?_eq_none (h.1.symm ▸ hle)]

/-! ## One round -/

def mirrored (n pivot i : Nat) : Nat := (pivot + n - i) % n

def swapOrNot (n pivot : Nat) (bit : Nat → Bool) (i : Nat) : Nat := if bit (max i (mirrored n pivot i)) then mirrored n pivot i else i

variable {n pivot i : Nat} {bit : Nat → Bool}

theorem mirrored_of_le (hpivot : pivot < n) (hi : i ≤ pivot) : mirrored n pivot i = pivot - i := by
  unfold mirrored
  have hsum : pivot + n - i = pivot - i + n := by omega
  rw [hsum, Nat.add_mod_right, Nat.mod_eq_of_lt (by omega)]

theorem mirrored_of_lt (hi : pivot < i) (hlt : i < n) : mirrored n pivot i = pivot + n - i := by
  unfold mirrored
  rw [Nat.mod_eq_of_lt (by omega)]

theorem mirrored_lt (hlt : i < n) : mirrored n pivot i < n := Nat.mod_lt _ (by omega)

theorem mirrored_mirrored (hpivot : pivot < n) (hlt : i < n) : mirrored n pivot (mirrored n pivot i) = i := by
  by_cases hi : i ≤ pivot
  · rw [mirrored_of_le hpivot hi, mirrored_of_le hpivot (Nat.sub_le _ _)]
    omega
  · have hgt : pivot < i := Nat.lt_of_not_le hi
    rw [mirrored_of_lt hgt hlt, mirrored_of_lt (by omega) (by omega)]
    omega

theorem swapOrNot_lt (hlt : i < n) : swapOrNot n pivot bit i < n := by
  unfold swapOrNot
  split
  · exact mirrored_lt hlt
  · exact hlt

theorem swapOrNot_swapOrNot (hpivot : pivot < n) (hlt : i < n) : swapOrNot n pivot bit (swapOrNot n pivot bit i) = i := by
  by_cases hbit : bit (max i (mirrored n pivot i)) = true
  · have hswap : swapOrNot n pivot bit i = mirrored n pivot i := if_pos hbit
    rw [hswap]
    unfold swapOrNot
    rw [mirrored_mirrored hpivot hlt, Nat.max_comm, if_pos hbit]
  · have hkeep : swapOrNot n pivot bit i = i := if_neg hbit
    rw [hkeep, hkeep]

end Lib
