import Mathlib.Data.List.Sort
import Lodestar.Lib.Updates
import Lodestar.StateTransition.Util
/-!
# Registry — how the records of validators may change within an epoch

An activation or an exit that is set in epoch `c` takes effect after epoch `c + 1`, and a new validator is not active before
it either.  So the validators active in any epoch up to `c + 1` stay the same: `active_of_evolves`.
-/
namespace Lodestar.StateTransition

open Lib

/-! ## Indices -/

variable {test : Validator → Bool} {i c c' : Nat}

theorem mem_indicesWhere {validators : List Validator} :
    i ∈ indicesWhere test validators ↔ ∃ v, validators[i]? = some v ∧ test v = true := by
  unfold indicesWhere
  rw [List.mem_map]
  constructor
  · rintro ⟨⟨v, k⟩, hmem, rfl⟩
    rw [List.mem_filter, List.mem_zipIdx_iff_getElem?] at hmem
    exact ⟨v, hmem.1, hmem.2⟩
  · rintro ⟨v, hv, ht⟩
    refine ⟨(v, i), ?_, rfl⟩
    rw [List.mem_filter, List.mem_zipIdx_iff_getElem?]
    exact ⟨hv, ht⟩

section

variable (test : Validator → Bool) (validators : List Validator)

theorem indicesWhere_nodup : (indicesWhere test validators).Nodup :=
  (nodup_map_snd_zipIdx validators 0).sublist (List.filter_sublist.map _)

theorem indicesWhere_sorted : (indicesWhere test validators).Pairwise (· < ·) := by
  refine List.Pairwise.sublist (List.filter_sublist.map _) ?_
  rw [List.zipIdx_map_snd]
  exact List.pairwise_lt_range'

end

variable {l l' : List Validator}

theorem indicesWhere_congr (h : ∀ i : Nat, (∃ v, l[i]? = some v ∧ test v = true) ↔ ∃ v, l'[i]? = some v ∧ test v = true) :
    indicesWhere test l = indicesWhere test l' := by
  refine List.Perm.eq_of_pairwise' (r := (· < ·)) (indicesWhere_sorted test l) (indicesWhere_sorted test l') ?_
  rw [List.perm_ext_iff_of_nodup (indicesWhere_nodup test l) (indicesWhere_nodup test l')]
  intro i
  rw [mem_indicesWhere, mem_indicesWhere, h i]

/-! ## What a record may become -/

theorem le_computeActivationExitEpoch (P : Preset) (c : Nat) : c + 2 ≤ computeActivationExitEpoch P c := by
  have := P.maxSeedLookahead_pos
  unfold computeActivationExitEpoch
  omega

/-- What a record may become in epoch `c`: an activation or an exit that was not set is set to take effect after the next
epoch. -/
structure Aged (c : Nat) (v v' : Validator) : Prop where
  pubkey : v'.pubkey = v.pubkey
  activationEpoch : v'.activationEpoch = v.activationEpoch ∨ v.activationEpoch = ⊤ ∧ ((c + 2 : Nat) : ℕ∞) ≤ v'.activationEpoch
  exitEpoch : v'.exitEpoch = v.exitEpoch ∨ v.exitEpoch = ⊤ ∧ ((c + 2 : Nat) : ℕ∞) ≤ v'.exitEpoch

theorem Aged.refl (c : Nat) (v : Validator) : Aged c v v := ⟨rfl, .inl rfl, .inl rfl⟩

variable {v₁ v₂ v₃ : Validator}

theorem later_trans {e₁ e₂ e₃ bound : ℕ∞} (h : e₂ = e₁ ∨ e₁ = ⊤ ∧ bound ≤ e₂) (h' : e₃ = e₂ ∨ e₂ = ⊤ ∧ bound ≤ e₃) :
    e₃ = e₁ ∨ e₁ = ⊤ ∧ bound ≤ e₃ := by
  rcases h' with h₃ | ⟨h₂, h₃⟩ <;> rcases h with h₁ | ⟨h₁, hle⟩
  · exact .inl (h₃.trans h₁)
  · exact .inr ⟨h₁, h₃ ▸ hle⟩
  · exact .inr ⟨h₁ ▸ h₂, h₃⟩
  · exact .inr ⟨h₁, h₃⟩

theorem Aged.trans (h : Aged c v₁ v₂) (h' : Aged c v₂ v₃) : Aged c v₁ v₃ :=
  ⟨h'.pubkey.trans h.pubkey, later_trans h.activationEpoch h'.activationEpoch, later_trans h.exitEpoch h'.exitEpoch⟩

theorem Aged.mono (h : Aged c' v₁ v₂) (hle : c ≤ c') : Aged c v₁ v₂ := by
  have hlater : ((c + 2 : Nat) : ℕ∞) ≤ ((c' + 2 : Nat) : ℕ∞) := by exact_mod_cast Nat.add_le_add_right hle 2
  exact ⟨h.pubkey, h.activationEpoch.imp_right (And.imp_right hlater.trans), h.exitEpoch.imp_right (And.imp_right hlater.trans)⟩

structure AgedSameBalance (c : Nat) (v v' : Validator) : Prop extends Aged c v v' where
  effectiveBalance : v'.effectiveBalance = v.effectiveBalance

theorem AgedSameBalance.refl (c : Nat) (v : Validator) : AgedSameBalance c v v := ⟨Aged.refl c v, rfl⟩

theorem AgedSameBalance.trans (h : AgedSameBalance c v₁ v₂) (h' : AgedSameBalance c v₂ v₃) : AgedSameBalance c v₁ v₃ :=
  ⟨h.toAged.trans h'.toAged, h'.effectiveBalance.trans h.effectiveBalance⟩

/-- A record that is active in no epoch up to `c + 1`. -/
def Dormant (c : Nat) (v : Validator) : Prop := ((c + 2 : Nat) : ℕ∞) ≤ v.activationEpoch

variable {v v' : Validator}

theorem Dormant.aged (h : Dormant c v) (h' : Aged c v v') : Dormant c v' := by
  rcases h'.activationEpoch with h₁ | ⟨-, h₁⟩
  · unfold Dormant
    rwa [h₁]
  · exact h₁

theorem Dormant.mono (h : Dormant c' v) (hle : c ≤ c') : Dormant c v := by
  refine le_trans ?_ h
  exact_mod_cast Nat.add_le_add_right hle 2

variable {c e : Nat}

theorem Dormant.not_active {v : Validator} (h : Dormant c v) (he : e ≤ c + 1) : isActiveValidator v e = false := by
  have hlt : ((e : Nat) : ℕ∞) < v.activationEpoch := lt_of_lt_of_le (by exact_mod_cast (by omega : e < c + 2)) h
  simp [isActiveValidator, not_le.2 hlt]

theorem Aged.isActive (h : Aged c v v') (he : e ≤ c + 1) :
    isActiveValidator v' e = isActiveValidator v e := by
  have hlt : ((e : Nat) : ℕ∞) < ((c + 2 : Nat) : ℕ∞) := by exact_mod_cast (by omega : e < c + 2)
  have hact : v'.activationEpoch ≤ (e : ℕ∞) ↔ v.activationEpoch ≤ (e : ℕ∞) := by
    rcases h.activationEpoch with h₁ | ⟨h₁, hle⟩
    · rw [h₁]
    · simp [h₁, not_le.2 (lt_of_lt_of_le hlt hle)]
  have hexit : (e : ℕ∞) < v'.exitEpoch ↔ (e : ℕ∞) < v.exitEpoch := by
    rcases h.exitEpoch with h₁ | ⟨h₁, hle⟩
    · rw [h₁]
    · simp [h₁, lt_of_lt_of_le hlt hle]
  simp [isActiveValidator, hact, hexit]

theorem active_of_evolves {N : Validator → Prop} (h : Evolves (Aged c) N l l') (hN : ∀ v, N v → Dormant c v) (he : e ≤ c + 1) :
    indicesWhere (isActiveValidator · e) l' = indicesWhere (isActiveValidator · e) l := by
  refine indicesWhere_congr fun i => ?_
  cases hv : l[i]? with
  | none =>
    constructor
    · rintro ⟨v', hv', ht⟩
      rw [(hN v' (h.new i v' hv' hv)).not_active he] at ht
      cases ht
    · rintro ⟨v, hv', -⟩
      cases hv'
  | some v =>
    obtain ⟨v', hv', haged⟩ := h.old i v hv
    simp only [hv', Option.some.injEq, exists_eq_left', haged.isActive he]

end Lodestar.StateTransition
