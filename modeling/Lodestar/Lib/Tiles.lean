import Mathlib.Data.List.Basic
import Mathlib.Data.List.Nodup
import Mathlib.Order.Monotone.Basic
/-!
# Tiles — a list cut into stretches

Stretches between consecutive bounds tile the list: put together they are the list, for any bounds that do not go back.  A grid of
stretches is the same row after row.  Where the entries are distinct, every entry lies in one stretch only.
-/
namespace Lib

variable {α β : Type}

theorem flatMap_stretches (l : List α) {bound : Nat → Nat} (hmono : Monotone bound) (hzero : bound 0 = 0) (m : Nat) :
    (List.range m).flatMap (fun k => (l.take (bound (k + 1))).drop (bound k)) = l.take (bound m) := by
  induction m with
  | zero => simp [hzero]
  | succ m ih =>
    have hle : bound m ≤ bound (m + 1) := hmono (Nat.le_succ m)
    have hprefix : l.take (bound m) = (l.take (bound (m + 1))).take (bound m) := by
      rw [List.take_take, Nat.min_eq_left hle]
    rw [List.range_succ, List.flatMap_append, ih, List.flatMap_singleton, hprefix]
    exact List.take_append_drop _ _

theorem flatMap_grid (f : Nat → List α) (rows columns : Nat) :
    (List.range rows).flatMap (fun row => (List.range columns).flatMap fun column => f (row * columns + column)) =
      (List.range (rows * columns)).flatMap f := by
  induction rows with
  | zero => simp
  | succ rows ih =>
    rw [List.range_succ, List.flatMap_append, ih, List.flatMap_singleton, Nat.succ_mul, List.range_add, List.flatMap_append,
      List.flatMap_map]

theorem index_unique_of_nodup_flatten {L : List (List α)} (h : L.flatten.Nodup) {i j : Nat} {l l' : List α} {a : α}
    (hi : L[i]? = some l) (hj : L[j]? = some l') (hal : a ∈ l) (hal' : a ∈ l') : i = j := by
  have hdisjoint := (List.nodup_flatten.1 h).2
  obtain ⟨hilt, rfl⟩ := List.getElem?_eq_some_iff.1 hi
  obtain ⟨hjlt, rfl⟩ := List.getElem?_eq_some_iff.1 hj
  rw [List.pairwise_iff_getElem] at hdisjoint
  rcases Nat.lt_trichotomy i j with hlt | heq | hgt
  · exact absurd hal' (hdisjoint i j hilt hjlt hlt hal)
  · exact heq
  · exact absurd hal (hdisjoint j i hjlt hilt hgt hal')

theorem filter_key_eq_singleton [DecidableEq β] {key : α → β} {b : β} : ∀ {l : List α}, (l.map key).Nodup → b ∈ l.map key →
    ∃ a ∈ l, key a = b ∧ l.filter (fun a => key a = b) = [a]
  | [], _, hmem => absurd hmem List.not_mem_nil
  | a :: l, hnodup, hmem => by
    rw [List.map_cons, List.nodup_cons] at hnodup
    by_cases ha : key a = b
    · refine ⟨a, List.mem_cons_self, ha, ?_⟩
      have hothers : l.filter (fun a => key a = b) = [] := by
        rw [List.filter_eq_nil_iff]
        intro c hc heq
        have hsame : key c = b := by simpa using heq
        exact hnodup.1 (List.mem_map.2 ⟨c, hc, hsame.trans ha.symm⟩)
      simp [ha, hothers]
    · have hrest : b ∈ l.map key := by
        rcases List.mem_cons.1 (List.map_cons ▸ hmem : b ∈ key a :: l.map key) with heq | hmem
        · exact absurd heq.symm ha
        · exact hmem
      obtain ⟨c, hc, hkey, hfilter⟩ := filter_key_eq_singleton hnodup.2 hrest
      refine ⟨c, List.mem_cons_of_mem a hc, hkey, ?_⟩
      simp [ha, hfilter]

end Lib
