import Mathlib.Order.Lattice
import Mathlib.Data.List.Basic
import Mathlib.Data.List.Perm.Basic
/-!
# Greatest — passes that keep the greatest

A pass that lets go of what it has only for a greater key ends with the first of the elements with the greatest key
(`IsFirstGreatest.foldl`).  Where elements of one key are equal it ends with the same element in whatever order they come,
and however often: `IsFirstGreatest.eq_of_mem_iff`.

`latest start l` is the latest of `start` and the times in `l`.  `latestPass` finds it in one pass and counts on the way, one
short unless the latest is the start (`latestPass_eq`).
-/
namespace Lib

section FirstGreatest

variable {α κ : Type} [LinearOrder κ] (key : α → κ)

def keepGreater (kept : Option α) (a : α) : Option α :=
  match kept with
  | none => some a
  | some b => if key b < key a then some a else some b

def IsFirstGreatest (l : List α) : Option α → Prop
  | none => l = []
  | some a => ∃ before after, l = before ++ a :: after ∧ (∀ b ∈ before, key b < key a) ∧ ∀ b ∈ after, key b ≤ key a

variable {key} {l l' : List α} {kept kept' : Option α} {a b : α}

theorem keepGreater_self (kept : Option α) (a : α) : keepGreater key (keepGreater key kept a) a = keepGreater key kept a := by
  cases kept with
  | none => simp [keepGreater]
  | some b => by_cases h : key b < key a <;> simp [keepGreater, h]

namespace IsFirstGreatest

theorem toList (kept : Option α) : IsFirstGreatest key kept.toList kept := by
  cases kept with
  | none => rfl
  | some a => exact ⟨[], [], rfl, by simp, by simp⟩

theorem mem (h : IsFirstGreatest key l (some a)) : a ∈ l := by
  obtain ⟨before, after, rfl, -, -⟩ := h
  simp

theorem le (h : IsFirstGreatest key l (some a)) (hb : b ∈ l) : key b ≤ key a := by
  obtain ⟨before, after, rfl, hbefore, hafter⟩ := h
  rcases List.mem_append.1 hb with hb | hb
  · exact le_of_lt (hbefore b hb)
  · rcases List.mem_cons.1 hb with rfl | hb
    · exact le_refl _
    · exact hafter b hb

theorem eq_head (h : IsFirstGreatest key (b :: l) (some a)) (hkey : key b = key a) : a = b := by
  obtain ⟨before, after, hl, hbefore, -⟩ := h
  cases before with
  | nil => exact (List.cons.inj hl).1.symm
  | cons c before =>
    obtain ⟨rfl, -⟩ := List.cons.inj hl
    exact absurd hkey (ne_of_lt (hbefore b List.mem_cons_self))

theorem concat (h : IsFirstGreatest key l kept) (a : α) : IsFirstGreatest key (l ++ [a]) (keepGreater key kept a) := by
  cases kept with
  | none =>
    obtain rfl : l = [] := h
    exact ⟨[], [], rfl, by simp, by simp⟩
  | some b =>
    by_cases hlt : key b < key a
    · simp only [keepGreater, if_pos hlt]
      exact ⟨l, [], rfl, fun c hc => lt_of_le_of_lt (h.le hc) hlt, by simp⟩
    · simp only [keepGreater, if_neg hlt]
      obtain ⟨before, after, rfl, hbefore, hafter⟩ := h
      refine ⟨before, after ++ [a], by simp, hbefore, fun c hc => ?_⟩
      rcases List.mem_append.1 hc with hc | hc
      · exact hafter c hc
      · rw [List.mem_singleton.1 hc]
        exact not_lt.1 hlt

/-- **The pass keeps the first of the elements with the greatest key**, what it starts with being the first of all. -/
theorem foldl : ∀ (more : List α) {l : List α} {kept : Option α}, IsFirstGreatest key l kept →
    IsFirstGreatest key (l ++ more) (more.foldl (keepGreater key) kept)
  | [], l, _, h => by simpa using h
  | a :: more, l, _, h => by
    have hrest := foldl more (h.concat a)
    simpa using hrest

/-- **The order does not matter where elements of one key are equal**, if what comes first is the same. -/
theorem eq_of_mem_iff {start : Option α} (h : IsFirstGreatest key (start.toList ++ l) kept)
    (h' : IsFirstGreatest key (start.toList ++ l') kept') (hmem : ∀ a, a ∈ l ↔ a ∈ l')
    (hinj : ∀ a ∈ l, ∀ b ∈ l, key a = key b → a = b) : kept = kept' := by
  have hmem' : ∀ a, a ∈ start.toList ++ l ↔ a ∈ start.toList ++ l' := by
    intro a
    simp [hmem a]
  rcases kept with _ | a <;> rcases kept' with _ | a'
  · rfl
  · have hnil : start.toList ++ l = [] := h
    have := (hmem' a').2 h'.mem
    simp [hnil] at this
  · have hnil : start.toList ++ l' = [] := h'
    have := (hmem' a).1 h.mem
    simp [hnil] at this
  · have hkeys : key a = key a' := le_antisymm (h'.le ((hmem' a).1 h.mem)) (h.le ((hmem' a').2 h'.mem))
    congr 1
    cases start with
    | none => exact hinj a h.mem a' ((hmem a').2 h'.mem) hkeys
    | some s =>
      by_cases hs : key s = key a
      · -- what both start with has the greatest key, so both end with it
        exact (h.eq_head hs).trans (h'.eq_head (hs.trans hkeys)).symm
      · have ha : a ∈ l := (List.mem_cons.1 h.mem).resolve_left (by rintro rfl; exact hs rfl)
        have ha' : a' ∈ l' := (List.mem_cons.1 h'.mem).resolve_left (by rintro rfl; exact hs hkeys.symm)
        exact hinj a ha a' ((hmem a').2 ha') hkeys

end IsFirstGreatest

end FirstGreatest

/-! ## The latest of some times -/

section Latest

variable {α : Type} [LinearOrder α]

def latest (start : α) (l : List α) : α := l.foldl max start

theorem latest_cons (start a : α) (l : List α) : latest start (a :: l) = latest (max start a) l := rfl

theorem start_le_latest : ∀ (l : List α) (start : α), start ≤ latest start l
  | [], start => le_refl start
  | a :: l, start => le_trans (le_max_left start a) (start_le_latest l (max start a))

theorem le_latest : ∀ (l : List α) (start : α) {a : α}, a ∈ l → a ≤ latest start l
  | b :: l, start, a, h => by
    rcases List.mem_cons.1 h with rfl | h
    · exact le_trans (le_max_right start a) (start_le_latest l _)
    · exact le_latest l _ h

theorem latest_mem : ∀ (l : List α) (start : α), latest start l = start ∨ latest start l ∈ l
  | [], start => .inl rfl
  | a :: l, start => by
    rw [latest_cons]
    by_cases hle : a ≤ start
    · rw [max_eq_left hle]
      exact (latest_mem l start).imp_right (List.mem_cons_of_mem a)
    · rw [max_eq_right (le_of_lt (not_le.1 hle))]
      refine .inr ?_
      rcases latest_mem l a with h | h
      · rw [h]
        exact List.mem_cons_self
      · exact List.mem_cons_of_mem a h

theorem latest_append (start : α) (l l' : List α) : latest start (l ++ l') = latest (latest start l) l' :=
  List.foldl_append

variable {l l' : List α}

theorem latest_congr {start : α} (h : ∀ a, a ∈ l ↔ a ∈ l') : latest start l = latest start l' := by
  have hle : ∀ {l l' : List α}, (∀ a ∈ l, a ∈ l') → latest start l ≤ latest start l' := by
    intro l l' hsub
    rcases latest_mem l start with hs | hmem
    · rw [hs]
      exact start_le_latest l' start
    · exact le_latest l' start (hsub _ hmem)
  exact le_antisymm (hle fun a => (h a).1) (hle fun a => (h a).2)

theorem latest_perm (h : l.Perm l') (start : α) : latest start l = latest start l' :=
  h.foldl_eq' (fun a _ b _ c => by rw [max_assoc, max_assoc, max_comm a b]) start

theorem latest_insert (start a : α) (l : List α) : latest start (a :: l) = max (latest start l) a := by
  rw [latest_perm (List.perm_append_singleton a l).symm start]
  simp [latest]

theorem count_eq_zero_of_latest_lt {start a : α} {l : List α} (h : latest start l < a) : l.count a = 0 :=
  List.count_eq_zero.2 fun hmem => absurd (le_latest l start hmem) (not_le.2 h)

def latestPass (queue : α × Nat) (l : List α) : α × Nat :=
  l.foldl (fun queue a => if a = queue.1 then (queue.1, queue.2 + 1) else if queue.1 < a then (a, 0) else queue) queue

theorem latestPass_eq : ∀ (l : List α) (start : α) (count : Nat), latestPass (start, count) l =
    (latest start l, if latest start l = start then count + l.count start else l.count (latest start l) - 1)
  | [], start, count => by simp [latestPass, latest]
  | a :: l, start, count => by
    have hstep : latestPass (start, count) (a :: l) =
        latestPass (if a = start then (start, count + 1) else if start < a then (a, 0) else (start, count)) l := rfl
    rw [hstep, latest_cons]
    rcases lt_trichotomy a start with hlt | rfl | hgt
    · -- an earlier time is passed over, and it is not the latest
      have hle := start_le_latest l start
      have hne : a ≠ latest start l := ne_of_lt (lt_of_lt_of_le hlt hle)
      rw [if_neg (ne_of_lt hlt), if_neg (not_lt.2 (le_of_lt hlt)), latestPass_eq l start count, max_eq_left (le_of_lt hlt)]
      simp [ne_of_lt hlt, hne]
    · rw [if_pos rfl, latestPass_eq l a (count + 1), max_self]
      by_cases hself : latest a l = a
      · simp [hself]
        omega
      · simp [hself, Ne.symm hself]
    · have hle := start_le_latest l a
      have hne : latest a l ≠ start := ne_of_gt (lt_of_lt_of_le hgt hle)
      rw [if_neg (ne_of_gt hgt), if_pos hgt, latestPass_eq l a 0, max_eq_right (le_of_lt hgt), if_neg hne]
      by_cases hself : latest a l = a
      · simp [hself]
      · simp [hself, Ne.symm hself]

end Latest

end Lib
