import Mathlib.Data.List.Induction
import Lodestar.Lib.Fallible
/-!
# Updates — the entries of a list rewritten one index after the other

Over a list of distinct indices, every entry is rewritten at most once, from what it was at the start.
-/
namespace Lib

variable {ε α β : Type}

/-- **Rewriting at distinct indices rewrites exactly the entries at those indices.** -/
theorem getElem?_foldl_modify (change : Nat → α → α) (j : Nat) : ∀ (indices : List Nat) (l : List α), indices.Nodup →
      (indices.foldl (fun l i => l.modify i (change i)) l)[j]? = if j ∈ indices then (l[j]?).map (change j) else l[j]?
  | [], l, _ => by simp
  | i :: indices, l, hnd => by
    obtain ⟨hi, hnd⟩ := List.nodup_cons.1 hnd
    rw [List.foldl_cons, getElem?_foldl_modify change j indices _ hnd, List.getElem?_modify]
    by_cases hij : i = j
    · subst hij
      simp [hi]
    · have hji : ¬ j = i := fun h => hij h.symm
      simp [hij, hji]

theorem foldl_range_modify (change : Nat → α → α) (l : List α) :
    (List.range l.length).foldl (fun l i => l.modify i (change i)) l = l.mapIdx change := by
  apply List.ext_getElem?
  intro j
  rw [getElem?_foldl_modify change j _ l List.nodup_range, List.getElem?_mapIdx]
  by_cases hj : j < l.length
  · simp [hj]
  · simp [hj]

variable {error : ε}

theorem getElem?_foldlM_modifyAt (change : Nat → α → α) (j : Nat) {indices : List Nat} {l l' : List α} (hnd : indices.Nodup)
    (h : indices.foldlM (fun l i => modifyAt error l i (change i)) l = .ok l') :
    l'[j]? = if j ∈ indices then (l[j]?).map (change j) else l[j]? := by
  rw [← getElem?_foldl_modify change j indices l hnd]
  clear hnd
  induction indices generalizing l with
  | nil =>
    rw [List.foldlM_nil, pure_eq_ok] at h
    rw [h, List.foldl_nil]
  | cons i indices ih =>
    rw [List.foldlM_cons, bind_eq_ok] at h
    obtain ⟨l₁, h₁, h⟩ := h
    obtain ⟨-, rfl⟩ := modifyAt_eq_ok.1 h₁
    exact ih h

theorem modify_comm {f g : α → α} (h : ∀ a, f (g a) = g (f a)) (l : List α) (i j : Nat) :
    (l.modify i f).modify j g = (l.modify j g).modify i f := by
  by_cases hij : i = j
  · subst hij
    have hfg : g ∘ f = f ∘ g := by
      funext a
      exact (h a).symm
    rw [List.modify_modify_eq, List.modify_modify_eq, hfg]
  · exact List.modify_modify_ne f g l hij

/-- **Rewriting at indices that may come again**, when doing it twice is doing it once. -/
theorem foldlM_modifyAt_eq_ok {f : α → α} (hf : ∀ a, f (f a) = f a) : ∀ (indices : List Nat) (l l' : List α),
    indices.foldlM (fun l i => modifyAt error l i f) l = .ok l' ↔
      (∀ i ∈ indices, i < l.length) ∧ l' = l.mapIdx fun i a => if i ∈ indices then f a else a
  | [], l, l' => by
    have hid : (l.mapIdx fun _ a => a) = l := by
      apply List.ext_getElem?
      simp
    rw [List.foldlM_nil, pure_eq_ok, eq_comm]
    simp [hid]
  | i :: indices, l, l' => by
    have hmap : (l.modify i f).mapIdx (fun j a => if j ∈ indices then f a else a) =
        l.mapIdx fun j a => if j ∈ i :: indices then f a else a := by
      apply List.ext_getElem?
      intro j
      rw [List.getElem?_mapIdx, List.getElem?_mapIdx, List.getElem?_modify]
      by_cases hij : i = j
      · by_cases hj : j ∈ indices <;> cases l[j]? <;> simp [hij, hj, hf]
      · by_cases hj : j ∈ indices <;> cases l[j]? <;> simp [hij, Ne.symm hij, hj]
    simp only [List.foldlM_cons, bind_eq_ok, modifyAt_eq_ok, List.forall_mem_cons]
    constructor
    · rintro ⟨_, ⟨hi, rfl⟩, h⟩
      obtain ⟨hall, rfl⟩ := (foldlM_modifyAt_eq_ok hf indices _ l').1 h
      rw [List.length_modify] at hall
      exact ⟨⟨hi, hall⟩, hmap⟩
    · rintro ⟨⟨hi, hall⟩, rfl⟩
      refine ⟨_, ⟨hi, rfl⟩, (foldlM_modifyAt_eq_ok hf indices _ _).2 ⟨?_, hmap.symm⟩⟩
      rw [List.length_modify]
      exact hall

theorem foldlM_zipIdx_modifyAt_eq_ok {f : β → α → α} (bs : List β) (l l' : List α) :
    bs.zipIdx.foldlM (fun l entry => modifyAt error l entry.2 (f entry.1)) l = .ok l' ↔
      bs.length ≤ l.length ∧ l' = l.mapIdx fun i a => (bs[i]?).elim a fun b => f b a := by
  induction bs using List.reverseRecOn generalizing l' with
  | nil =>
    have hid : (l.mapIdx fun _ a => a) = l := by
      apply List.ext_getElem?
      simp
    rw [List.zipIdx_nil, List.foldlM_nil, pure_eq_ok, eq_comm]
    simp [hid]
  | append_singleton bs b ih =>
    have hmap : (l.mapIdx fun i a => (bs[i]?).elim a fun b => f b a).modify bs.length (f b) =
        l.mapIdx fun i a => ((bs ++ [b])[i]?).elim a fun b => f b a := by
      apply List.ext_getElem?
      intro j
      rw [List.getElem?_modify, List.getElem?_mapIdx, List.getElem?_mapIdx]
      by_cases hj : bs.length = j
      · subst hj
        cases l[bs.length]? <;> simp
      · by_cases hlt : j < bs.length
        · rw [List.getElem?_append_left hlt]
          cases l[j]? <;> simp [hj]
        · have hgt : bs.length < j := by omega
          have hnone : (bs ++ [b])[j]? = none := List.getElem?_eq_none_iff.2 (by simp; omega)
          cases l[j]? <;> simp [hj, hlt, hnone]
    simp only [List.zipIdx_append, List.foldlM_append, bind_eq_ok, ih]
    simp only [List.zipIdx_cons, List.zipIdx_nil, List.foldlM_cons, List.foldlM_nil, bind_eq_ok, pure_eq_ok, modifyAt_eq_ok]
    simp only [List.length_append, List.length_singleton, Nat.zero_add]
    constructor
    · rintro ⟨_, ⟨hle, rfl⟩, _, ⟨hlt, rfl⟩, rfl⟩
      rw [List.length_mapIdx] at hlt
      exact ⟨hlt, hmap⟩
    · rintro ⟨hlt, rfl⟩
      exact ⟨_, ⟨by omega, rfl⟩, _, ⟨by rw [List.length_mapIdx]; exact hlt, rfl⟩, hmap⟩

theorem nodup_map_snd_zipIdx : ∀ (l : List α) (n : Nat), ((l.zipIdx n).map (·.2)).Nodup
  | l, n => by
    rw [List.zipIdx_map_snd]
    exact List.nodup_range'

/-! ## Loops that write at their own place -/

def addPair (lists : List Int × List Int) (i : Nat) (delta : Int × Int) : List Int × List Int :=
  (lists.1.modify i (· + delta.1), lists.2.modify i (· + delta.2))

theorem modify_append_zero (done rest : List Int) (delta : Int) :
    (done ++ 0 :: rest).modify done.length (· + delta) = done ++ delta :: rest := by
  induction done with
  | nil => simp
  | cons a done ih =>
    rw [List.cons_append, List.length_cons, List.modify_succ_cons, ih, List.cons_append]

/-- **A loop whose turns each add to zeros at their own place** lists what the turns add. -/
theorem foldlM_addPair {step : List Int × List Int → α × Nat → Except ε (List Int × List Int)}
    {delta : α × Nat → Except ε (Int × Int)} {n : Nat}
    (hstep : ∀ lists entry, lists.1.length = n → lists.2.length = n → entry.2 < n →
      step lists entry = (delta entry).map (addPair lists entry.2)) :
    ∀ (l : List α) (before before' : List Int), before'.length = before.length → before.length + l.length = n →
      (l.zipIdx before.length).foldlM step (before ++ List.replicate l.length 0, before' ++ List.replicate l.length 0) =
        ((l.zipIdx before.length).mapM delta).map fun deltas => (before ++ deltas.map (·.1), before' ++ deltas.map (·.2))
  | [], before, before', _, _ => by simp [Except.map, pure, Except.pure]
  | a :: l, before, before', heq, hlength => by
    rw [List.length_cons] at hlength
    rw [List.zipIdx_cons, List.foldlM_cons, List.mapM_cons, hstep _ _ (by simp; omega) (by simp; omega) (by simp; omega)]
    cases hdelta : delta (a, before.length) with
    | error e => rfl
    | ok d =>
      have hfirst : addPair (before ++ List.replicate (a :: l).length 0, before' ++ List.replicate (a :: l).length 0)
          before.length d =
          ((before ++ [d.1]) ++ List.replicate l.length 0, (before' ++ [d.2]) ++ List.replicate l.length 0) := by
        unfold addPair
        rw [List.length_cons, List.replicate_succ, modify_append_zero, ← heq, modify_append_zero]
        simp
      have hrest := foldlM_addPair hstep l (before ++ [d.1]) (before' ++ [d.2]) (by simp [heq]) (by simp; omega)
      rw [List.length_append, List.length_singleton] at hrest
      simp only [Except.map, bind, Except.bind, hfirst]
      rw [hrest]
      cases (l.zipIdx (before.length + 1)).mapM delta with
      | error e => rfl
      | ok ds => simp [Except.map, pure, Except.pure]

/-! ## Lists that change entry by entry and grow -/

/-- Every entry is still there, changed as `R` allows, and every further entry is as `N` says. -/
structure Evolves (R : α → α → Prop) (N : α → Prop) (l l' : List α) : Prop where
  old : ∀ (i : Nat) (a : α), l[i]? = some a → ∃ a', l'[i]? = some a' ∧ R a a'
  new : ∀ (i : Nat) (a' : α), l'[i]? = some a' → l[i]? = none → N a'

namespace Evolves

variable {R : α → α → Prop} {N : α → Prop} {l l' l'' : List α}

theorem refl (hR : ∀ a, R a a) (l : List α) : Evolves R N l l where
  old i a h := ⟨a, h, hR a⟩
  new i a' h h' := by rw [h'] at h; cases h

theorem trans (hR : ∀ a b c, R a b → R b c → R a c) (hN : ∀ a b, N a → R a b → N b)
    (h : Evolves R N l l') (h' : Evolves R N l' l'') : Evolves R N l l'' where
  old i a ha := by
    obtain ⟨b, hb, hab⟩ := h.old i a ha
    obtain ⟨c, hc, hbc⟩ := h'.old i b hb
    exact ⟨c, hc, hR a b c hab hbc⟩
  new i c hc ha := by
    cases hb : l'[i]? with
    | none => exact h'.new i c hc hb
    | some b =>
      obtain ⟨c', hc', hbc⟩ := h'.old i b hb
      rw [hc, Option.some.injEq] at hc'
      subst hc'
      exact hN b c (h.new i b hb ha) hbc

theorem mono {R' : α → α → Prop} {N' : α → Prop} (hR : ∀ a b, R a b → R' a b) (hN : ∀ a, N a → N' a)
    (h : Evolves R N l l') : Evolves R' N' l l' where
  old i a ha := by
    obtain ⟨b, hb, hab⟩ := h.old i a ha
    exact ⟨b, hb, hR a b hab⟩
  new i b hb ha := hN b (h.new i b hb ha)

theorem foldl_modify (hR : ∀ a, R a a) (change : Nat → α → α) (indices : List Nat) (hnd : indices.Nodup)
    (hchange : ∀ i ∈ indices, ∀ a, l[i]? = some a → R a (change i a)) :
    Evolves R N l (indices.foldl (fun l i => l.modify i (change i)) l) where
  old i a ha := by
    rw [getElem?_foldl_modify change i indices l hnd]
    by_cases hi : i ∈ indices
    · exact ⟨change i a, by simp [hi, ha], hchange i hi a ha⟩
    · exact ⟨a, by simp [hi, ha], hR a⟩
  new i b hb ha := by
    rw [getElem?_foldl_modify change i indices l hnd, ha] at hb
    simp at hb

theorem modify (hR : ∀ a, R a a) (i : Nat) (change : α → α) (hchange : ∀ a, l[i]? = some a → R a (change a)) :
    Evolves R N l (l.modify i change) := by
  refine foldl_modify (l := l) hR (fun _ => change) [i] (by simp) fun j hj => ?_
  rw [List.mem_singleton] at hj
  exact hj ▸ hchange

theorem append (hR : ∀ a, R a a) {more : List α} (hN : ∀ a ∈ more, N a) : Evolves R N l (l ++ more) where
  old i a ha := ⟨a, by rw [List.getElem?_append_left (List.getElem?_eq_some_iff.1 ha).1, ha], hR a⟩
  new i b hb ha := by
    rw [List.getElem?_append_right (List.getElem?_eq_none_iff.1 ha)] at hb
    exact hN b (List.mem_of_getElem? hb)

end Evolves

end Lib
