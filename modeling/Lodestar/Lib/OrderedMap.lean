import Mathlib.Data.List.Nodup
/-!
# OrderedMap — a map that keeps its keys in insertion order

`set` replaces the value of a known key in place and appends a new one; `delete` removes a key.  The entries are the
iteration order.
-/
namespace Lib

theorem find?_key_eq_some_iff {κ ν : Type} [DecidableEq κ] {l : List (κ × ν)} (hnd : (l.map (·.1)).Nodup) {k : κ} {v : ν} :
    (l.find? (fun e => decide (e.1 = k))).map (·.2) = some v ↔ (k, v) ∈ l := by
  rw [Option.map_eq_some_iff]
  constructor
  · rintro ⟨e, he, rfl⟩
    have hk : e.1 = k := by simpa using List.find?_some he
    rw [← hk]
    exact List.mem_of_find?_eq_some he
  · intro hmem
    obtain ⟨e, he⟩ : ∃ e, l.find? (fun e => decide (e.1 = k)) = some e :=
      Option.isSome_iff_exists.1 (List.find?_isSome.2 ⟨(k, v), hmem, by simp⟩)
    have hk : e.1 = k := by simpa using List.find?_some he
    refine ⟨e, he, ?_⟩
    rw [List.inj_on_of_nodup_map hnd (List.mem_of_find?_eq_some he) hmem hk]

/-- Key-value pairs in insertion order, each key once. -/
structure OrderedMap (κ ν : Type) where
  entries : List (κ × ν)
  nodup : (entries.map (·.1)).Nodup
deriving DecidableEq

namespace OrderedMap

variable {κ ν : Type} [DecidableEq κ]

def empty : OrderedMap κ ν := ⟨[], List.nodup_nil⟩

def size (m : OrderedMap κ ν) : Nat := m.entries.length

def get? (m : OrderedMap κ ν) (k : κ) : Option ν := (m.entries.find? (fun e => decide (e.1 = k))).map (·.2)

def has (m : OrderedMap κ ν) (k : κ) : Bool := (m.get? k).isSome

variable {m : OrderedMap κ ν} {k : κ}

theorem get?_eq_none_iff : m.get? k = none ↔ k ∉ m.entries.map (·.1) := by
  unfold get?
  rw [Option.map_eq_none_iff, List.find?_eq_none, List.mem_map]
  constructor
  · rintro h ⟨e, he, rfl⟩
    exact h e he (by simp)
  · intro h e he hk
    exact h ⟨e, he, by simpa using hk⟩

theorem has_iff : m.has k = true ↔ k ∈ m.entries.map (·.1) := by
  unfold has
  rw [← not_iff_not, ← get?_eq_none_iff]
  simp

variable {v : ν}

theorem get?_eq_some_iff : m.get? k = some v ↔ (k, v) ∈ m.entries :=
  find?_key_eq_some_iff m.nodup

private theorem keys_replace (es : List (κ × ν)) (k : κ) (v : ν) :
    (es.map (fun e => if e.1 = k then (k, v) else e)).map (·.1) = es.map (·.1) := by
  rw [List.map_map]
  refine List.map_congr_left (fun e _ => ?_)
  by_cases h : e.1 = k <;> simp [h]

def set (m : OrderedMap κ ν) (k : κ) (v : ν) : OrderedMap κ ν :=
  if h : m.has k = true then
    ⟨m.entries.map (fun e => if e.1 = k then (k, v) else e), by rw [keys_replace]; exact m.nodup⟩
  else
    ⟨m.entries ++ [(k, v)], by
      rw [has_iff] at h
      rw [List.map_append, List.nodup_append]
      refine ⟨m.nodup, by simp, fun a ha b hb => ?_⟩
      obtain rfl : b = k := by simpa using hb
      rintro rfl
      exact h ha⟩

def delete (m : OrderedMap κ ν) (k : κ) : OrderedMap κ ν :=
  ⟨m.entries.filter (fun e => decide (e.1 ≠ k)), m.nodup.sublist (List.filter_sublist.map Prod.fst)⟩

theorem entries_set_new (h : m.has k = false) (v : ν) :
    (m.set k v).entries = m.entries ++ [(k, v)] := by
  unfold set
  rw [dif_neg (by simp [h])]

theorem keys_set (m : OrderedMap κ ν) (k : κ) (v : ν) : (m.set k v).entries.map (·.1) =
    if m.has k = true then m.entries.map (·.1) else m.entries.map (·.1) ++ [k] := by
  unfold set
  split
  · exact keys_replace m.entries k v
  · rw [List.map_append]
    rfl

variable {e : κ × ν}

theorem mem_set (h : e ∈ (m.set k v).entries) :
    e = (k, v) ∨ e ∈ m.entries := by
  unfold set at h
  split at h
  · obtain ⟨e', he', rfl⟩ := List.mem_map.1 h
    split
    · exact .inl rfl
    · exact .inr he'
  · rcases List.mem_append.1 h with h | h
    · exact .inr h
    · exact .inl (by simpa using h)

theorem mem_set_self (m : OrderedMap κ ν) (k : κ) (v : ν) : (k, v) ∈ (m.set k v).entries := by
  unfold set
  split
  · rename_i h
    rw [has_iff] at h
    obtain ⟨e, he, hek⟩ := List.mem_map.1 h
    exact List.mem_map.2 ⟨e, he, if_pos hek⟩
  · exact List.mem_append_right _ (List.mem_singleton.2 rfl)

theorem mem_set_of_ne (v : ν) (he : e ∈ m.entries) (hne : e.1 ≠ k) :
    e ∈ (m.set k v).entries := by
  unfold set
  split
  · exact List.mem_map.2 ⟨e, he, if_neg hne⟩
  · exact List.mem_append_left _ he

theorem get?_set (m : OrderedMap κ ν) (k k' : κ) (v : ν) : (m.set k v).get? k' = if k' = k then some v else m.get? k' := by
  split
  · rename_i h
    rw [h, get?_eq_some_iff]
    exact mem_set_self m k v
  · rename_i h
    apply Option.ext
    intro v'
    rw [get?_eq_some_iff, get?_eq_some_iff]
    constructor
    · intro hmem
      rcases mem_set hmem with heq | hmem
      · cases heq
        exact absurd rfl h
      · exact hmem
    · intro hmem
      exact mem_set_of_ne v hmem h

theorem get?_delete (m : OrderedMap κ ν) (k k' : κ) : (m.delete k).get? k' = if k' = k then none else m.get? k' := by
  apply Option.ext
  intro v
  rw [get?_eq_some_iff]
  unfold delete
  rw [List.mem_filter, ← get?_eq_some_iff, decide_eq_true_eq]
  by_cases h : k' = k
  · simp [h]
  · simp [h]

theorem get?_foldl_delete : ∀ (ks : List κ) (m : OrderedMap κ ν) (k : κ),
    (ks.foldl delete m).get? k = if k ∈ ks then none else m.get? k
  | [], _, _ => rfl
  | k :: ks, m, k' => by
    rw [List.foldl_cons, get?_foldl_delete ks (m.delete k) k', get?_delete]
    by_cases hk : k' = k <;> by_cases hrest : k' ∈ ks <;> simp [hk, hrest]

variable {pre post : List (κ × ν)}

theorem entries_set_known (h : m.entries = pre ++ (k, v) :: post) (v' : ν) :
    (m.set k v').entries = pre ++ (k, v') :: post := by
  have hnd := m.nodup
  rw [h, List.map_append, List.map_cons, List.nodup_append, List.nodup_cons] at hnd
  have hpre : ∀ e ∈ pre, (if e.1 = k then (k, v') else e) = e := by
    intro e he
    rw [if_neg]
    exact hnd.2.2 e.1 (List.mem_map_of_mem he) k List.mem_cons_self
  have hpost : ∀ e ∈ post, (if e.1 = k then (k, v') else e) = e := by
    intro e he
    rw [if_neg]
    intro hek
    exact hnd.2.1.1 (List.mem_map.2 ⟨e, he, hek⟩)
  unfold set
  rw [dif_pos (has_iff.2 (by rw [h]; simp))]
  dsimp only
  rw [h, List.map_append, List.map_cons, if_pos rfl, List.map_congr_left hpre, List.map_congr_left hpost]
  simp

theorem entries_delete_head (h : m.entries = (k, v) :: post) : (m.delete k).entries = post := by
  have hnd := m.nodup
  rw [h, List.map_cons, List.nodup_cons] at hnd
  unfold delete
  dsimp only
  rw [h, List.filter_cons, if_neg (by simp), List.filter_eq_self]
  intro e he
  rw [decide_eq_true_eq]
  intro hek
  exact hnd.1 (List.mem_map.2 ⟨e, he, hek⟩)

end OrderedMap

end Lib
