import Mathlib.Data.List.Lex
import Mathlib.Data.List.Sort
import Lodestar.Lib.OrderedMap
/-!
# SortedMap — a key-value store in key order, and the keys an operation touches

The entries are strictly increasing in their keys, so a store is determined by what `get?` reads.  `ReadsOnly p` says of a
query that it looks at the keys of `p` alone, `WritesOnly p` of an update that it changes no other key: two operations on
disjoint sets of keys do not see each other.
-/
namespace Lib

structure SortedMap (κ ν : Type) [LinearOrder κ] where
  entries : List (κ × ν)
  sorted : entries.Pairwise (fun a b => a.1 < b.1)

namespace SortedMap

variable {κ ν : Type} [LinearOrder κ]

def empty : SortedMap κ ν := ⟨[], .nil⟩

section

variable (m : SortedMap κ ν)

def get? (k : κ) : Option ν := (m.entries.find? (fun e => decide (e.1 = k))).map (·.2)

theorem sorted_around {l : List (κ × ν)} (hl : l.Pairwise (fun a b => a.1 < b.1)) (k : κ) (v : ν) :
    (l.filter (fun e => decide (e.1 < k)) ++ (k, v) :: l.filter (fun e => decide (k < e.1))).Pairwise
      (fun a b => a.1 < b.1) := by
  refine List.pairwise_append.2 ⟨hl.filter _, List.pairwise_cons.2 ⟨fun e he => ?_, hl.filter _⟩, fun a ha b hb => ?_⟩
  · exact of_decide_eq_true (List.mem_filter.1 he).2
  · have hak : a.1 < k := of_decide_eq_true (List.mem_filter.1 ha).2
    rcases List.mem_cons.1 hb with rfl | hb
    · exact hak
    · exact hak.trans (of_decide_eq_true (List.mem_filter.1 hb).2)

def insert (k : κ) (v : ν) : SortedMap κ ν := ⟨_, sorted_around m.sorted k v⟩

def erase (k : κ) : SortedMap κ ν := ⟨m.entries.filter (fun e => decide (e.1 ≠ k)), m.sorted.filter _⟩

theorem nodup_keys : (m.entries.map (·.1)).Nodup := by
  rw [List.Nodup, List.pairwise_map]
  exact m.sorted.imp (fun h => ne_of_lt h)

end

variable {m : SortedMap κ ν} {k : κ}

theorem get?_eq_some_iff {v : ν} : m.get? k = some v ↔ (k, v) ∈ m.entries :=
  find?_key_eq_some_iff m.nodup_keys

variable {e : κ × ν}

theorem mem_insert {v : ν} :
    e ∈ (m.insert k v).entries ↔ e = (k, v) ∨ e.1 ≠ k ∧ e ∈ m.entries := by
  show e ∈ _ ++ _ ↔ _
  rw [List.mem_append, List.mem_cons, List.mem_filter, List.mem_filter, decide_eq_true_eq, decide_eq_true_eq, ne_iff_lt_or_gt]
  tauto

@[simp] theorem get?_insert (m : SortedMap κ ν) (k : κ) (v : ν) (x : κ) :
    (m.insert k v).get? x = if x = k then some v else m.get? x := by
  refine Option.ext fun y => ?_
  rw [get?_eq_some_iff, mem_insert]
  by_cases hx : x = k
  · simp [hx, eq_comm]
  · simp [hx, get?_eq_some_iff]

@[simp] theorem get?_erase (m : SortedMap κ ν) (k x : κ) : (m.erase k).get? x = if x = k then none else m.get? x := by
  refine Option.ext fun y => ?_
  rw [get?_eq_some_iff]
  by_cases hx : x = k
  · simp [erase, hx]
  · simp [erase, hx, get?_eq_some_iff]

theorem get?_foldl_erase : ∀ (keys : List κ) (m : SortedMap κ ν) (k : κ),
    (keys.foldl erase m).get? k = if k ∈ keys then none else m.get? k
  | [], m, k => by simp
  | x :: keys, m, k => by
    rw [List.foldl_cons, get?_foldl_erase keys, get?_erase]
    by_cases hk : k ∈ keys
    · simp [hk]
    · by_cases hx : k = x
      · simp [hx]
      · simp [hk, hx]

theorem get?_foldl_insert_of_not_mem : ∀ (items : List (κ × ν)) (m : SortedMap κ ν) {k : κ}, k ∉ items.map (·.1) →
    (items.foldl (fun m item => m.insert item.1 item.2) m).get? k = m.get? k
  | [], _, _, _ => rfl
  | item :: items, m, k, hk => by
    rw [List.map_cons, List.mem_cons, not_or] at hk
    rw [List.foldl_cons, get?_foldl_insert_of_not_mem items _ hk.2, get?_insert, if_neg hk.1]

/-- **Where the keys of a batch differ, each reads as its own value.** -/
theorem get?_foldl_insert_of_mem : ∀ (items : List (κ × ν)) (m : SortedMap κ ν), (items.map (·.1)).Nodup →
    ∀ item ∈ items, (items.foldl (fun m item => m.insert item.1 item.2) m).get? item.1 = some item.2
  | [], _, _, _, hmem => absurd hmem List.not_mem_nil
  | first :: items, m, hnodup, item, hmem => by
    obtain ⟨hfirst, hnodup⟩ := List.nodup_cons.1 hnodup
    rw [List.foldl_cons]
    rcases List.mem_cons.1 hmem with rfl | hmem
    · rw [get?_foldl_insert_of_not_mem items _ hfirst, get?_insert, if_pos rfl]
    · exact get?_foldl_insert_of_mem items _ hnodup item hmem

theorem getLast?_eq_some (he : e ∈ m.entries) (hmax : ∀ e' ∈ m.entries, e'.1 ≤ e.1) :
    m.entries.getLast? = some e := by
  obtain ⟨l, l', hl⟩ := List.append_of_mem he
  have hnil : l' = [] := by
    cases l' with
    | nil => rfl
    | cons e' l' =>
      have hsorted := m.sorted
      rw [hl, List.pairwise_append, List.pairwise_cons] at hsorted
      have hlt := hsorted.2.1.1 e' List.mem_cons_self
      have hmem : e' ∈ m.entries := by
        rw [hl]
        simp
      exact absurd (hmax e' hmem) (not_le_of_gt hlt)
  rw [hl, hnil, List.getLast?_append]
  rfl

/-- **The entries of a set of keys are those of a list in key order that has the rows read there.** -/
theorem filter_entries_eq {p : κ → Bool} {l : List (κ × ν)} (hsorted : l.Pairwise (fun a b => a.1 < b.1))
    (h : ∀ k v, m.get? k = some v ∧ p k = true ↔ (k, v) ∈ l) : m.entries.filter (fun e => p e.1) = l := by
  refine List.Pairwise.eq_of_mem_iff (m.sorted.filter _) hsorted fun ⟨k, v⟩ => ?_
  rw [List.mem_filter, ← get?_eq_some_iff]
  exact h k v

variable {m m' : SortedMap κ ν}

theorem filter_entries_congr {p : κ → Bool} (h : ∀ k, p k = true → m.get? k = m'.get? k) :
    m.entries.filter (fun e => p e.1) = m'.entries.filter (fun e => p e.1) := by
  refine filter_entries_eq (m'.sorted.filter _) fun k v => ?_
  rw [List.mem_filter, ← get?_eq_some_iff]
  exact and_congr_left fun hp => by rw [h k hp]

theorem ext_get? (h : ∀ k, m.get? k = m'.get? k) : m = m' := by
  have hall : ∀ l : List (κ × ν), l.filter (fun _ => true) = l := fun l => List.filter_eq_self.2 fun _ _ => rfl
  have hentries : m.entries = m'.entries := by
    rw [← hall m.entries, ← hall m'.entries]
    exact @filter_entries_congr _ _ _ _ _ (fun _ => true) fun k _ => h k
  cases m
  cases m'
  cases hentries
  rfl

/-! ## Enumerated values -/

def enumerate (l : List ν) : SortedMap Nat ν where
  entries := l.mapIdx fun i v => (i, v)
  sorted := by
    rw [List.pairwise_iff_getElem]
    intro i j hi hj hij
    simpa using hij

theorem mem_enumerate {l : List ν} {e : Nat × ν} : e ∈ (enumerate l).entries ↔ l[e.1]? = some e.2 := by
  obtain ⟨i, v⟩ := e
  show (i, v) ∈ l.mapIdx _ ↔ _
  rw [List.mem_mapIdx]
  constructor
  · rintro ⟨j, hj, heq⟩
    cases heq
    exact List.getElem?_eq_getElem hj
  · intro h
    obtain ⟨hi, hv⟩ := List.getElem?_eq_some_iff.1 h
    exact ⟨i, hi, by rw [hv]⟩

@[simp] theorem get?_enumerate (l : List ν) (i : Nat) : (enumerate l).get? i = l[i]? := by
  refine Option.ext fun v => ?_
  rw [get?_eq_some_iff, mem_enumerate]

theorem map_snd_enumerate (l : List ν) : (enumerate l).entries.map (·.2) = l := by
  refine List.ext_getElem? fun i => ?_
  show ((l.mapIdx _).map _)[i]? = _
  rw [List.getElem?_map, List.getElem?_mapIdx, Option.map_map]
  exact congrFun Option.map_id l[i]?

theorem enumerate_concat (l : List ν) (v : ν) : (enumerate l).insert l.length v = enumerate (l ++ [v]) := by
  refine ext_get? fun i => ?_
  rw [get?_insert, get?_enumerate, get?_enumerate]
  by_cases hi : i = l.length
  · simp [hi]
  · rw [if_neg hi]
    rcases Nat.lt_or_gt_of_ne hi with hlt | hgt
    · rw [List.getElem?_append_left hlt]
    · rw [List.getElem?_eq_none (by omega), List.getElem?_eq_none (by simp; omega)]

theorem foldl_insert_enumerate : ∀ (items : List (Nat × ν)) (l : List ν),
    (∀ (i : Nat) item, items[i]? = some item → item.1 = l.length + i) →
    items.foldl (fun m item => m.insert item.1 item.2) (enumerate l) = enumerate (l ++ items.map (·.2))
  | [], l, _ => by rw [List.map_nil, List.append_nil, List.foldl_nil]
  | item :: items, l, h => by
    have hkey : item.1 = l.length := h 0 item rfl
    have hrest : ∀ (i : Nat) item', items[i]? = some item' → item'.1 = (l ++ [item.2]).length + i := by
      intro i item' hitem'
      have := h (i + 1) item' hitem'
      rw [List.length_append, List.length_singleton]
      omega
    rw [List.foldl_cons, hkey, enumerate_concat, foldl_insert_enumerate items (l ++ [item.2]) hrest, List.append_assoc]
    rfl

theorem filter_enumerate (l : List ν) (n : Nat) :
    (enumerate l).entries.filter (fun e => decide (e.1 ≤ n)) = (enumerate (l.take (n + 1))).entries := by
  refine @filter_entries_eq _ _ _ _ (fun i => decide (i ≤ n)) _ (enumerate (l.take (n + 1))).sorted fun i v => ?_
  rw [get?_enumerate, mem_enumerate, List.getElem?_take, decide_eq_true_eq]
  by_cases hlt : i < n + 1
  · rw [if_pos hlt]
    exact and_iff_left (by omega)
  · rw [if_neg hlt]
    constructor
    · rintro ⟨-, hle⟩
      omega
    · intro h
      cases h

/-! ## Footprints -/

/-- The answer of `query` depends on the keys of `p` alone. -/
def ReadsOnly {α : Type} (p : κ → Prop) (query : SortedMap κ ν → α) : Prop :=
  ∀ m m', (∀ k, p k → m.get? k = m'.get? k) → query m = query m'

/-- `update` leaves every key outside `p` as it was. -/
def WritesOnly (p : κ → Prop) (update : SortedMap κ ν → SortedMap κ ν) : Prop :=
  ∀ m k, ¬ p k → (update m).get? k = m.get? k

variable {α β : Type} {p q : κ → Prop}

variable {query : SortedMap κ ν → α} {update f g : SortedMap κ ν → SortedMap κ ν}

theorem ReadsOnly.frame (hq : ReadsOnly p query) (hu : WritesOnly q update) (hpq : ∀ k, p k → ¬ q k) (m : SortedMap κ ν)
    : query (update m) = query m :=
  hq _ _ fun k hk => hu m k (hpq k hk)

theorem ReadsOnly.of {query' : SortedMap κ ν → β} (hq : ReadsOnly p query) (h : ∀ m m', query m = query m' → query' m = query' m') :
    ReadsOnly p query' :=
  fun m m' hm => h m m' (hq m m' hm)

theorem readsOnly_get? (hk : p k) : ReadsOnly p (fun m : SortedMap κ ν => m.get? k) := fun _ _ h => h k hk

theorem readsOnly_filter {r : κ → Bool} (hr : ∀ k, r k = true → p k) :
    ReadsOnly p (fun m : SortedMap κ ν => m.entries.filter (fun e => r e.1)) :=
  fun _ _ h => filter_entries_congr fun k hk => h k (hr k hk)

theorem WritesOnly.id : WritesOnly p (fun m : SortedMap κ ν => m) := fun _ _ _ => rfl

theorem WritesOnly.comp (hf : WritesOnly p f) (hg : WritesOnly p g) : WritesOnly p (fun m => g (f m)) :=
  fun m k hk => by rw [hg _ k hk, hf m k hk]

theorem writesOnly_insert (hk : p k) (v : ν) : WritesOnly p (fun m => m.insert k v) := by
  intro m x hx
  have hne : x ≠ k := fun h => hx (h ▸ hk)
  rw [get?_insert, if_neg hne]

theorem writesOnly_erase (hk : p k) : WritesOnly p (fun m : SortedMap κ ν => m.erase k) := by
  intro m x hx
  have hne : x ≠ k := fun h => hx (h ▸ hk)
  rw [get?_erase, if_neg hne]

theorem writesOnly_foldl {step : SortedMap κ ν → α → SortedMap κ ν} :
    ∀ (l : List α), (∀ a ∈ l, WritesOnly p (fun m => step m a)) → WritesOnly p (fun m => l.foldl step m)
  | [], _ => WritesOnly.id
  | a :: l, h =>
    (h a List.mem_cons_self).comp (writesOnly_foldl l fun b hb => h b (List.mem_cons_of_mem a hb))

theorem WritesOnly.choose (choice : SortedMap κ ν → α) {update : α → SortedMap κ ν → SortedMap κ ν}
    (h : ∀ a, WritesOnly p (update a)) : WritesOnly p (fun m => update (choice m) m) :=
  fun m k hk => h (choice m) m k hk

end SortedMap

end Lib
