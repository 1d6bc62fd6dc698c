import Mathlib.Data.List.Pairwise
/-!
# RecordMap — records kept in the order of a key they carry

A bucket of an ordered key-value store whose records name their own key: a list strictly increasing in the key.
`insert` replaces the record of the same key, `get?` reads one back, `insertMany` is a batch written in list order.
-/
namespace Lib

structure RecordMap {α : Type} (key : α → Nat) where
  entries : List α
  sorted : entries.Pairwise (fun a b => key a < key b)
deriving DecidableEq

namespace RecordMap

variable {α : Type} {key : α → Nat}

def empty : RecordMap key := ⟨[], .nil⟩

def insertEntry (key : α → Nat) (a : α) : List α → List α
  | [] => [a]
  | b :: l => if key a < key b then a :: b :: l else if key b < key a then b :: insertEntry key a l else a :: l

theorem mem_insertEntry (a : α) : ∀ (l : List α) (x : α), x ∈ insertEntry key a l → x = a ∨ x ∈ l
  | [], x, h => by simpa [insertEntry] using h
  | b :: l, x, h => by
    unfold insertEntry at h
    split at h
    · simpa using h
    · split at h
      · rcases List.mem_cons.1 h with rfl | h
        · exact .inr List.mem_cons_self
        · exact (mem_insertEntry a l x h).imp_right (List.mem_cons_of_mem _)
      · rcases List.mem_cons.1 h with rfl | h
        · exact .inl rfl
        · exact .inr (List.mem_cons_of_mem _ h)

theorem sorted_insertEntry (a : α) : ∀ (l : List α), l.Pairwise (fun a b => key a < key b) →
    (insertEntry key a l).Pairwise (fun a b => key a < key b)
  | [], _ => by simp [insertEntry]
  | b :: l, h => by
    have hb := List.pairwise_cons.1 h
    unfold insertEntry
    split
    · rename_i hab
      refine List.pairwise_cons.2 ⟨fun x hx => ?_, h⟩
      rcases List.mem_cons.1 hx with rfl | hx
      · exact hab
      · exact Nat.lt_trans hab (hb.1 x hx)
    · split
      · rename_i hba
        refine List.pairwise_cons.2 ⟨fun x hx => ?_, sorted_insertEntry a l hb.2⟩
        rcases mem_insertEntry a l x hx with rfl | hx
        · exact hba
        · exact hb.1 x hx
      · rename_i h1 h2
        refine List.pairwise_cons.2 ⟨fun x hx => ?_, hb.2⟩
        have := hb.1 x hx
        omega

def insert (m : RecordMap key) (a : α) : RecordMap key := ⟨insertEntry key a m.entries, sorted_insertEntry a _ m.sorted⟩

def insertMany (m : RecordMap key) (as : List α) : RecordMap key := as.foldl insert m

def get? (m : RecordMap key) (k : Nat) : Option α := m.entries.find? (fun a => key a == k)

variable {m : RecordMap key} {k : Nat} {a : α}

theorem key_of_get? (h : m.get? k = some a) : key a = k := by
  simpa using List.find?_some h

theorem mem_of_get? (h : m.get? k = some a) : a ∈ m.entries :=
  List.mem_of_find?_eq_some h

theorem find?_of_sorted : ∀ {l : List α}, l.Pairwise (fun a b => key a < key b) → ∀ a ∈ l,
    l.find? (fun b => key b == key a) = some a
  | [], _, a, h => (List.not_mem_nil h).elim
  | b :: l, hs, a, h => by
    have hb := List.pairwise_cons.1 hs
    rcases List.mem_cons.1 h with rfl | h
    · simp
    · have hne : (key b == key a) = false := by
        have := hb.1 a h
        simpa using Nat.ne_of_lt this
      rw [List.find?_cons, hne]
      exact find?_of_sorted hb.2 a h

theorem get?_of_mem (h : a ∈ m.entries) : m.get? (key a) = some a :=
  find?_of_sorted m.sorted a h

theorem head?_filter {p : α → Bool} (h : (m.entries.filter p).head? = some a) :
    m.get? (key a) = some a ∧ p a = true ∧ ∀ b ∈ m.entries, p b = true → key a ≤ key b := by
  have hmem : a ∈ m.entries.filter p := List.mem_of_head? h
  have hsorted := m.sorted.filter p
  refine ⟨get?_of_mem (List.mem_filter.1 hmem).1, (List.mem_filter.1 hmem).2, fun b hb hpb => ?_⟩
  obtain ⟨l, hl⟩ : ∃ l, m.entries.filter p = a :: l := by
    cases hf : m.entries.filter p with
    | nil => rw [hf] at h; cases h
    | cons c l =>
      rw [hf] at h
      cases h
      exact ⟨l, rfl⟩
  have hb' : b ∈ a :: l := hl ▸ List.mem_filter.2 ⟨hb, hpb⟩
  rw [hl] at hsorted
  rcases List.mem_cons.1 hb' with rfl | hb'
  · exact Nat.le_refl _
  · exact Nat.le_of_lt ((List.pairwise_cons.1 hsorted).1 b hb')

theorem find?_insertEntry (a : α) (k : Nat) : ∀ (l : List α), l.Pairwise (fun a b => key a < key b) →
    (insertEntry key a l).find? (fun b => key b == k) = if key a = k then some a else l.find? (fun b => key b == k)
  | [], _ => by by_cases h : key a = k <;> simp [insertEntry, h]
  | b :: l, hs => by
    have hb := List.pairwise_cons.1 hs
    unfold insertEntry
    split
    · by_cases h : key a = k <;> simp [List.find?_cons, h]
    · rename_i hab
      split
      · rename_i hba
        rw [List.find?_cons, find?_insertEntry a k l hb.2, List.find?_cons]
        by_cases hbk : key b = k
        · have : key a ≠ k := by omega
          simp [hbk, this]
        · have : (key b == k) = false := by simpa using hbk
          rw [this]
      · rename_i hba
        by_cases h : key a = k
        · simp [h]
        · have : key b ≠ k := by omega
          simp [h, this]

theorem get?_insert (m : RecordMap key) (a : α) (k : Nat) :
    (m.insert a).get? k = if key a = k then some a else m.get? k :=
  find?_insertEntry a k m.entries m.sorted

/-- **After a batch a key holds the last record written to it, or what it held before.** -/
theorem get?_insertMany (k : Nat) : ∀ (as : List α) (m : RecordMap key),
    (m.insertMany as).get? k = ((as.reverse.find? (fun a => key a == k)).or (m.get? k))
  | [], m => rfl
  | a :: as, m => by
    show ((m.insert a).insertMany as).get? k = _
    rw [get?_insertMany k as (m.insert a), get?_insert, List.reverse_cons, List.find?_append]
    by_cases h : key a = k
    · cases (as.reverse.find? (fun a => key a == k)) <;> simp [h]
    · cases (as.reverse.find? (fun a => key a == k)) <;> simp [h]

variable {as : List α}

theorem get?_insertMany_of_notMem (h : ∀ a ∈ as, key a ≠ k) :
    (m.insertMany as).get? k = m.get? k := by
  rw [get?_insertMany, List.find?_eq_none.2 (fun a ha => by simpa using h a (List.mem_reverse.1 ha))]
  rfl

theorem get?_insertMany_of_mem (h : a ∈ as) :
    ∃ b ∈ as, key b = key a ∧ (m.insertMany as).get? (key a) = some b := by
  rw [get?_insertMany]
  cases hf : as.reverse.find? (fun b => key b == key a) with
  | none => exact absurd (List.find?_eq_none.1 hf a (List.mem_reverse.2 h)) (by simp)
  | some b => exact ⟨b, List.mem_reverse.1 (List.mem_of_find?_eq_some hf), by simpa using List.find?_some hf, rfl⟩

/-- **A batch that is the graph of a function on its keys** reads as the function there. -/
theorem get?_insertMany_map (m : RecordMap key) {g : Nat → α} (hg : ∀ k, key (g k) = k) (ks : List Nat) (k : Nat) :
    (m.insertMany (ks.map g)).get? k = if k ∈ ks then some (g k) else m.get? k := by
  split
  · rename_i hk
    have hmem : g k ∈ ks.map g := List.mem_map_of_mem hk
    obtain ⟨b, hb, hkey, hget⟩ := get?_insertMany_of_mem (m := m) hmem
    obtain ⟨j, -, rfl⟩ := List.mem_map.1 hb
    rw [hg, hg] at hkey
    rw [hg] at hget
    rw [hget, hkey]
  · rename_i hk
    refine get?_insertMany_of_notMem (fun a ha => ?_)
    obtain ⟨j, hj, rfl⟩ := List.mem_map.1 ha
    rw [hg]
    rintro rfl
    exact hk hj

theorem mem_iff_get? : a ∈ m.entries ↔ m.get? (key a) = some a :=
  ⟨get?_of_mem, mem_of_get?⟩

theorem ext_get? {m m' : RecordMap key} (h : ∀ k, m.get? k = m'.get? k) : m = m' := by
  have hmem : ∀ a, a ∈ m.entries ↔ a ∈ m'.entries := fun a => by rw [mem_iff_get?, mem_iff_get?, h]
  have hnodup : ∀ m : RecordMap key, m.entries.Nodup := fun m =>
    m.sorted.imp fun hlt => fun heq => absurd (congrArg key heq) (Nat.ne_of_lt hlt)
  have hperm : m.entries.Perm m'.entries := (List.perm_ext_iff_of_nodup (hnodup m) (hnodup m')).2 hmem
  have heq : m.entries = m'.entries :=
    hperm.eq_of_pairwise (fun a b _ _ hab hba => absurd (Nat.lt_trans hab hba) (Nat.lt_irrefl _)) m.sorted m'.sorted
  cases m
  cases m'
  cases heq
  rfl

/-- **A map written out and read in again**, into nothing or into itself. -/
theorem insertMany_entries (m : RecordMap key) {m₀ : RecordMap key} (h : m₀ = empty ∨ m₀ = m) : m₀.insertMany m.entries = m := by
  apply ext_get?
  intro k
  cases hk : m.get? k with
  | none =>
    rw [get?_insertMany_of_notMem fun a ha hkey => by
      rw [← hkey, get?_of_mem ha] at hk
      cases hk]
    rcases h with rfl | rfl
    · rfl
    · exact hk
  | some a =>
    have hkey := key_of_get? hk
    obtain ⟨b, hb, hbkey, hget⟩ := get?_insertMany_of_mem (m := m₀) (mem_of_get? hk)
    have hba : b = a := by
      have hb' := get?_of_mem hb
      rw [hbkey, hkey, hk] at hb'
      exact (Option.some.inj hb').symm
    rw [hkey] at hget
    rw [hget, hba]

end RecordMap

end Lib
