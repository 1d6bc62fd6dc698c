import Lodestar.Lib.SortedMap
/-!
# PendingWrites — a table, and a list that follows it

Writers put their items in a table first and assign them to a list later.  While some have not assigned theirs, the table is what
their items, in the order in which they were put, make of the list (`putPending`).  A writer that assigns out of turn keeps that so
where it agrees with those before it (`putPending_middle`), and an assignment within reach of the end of the list is a put
(`enumerate_assignAll`).
-/
namespace Lib.PendingWrites

open SortedMap

/-! ## Puts -/

section Puts

variable {κ ν : Type} [LinearOrder κ]

def lastOf : List (κ × ν) → κ → Option ν
  | [], _ => none
  | item :: items, k => (lastOf items k).or (if k = item.1 then some item.2 else none)

def putAll (m : SortedMap κ ν) (items : List (κ × ν)) : SortedMap κ ν := items.foldl (fun m item => m.insert item.1 item.2) m

def putPending (m : SortedMap κ ν) (pending : List (List (κ × ν))) : SortedMap κ ν := pending.foldl putAll m

/-- Where both have a key, they leave the same value under it. -/
def Agree (items items' : List (κ × ν)) : Prop := ∀ k v v', lastOf items k = some v → lastOf items' k = some v' → v = v'

theorem get?_putAll : ∀ (items : List (κ × ν)) (m : SortedMap κ ν) (k : κ),
    (putAll m items).get? k = (lastOf items k).or (m.get? k)
  | [], _, _ => rfl
  | item :: items, m, k => by
    show (putAll (m.insert item.1 item.2) items).get? k = ((lastOf items k).or _).or _
    rw [get?_putAll items, get?_insert, Option.or_assoc]
    congr 1
    split
    · rfl
    · rfl

variable {items items' : List (κ × ν)}

theorem putAll_comm (h : Agree items items') (m : SortedMap κ ν) :
    putAll (putAll m items) items' = putAll (putAll m items') items := by
  refine ext_get? fun k => ?_
  rw [get?_putAll, get?_putAll, get?_putAll, get?_putAll]
  cases hitems : lastOf items k with
  | none => rfl
  | some v =>
    cases hitems' : lastOf items' k with
    | none => rfl
    | some v' => exact congrArg some (h k v v' hitems hitems').symm

theorem putPending_append (m : SortedMap κ ν) (pending pending' : List (List (κ × ν))) :
    putPending m (pending ++ pending') = putPending (putPending m pending) pending' := List.foldl_append

variable {items : List (κ × ν)}

theorem putPending_putAll : ∀ {before : List (List (κ × ν))} (m : SortedMap κ ν),
    (∀ earlier ∈ before, Agree earlier items) → putAll (putPending m before) items = putPending (putAll m items) before
  | [], _, _ => rfl
  | first :: before, m, h => by
    show putAll (putPending (putAll m first) before) items = putPending (putAll (putAll m items) first) before
    rw [putPending_putAll _ fun earlier hmem => h earlier (List.mem_cons_of_mem _ hmem), putAll_comm (h first List.mem_cons_self)]

theorem putPending_middle {before after : List (List (κ × ν))} (m : SortedMap κ ν) (h : ∀ earlier ∈ before, Agree earlier items) :
    putPending m (before ++ items :: after) = putPending (putAll m items) (before ++ after) := by
  rw [putPending_append, putPending_append, ← putPending_putAll m h]
  rfl

theorem lastOf_map {ν' : Type} (f : ν → ν') : ∀ (items : List (κ × ν)) (k : κ),
    lastOf (items.map fun item => (item.1, f item.2)) k = (lastOf items k).map f
  | [], _ => rfl
  | item :: items, k => by
    show (lastOf (items.map _) k).or (if k = item.1 then some (f item.2) else none) =
      ((lastOf items k).or (if k = item.1 then some item.2 else none)).map f
    rw [lastOf_map f items]
    cases lastOf items k with
    | some v => rfl
    | none =>
      split
      · rfl
      · rfl

theorem Agree.map {ν' : Type} (h : Agree items items') (f : ν → ν') :
    Agree (items.map fun item => (item.1, f item.2)) (items'.map fun item => (item.1, f item.2)) := by
  intro k v v' hv hv'
  rw [lastOf_map] at hv hv'
  obtain ⟨w, hw, rfl⟩ := Option.map_eq_some_iff.1 hv
  obtain ⟨w', hw', rfl⟩ := Option.map_eq_some_iff.1 hv'
  rw [h k w w' hw hw']

end Puts

/-! ## Assignments -/

section Assignments

variable {ν : Type}

def assign (l : List ν) (k : Nat) (v : ν) : List ν := if k < l.length then l.set k v else l ++ [v]

def assignAll (l : List ν) (items : List (Nat × ν)) : List ν := items.foldl (fun l item => assign l item.1 item.2) l

def InReach (limit : Nat) : Nat → List Nat → Prop
  | _, [] => True
  | length, k :: keys => k ≤ length ∧ (k = length → length < limit) ∧ InReach limit (max length (k + 1)) keys

variable {l : List ν}

theorem length_assign {k : Nat} (h : k ≤ l.length) (v : ν) : (assign l k v).length = max l.length (k + 1) := by
  unfold assign
  split
  · rw [List.length_set]
    omega
  · rw [List.length_append, List.length_singleton]
    omega

theorem enumerate_assign {k : Nat} (h : k ≤ l.length) (v : ν) :
    enumerate (assign l k v) = (enumerate l).insert k v := by
  refine ext_get? fun i => ?_
  rw [get?_insert, get?_enumerate, get?_enumerate]
  unfold assign
  by_cases hlt : k < l.length
  · rw [if_pos hlt, List.getElem?_set]
    by_cases hi : k = i
    · subst hi
      simp [hlt]
    · rw [if_neg hi, if_neg fun heq => hi heq.symm]
  · obtain rfl : k = l.length := by omega
    rw [if_neg hlt, List.getElem?_append]
    by_cases hi : i = l.length
    · simp [hi]
    · rw [if_neg hi]
      by_cases hlt' : i < l.length
      · rw [if_pos hlt']
      · rw [if_neg hlt', List.getElem?_eq_none (by simp; omega), List.getElem?_eq_none (by omega)]

theorem enumerate_assignAll {limit : Nat} : ∀ {items : List (Nat × ν)} {l : List ν},
    InReach limit l.length (items.map (·.1)) → enumerate (assignAll l items) = putAll (enumerate l) items
  | [], _, _ => rfl
  | item :: items, l, ⟨hle, _, hrest⟩ => by
    show enumerate (assignAll (assign l item.1 item.2) items) = putAll ((enumerate l).insert item.1 item.2) items
    rw [← length_assign hle item.2] at hrest
    rw [enumerate_assignAll hrest, enumerate_assign hle]

theorem assignAll_map {ν' : Type} (f : ν → ν') : ∀ (items : List (Nat × ν)) (l : List ν),
    (assignAll l items).map f = assignAll (l.map f) (items.map fun item => (item.1, f item.2))
  | [], _ => rfl
  | item :: items, l => by
    show (assignAll (assign l item.1 item.2) items).map f = assignAll (assign (l.map f) item.1 (f item.2)) (items.map _)
    rw [assignAll_map f items]
    congr 1
    unfold assign
    rw [List.length_map]
    split
    · rw [List.map_set]
    · rw [List.map_append, List.map_singleton]

end Assignments

end Lib.PendingWrites
