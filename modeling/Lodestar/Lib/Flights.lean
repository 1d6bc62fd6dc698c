import Lodestar.Lib.Runs
import Lodestar.Lib.SortedMap
import Mathlib.Data.List.Pairwise
/-!
# Flights — calls whose writes settle in any order

A call starts updates of a store and awaits some of them: it resolves when those have succeeded, and is rejected when the first of
them fails.  The others go on by themselves.  What is in flight settles in any order, each update as a whole or not at all.

The store is what the updates that succeeded make of it, in the order they settled in (`store_eq`), and what was started is
in flight or has settled (`started_perm`).  A key that is only ever set to one value has it from the first success on
(`get?_replay`), whatever the order.
-/
namespace Lib.Flights

open Runs

variable {ι κ ν : Type} [LinearOrder κ]

/-! ## Updates -/

/-- Keys and what each is set to, or none where it is deleted. -/
abbrev Update (κ ν : Type) := List (κ × Option ν)

def write (m : SortedMap κ ν) (w : κ × Option ν) : SortedMap κ ν :=
  match w.2 with
  | some v => m.insert w.1 v
  | none => m.erase w.1

def perform (m : SortedMap κ ν) (update : Update κ ν) : SortedMap κ ν := update.foldl write m

theorem get?_write (m : SortedMap κ ν) (w : κ × Option ν) (k : κ) :
    (write m w).get? k = if k = w.1 then w.2 else m.get? k := by
  obtain ⟨k', v⟩ := w
  cases v with
  | none => exact SortedMap.get?_erase m k' k
  | some v => exact SortedMap.get?_insert m k' v k

variable {k : κ} {v : Option ν}

theorem get?_perform : ∀ {update : Update κ ν} (m : SortedMap κ ν), (∀ w ∈ update, w.1 = k → w.2 = v) →
    (perform m update).get? k = if k ∈ update.map (·.1) then v else m.get? k
  | [], m, _ => by simp [perform]
  | w :: update, m, h => by
    have hrest := get?_perform (write m w) fun w' hw' => h w' (List.mem_cons_of_mem w hw')
    show (perform (write m w) update).get? k = _
    rw [hrest, get?_write, List.map_cons]
    by_cases hmem : k ∈ update.map (·.1)
    · rw [if_pos hmem, if_pos (List.mem_cons_of_mem _ hmem)]
    · rw [if_neg hmem]
      by_cases hk : k = w.1
      · rw [if_pos hk, if_pos (hk ▸ List.mem_cons_self), h w List.mem_cons_self hk.symm]
      · rw [if_neg hk, if_neg]
        rw [List.mem_cons, not_or]
        exact ⟨hk, hmem⟩

theorem get?_perform_of_notMem {update : Update κ ν} (m : SortedMap κ ν) (h : k ∉ update.map (·.1)) :
    (perform m update).get? k = m.get? k := by
  have hnone : ∀ w ∈ update, w.1 = k → w.2 = none := fun w hw hk => absurd (hk ▸ List.mem_map_of_mem hw) h
  rw [get?_perform m hnone, if_neg h]

/-! ## Calls -/

inductive Status
  | pending
  | resolved
  | rejected
deriving DecidableEq, Repr

structure Flight (κ ν : Type) where
  call : Nat
  awaited : Bool
  update : Update κ ν

structure System (ι κ ν : Type) [LinearOrder κ] where
  store : SortedMap κ ν
  calls : List (ι × Status)
  flights : List (Flight κ ν)
  settled : List (Flight κ ν × Bool)

def System.first (m : SortedMap κ ν) : System ι κ ν := ⟨m, [], [], []⟩

structure Rules (ι κ ν : Type) where
  awaited : ι → List (Update κ ν)
  floating : ι → List (Update κ ν)

variable (rules : Rules ι κ ν)

def Rules.flightsOf (n : Nat) (i : ι) : List (Flight κ ν) :=
  (rules.awaited i).map (fun update => ⟨n, true, update⟩) ++ (rules.floating i).map fun update => ⟨n, false, update⟩

def reject (calls : List (ι × Status)) (flight : Flight κ ν) (succeeds : Bool) : List (ι × Status) :=
  if succeeds || !flight.awaited then calls
  else calls.modify flight.call fun call => if call.2 = .pending then (call.1, .rejected) else call

inductive Label (ι : Type)
  | start (i : ι)
  | settle (n : Nat) (succeeds : Bool)
  | resolve (n : Nat)

def next : Label ι → System ι κ ν → Option (System ι κ ν)
  | .start i, s => some { s with calls := s.calls ++ [(i, .pending)], flights := s.flights ++ rules.flightsOf s.calls.length i }
  | .settle n succeeds, s =>
    s.flights[n]?.map fun flight =>
      ⟨if succeeds then perform s.store flight.update else s.store, reject s.calls flight succeeds, s.flights.eraseIdx n,
        s.settled ++ [(flight, succeeds)]⟩
  | .resolve n, s =>
    match s.calls[n]? with
    | some (i, .pending) =>
      if ∀ flight ∈ s.flights, flight.call = n → flight.awaited = false then some { s with calls := s.calls.set n (i, .resolved) }
      else none
    | _ => none

inductive Step : System ι κ ν → Label ι → System ι κ ν → Prop
  | start (s : System ι κ ν) (i : ι) :
      Step s (.start i) { s with calls := s.calls ++ [(i, .pending)], flights := s.flights ++ rules.flightsOf s.calls.length i }
  | settle (s : System ι κ ν) (n : Nat) (flight : Flight κ ν) (succeeds : Bool) (h : s.flights[n]? = some flight) :
      Step s (.settle n succeeds)
        ⟨if succeeds then perform s.store flight.update else s.store, reject s.calls flight succeeds, s.flights.eraseIdx n,
          s.settled ++ [(flight, succeeds)]⟩
  | resolve (s : System ι κ ν) (n : Nat) (i : ι) (hcall : s.calls[n]? = some (i, .pending))
      (hdone : ∀ flight ∈ s.flights, flight.call = n → flight.awaited = false) :
      Step s (.resolve n) { s with calls := s.calls.set n (i, .resolved) }

variable {rules}

theorem step_of_next {label : Label ι} {s s' : System ι κ ν} (h : next rules label s = some s') : Step rules s label s' := by
  cases label with
  | start i =>
    cases h
    exact .start s i
  | settle n succeeds =>
    obtain ⟨flight, hflight, rfl⟩ := Option.map_eq_some_iff.1 h
    exact .settle s n flight succeeds hflight
  | resolve n =>
    simp only [next] at h
    split at h
    · rename_i i hcall
      split at h
      · rename_i hdone
        cases h
        exact .resolve s n i hcall hdone
      · cases h
    · cases h

/-! ## The store of a run -/

def replay (m : SortedMap κ ν) (settled : List (Flight κ ν × Bool)) : SortedMap κ ν :=
  settled.foldl (fun m flight => if flight.2 then perform m flight.1.update else m) m

theorem get?_replay : ∀ {settled : List (Flight κ ν × Bool)} (m : SortedMap κ ν),
    (∀ flight ∈ settled, flight.2 = true → ∀ w ∈ flight.1.update, w.1 = k → w.2 = v) →
    ((∃ flight ∈ settled, flight.2 = true ∧ k ∈ flight.1.update.map (·.1)) ∧ (replay m settled).get? k = v) ∨
      (¬ (∃ flight ∈ settled, flight.2 = true ∧ k ∈ flight.1.update.map (·.1)) ∧ (replay m settled).get? k = m.get? k)
  | [], m, _ => .inr ⟨fun ⟨flight, hmem, _⟩ => absurd hmem List.not_mem_nil, rfl⟩
  | first :: settled, m, h => by
    have hfirst : first.2 = true → (perform m first.1.update).get? k = if k ∈ first.1.update.map (·.1) then v else m.get? k :=
      fun hsucceeds => get?_perform m (h first List.mem_cons_self hsucceeds)
    rcases get?_replay (if first.2 then perform m first.1.update else m) fun flight hmem => h flight (List.mem_cons_of_mem _ hmem) with
      ⟨⟨flight, hmem, hflight⟩, hread⟩ | ⟨hnone, hread⟩
    · exact .inl ⟨⟨flight, List.mem_cons_of_mem _ hmem, hflight⟩, hread⟩
    · by_cases hset : first.2 = true ∧ k ∈ first.1.update.map (·.1)
      · refine .inl ⟨⟨first, List.mem_cons_self, hset⟩, hread.trans ?_⟩
        rw [if_pos hset.1, hfirst hset.1, if_pos hset.2]
      · refine .inr ⟨?_, hread.trans ?_⟩
        · rintro ⟨flight, hmem, hflight⟩
          rcases List.mem_cons.1 hmem with rfl | hmem
          · exact hset hflight
          · exact hnone ⟨flight, hmem, hflight⟩
        · by_cases hsucceeds : first.2 = true
          · rw [if_pos hsucceeds, hfirst hsucceeds, if_neg fun hmem => hset ⟨hsucceeds, hmem⟩]
          · rw [if_neg hsucceeds]

variable {m : SortedMap κ ν} {steps : List (System ι κ ν × Label ι)} {s : System ι κ ν}

theorem store_eq (hrun : Run (next rules) (.first m) steps s) : s.store = replay m s.settled := by
  refine hrun.invariant (I := fun s => s.store = replay m s.settled) rfl fun s label s' hnext ih => ?_
  cases step_of_next hnext with
  | start i => exact ih
  | settle n flight succeeds h =>
    rw [ih, replay, replay, List.foldl_append]
    rfl
  | resolve n i hcall hdone => exact ih

/-- **A key of the store reads as what the updates that succeeded set it to**, if all set it to one value, or as at first. -/
theorem get?_store (hrun : Run (next rules) (.first m) steps s)
    (h : ∀ flight, (flight, true) ∈ s.settled → ∀ w ∈ flight.update, w.1 = k → w.2 = v) :
    ((∃ flight, (flight, true) ∈ s.settled ∧ k ∈ flight.update.map (·.1)) ∧ s.store.get? k = v) ∨
      ((∀ flight, (flight, true) ∈ s.settled → k ∉ flight.update.map (·.1)) ∧ s.store.get? k = m.get? k) := by
  rw [store_eq hrun]
  have hsets : ∀ flight ∈ s.settled, flight.2 = true → ∀ w ∈ flight.1.update, w.1 = k → w.2 = v := by
    rintro ⟨flight, succeeds⟩ hmem rfl
    exact h flight hmem
  rcases get?_replay m hsets with
    ⟨⟨⟨flight, succeeds⟩, hmem, hsucceeds, hkey⟩, hread⟩ | ⟨hnone, hread⟩
  · obtain rfl : succeeds = true := hsucceeds
    exact .inl ⟨⟨flight, hmem, hkey⟩, hread⟩
  · exact .inr ⟨fun flight hmem hkey => hnone ⟨_, hmem, rfl, hkey⟩, hread⟩

/-! ## What was started -/

def Rules.started (rules : Rules ι κ ν) : Nat → List ι → List (Flight κ ν)
  | _, [] => []
  | n, i :: calls => rules.flightsOf n i ++ rules.started (n + 1) calls

variable {n : Nat} {i : ι} {flight : Flight κ ν}

omit [LinearOrder κ] in
theorem call_of_mem_flightsOf (h : flight ∈ rules.flightsOf n i) : flight.call = n := by
  unfold Rules.flightsOf at h
  rcases List.mem_append.1 h with h | h
  · obtain ⟨update, -, rfl⟩ := List.mem_map.1 h
    rfl
  · obtain ⟨update, -, rfl⟩ := List.mem_map.1 h
    rfl

omit [LinearOrder κ] in
theorem started_concat (i : ι) : ∀ (calls : List ι) (n : Nat),
    rules.started n (calls ++ [i]) = rules.started n calls ++ rules.flightsOf (n + calls.length) i
  | [], n => by simp [Rules.started]
  | j :: calls, n => by
    rw [List.cons_append, Rules.started, Rules.started, started_concat i calls, List.append_assoc, List.length_cons,
      show n + 1 + calls.length = n + (calls.length + 1) by omega]

omit [LinearOrder κ] in
theorem mem_started : ∀ {calls : List ι} {n : Nat},
    flight ∈ rules.started n calls ↔ ∃ k i, calls[k]? = some i ∧ flight ∈ rules.flightsOf (n + k) i
  | [], n => by simp [Rules.started]
  | j :: calls, n => by
    rw [Rules.started, List.mem_append, mem_started]
    constructor
    · rintro (hmem | ⟨k, i, hi, hmem⟩)
      · exact ⟨0, j, rfl, hmem⟩
      · exact ⟨k + 1, i, hi, by rwa [show n + (k + 1) = n + 1 + k by omega]⟩
    · rintro ⟨k, i, hi, hmem⟩
      cases k with
      | zero =>
        cases hi
        exact .inl hmem
      | succ k => exact .inr ⟨k, i, hi, by rwa [show n + 1 + k = n + (k + 1) by omega]⟩

omit [LinearOrder κ] in
theorem map_fst_reject (calls : List (ι × Status)) (flight : Flight κ ν) (succeeds : Bool) :
    (reject calls flight succeeds).map (·.1) = calls.map (·.1) := by
  unfold reject
  split
  · rfl
  · refine List.ext_getElem? fun n => ?_
    rw [List.getElem?_map, List.getElem?_map, List.getElem?_modify]
    cases calls[n]? with
    | none => simp
    | some call =>
      by_cases hn : flight.call = n
      · by_cases hpending : call.2 = .pending <;> simp [hn, hpending]
      · simp [hn]

variable {calls : List (ι × Status)}

omit [LinearOrder κ] in
theorem map_fst_set {status status' : Status} (h : calls[n]? = some (i, status)) :
    (calls.set n (i, status')).map (·.1) = calls.map (·.1) := by
  have hi : (calls.map (·.1))[n]? = some i := by rw [List.getElem?_map, h, Option.map_some]
  obtain ⟨hlt, hget⟩ := List.getElem?_eq_some_iff.1 hi
  rw [List.map_set]
  show (calls.map (·.1)).set n i = _
  rw [← hget, List.set_getElem_self]

theorem perm_eraseIdx {α : Type} {a : α} {l : List α} (h : l[n]? = some a) : (a :: l.eraseIdx n).Perm l := by
  obtain ⟨hlt, rfl⟩ := List.getElem?_eq_some_iff.1 h
  have hsplit : l = l.take n ++ l[n] :: l.drop (n + 1) := by rw [List.getElem_cons_drop, List.take_append_drop]
  rw [List.eraseIdx_eq_take_drop_succ]
  refine List.perm_middle.symm.trans ?_
  rw [← hsplit]

theorem started_perm (hrun : Run (next rules) (.first m) steps s) :
    (s.flights ++ s.settled.map (·.1)).Perm (rules.started 0 (s.calls.map (·.1))) := by
  refine hrun.invariant (I := fun s => (s.flights ++ s.settled.map (·.1)).Perm (rules.started 0 (s.calls.map (·.1))))
    .nil fun s label s' hnext ih => ?_
  cases step_of_next hnext with
  | start i =>
    rw [List.map_append, List.map_singleton, started_concat, Nat.zero_add, List.length_map, List.append_assoc]
    refine List.Perm.trans ?_ (ih.append_right _)
    rw [List.append_assoc]
    exact List.perm_append_comm.append_left _
  | settle n flight succeeds h =>
    rw [map_fst_reject, List.map_append, List.map_singleton, ← List.append_assoc]
    refine List.Perm.trans ?_ ih
    refine List.perm_append_singleton flight _ |>.trans ?_
    exact (perm_eraseIdx h).append_right _
  | resolve n i hcall hdone =>
    rw [map_fst_set hcall]
    exact ih

/-- **What holds of each call where it starts holds of the calls of a run**, each by its number. -/
theorem forall_calls {C : Nat → ι → Prop} (hrun : Run (next rules) (.first m) steps s)
    (hstart : ∀ steps' before i, Run (next rules) (.first m) steps' before → (before, Label.start i) ∈ steps →
      (∀ n j, (before.calls.map (·.1))[n]? = some j → C n j) → C before.calls.length i) :
    ∀ n i, (s.calls.map (·.1))[n]? = some i → C n i := by
  induction hrun with
  | refl =>
    intro n i hget
    cases hget
  | @step steps s s' label hrun hnext ih =>
    have hbefore := ih fun steps' before i hprefix hmem => hstart steps' before i hprefix (List.mem_append_left _ hmem)
    cases step_of_next hnext with
    | start i =>
      intro n j hget
      rw [List.map_append, List.map_singleton] at hget
      rcases Nat.lt_trichotomy n (s.calls.map (·.1)).length with hlt | rfl | hgt
      · rw [List.getElem?_append_left hlt] at hget
        exact hbefore n j hget
      · rw [List.getElem?_concat_length] at hget
        cases hget
        rw [List.length_map]
        exact hstart steps s i hrun (List.mem_append_right _ (List.mem_singleton.2 rfl)) hbefore
      · rw [List.getElem?_eq_none (by simp only [List.length_append, List.length_singleton]; omega)] at hget
        cases hget
    | settle n flight succeeds h =>
      rw [map_fst_reject]
      exact hbefore
    | resolve n i hcall hdone =>
      rw [map_fst_set hcall]
      exact hbefore

omit [LinearOrder κ] in
theorem pairwise_started {R : Flight κ ν → Flight κ ν → Prop} (hother : ∀ flight flight', flight.call ≠ flight'.call → R flight flight') :
    ∀ {calls : List ι} {n : Nat}, (∀ k i, calls[k]? = some i → (rules.flightsOf (n + k) i).Pairwise R) →
    (rules.started n calls).Pairwise R
  | [], _, _ => List.Pairwise.nil
  | i :: calls, n, h => by
    refine List.pairwise_append.2 ⟨h 0 i rfl, pairwise_started hother fun k j hget => ?_, fun flight hflight flight' hflight' => ?_⟩
    · rw [show n + 1 + k = n + (k + 1) by omega]
      exact h (k + 1) j hget
    · obtain ⟨k, j, -, hmem⟩ := mem_started.1 hflight'
      refine hother flight flight' ?_
      rw [call_of_mem_flightsOf hflight, call_of_mem_flightsOf hmem]
      omega

section

variable (hrun : Run (next rules) (.first m) steps s)
include hrun

theorem call_of_settled {succeeds : Bool} (h : (flight, succeeds) ∈ s.settled) :
    ∃ i, (s.calls.map (·.1))[flight.call]? = some i ∧ flight ∈ rules.flightsOf flight.call i := by
  have hstarted := (started_perm hrun).subset (List.mem_append_right _ (List.mem_map_of_mem h))
  obtain ⟨n, i, hcall, hflight⟩ := mem_started.1 hstarted
  rw [Nat.zero_add] at hflight
  rw [call_of_mem_flightsOf hflight]
  exact ⟨i, hcall, hflight⟩

theorem settled_of_call (hflights : s.flights = []) (hcall : (s.calls.map (·.1))[n]? = some i)
    (hflight : flight ∈ rules.flightsOf n i) : ∃ succeeds, (flight, succeeds) ∈ s.settled := by
  have hperm := started_perm hrun
  rw [hflights, List.nil_append] at hperm
  have hmem := hperm.symm.subset (mem_started.2 ⟨n, i, hcall, by rwa [Nat.zero_add]⟩)
  obtain ⟨⟨flight', succeeds⟩, hsettled, rfl⟩ := List.mem_map.1 hmem
  exact ⟨succeeds, hsettled⟩

/-- **An update settles once**, where it is the only one of its call with a property and of no other call. -/
theorem settles_once {P : Flight κ ν → Prop}
    (hcalls : ∀ n i, (s.calls.map (·.1))[n]? = some i → (rules.flightsOf n i).Pairwise fun flight flight' => ¬ (P flight ∧ P flight'))
    {flight flight' : Flight κ ν} {succeeds succeeds' : Bool} (h : (flight, succeeds) ∈ s.settled)
    (h' : (flight', succeeds') ∈ s.settled) (hP : P flight) (hP' : P flight') (hsame : flight.call = flight'.call) :
    succeeds = succeeds' := by
  have hstarted : (rules.started 0 (s.calls.map (·.1))).Pairwise fun flight flight' =>
      flight.call = flight'.call → ¬ (P flight ∧ P flight') := by
    refine pairwise_started (fun flight flight' hne heq => absurd heq hne) fun n i hget => ?_
    rw [Nat.zero_add]
    exact (hcalls n i hget).imp fun {flight flight'} hnot (_ : flight.call = flight'.call) => hnot
  have hall := (started_perm hrun).symm.pairwise hstarted fun hnot heq hboth => hnot heq.symm hboth.symm
  have hsettled := List.pairwise_map.1 (List.pairwise_append.1 hall).2.1
  have hsymm : Std.Symm fun (a b : Flight κ ν × Bool) => a.1.call = b.1.call → ¬ (P a.1 ∧ P b.1) :=
    ⟨fun a b hnot heq hboth => hnot heq.symm hboth.symm⟩
  by_contra hne
  exact hsettled.forall h h' (fun heq => hne (congrArg Prod.snd heq)) hsame ⟨hP, hP'⟩

end

/-! ## Calls one after the other -/

def Rules.whole (rules : Rules ι κ ν) (i : ι) : Update κ ν := (rules.awaited i ++ rules.floating i).flatten

def sequential (rules : Rules ι κ ν) (m : SortedMap κ ν) (calls : List ι) : SortedMap κ ν :=
  calls.foldl (fun m i => perform m (rules.whole i)) m

def Agrees (rules : Rules ι κ ν) (i : ι) : Prop :=
  ∀ w ∈ rules.whole i, ∀ w' ∈ rules.whole i, w.1 = w'.1 → w.2 = w'.2

def Orderly (s : System ι κ ν) : Label ι → Prop
  | .start _ => ∀ call ∈ s.calls, call.2 = .resolved
  | .settle n succeeds => succeeds = false → ∀ flight ∈ s.flights[n]?, flight.awaited = true
  | .resolve _ => s.flights = []

instance (s : System ι κ ν) : (label : Label ι) → Decidable (Orderly s label)
  | .start _ => inferInstanceAs (Decidable (∀ call ∈ s.calls, call.2 = .resolved))
  | .settle n succeeds => inferInstanceAs (Decidable (succeeds = false → ∀ flight ∈ s.flights[n]?, flight.awaited = true))
  | .resolve _ => inferInstanceAs (Decidable (s.flights = []))

variable {w : κ × Option ν}

omit [LinearOrder κ] in
theorem mem_whole :
    w ∈ rules.whole i ↔ ∃ flight ∈ rules.flightsOf n i, w ∈ flight.update := by
  unfold Rules.whole Rules.flightsOf
  simp only [List.mem_flatten, List.mem_append, List.mem_map]
  constructor
  · rintro ⟨update, hmem | hmem, hw⟩
    · exact ⟨⟨n, true, update⟩, .inl ⟨update, hmem, rfl⟩, hw⟩
    · exact ⟨⟨n, false, update⟩, .inr ⟨update, hmem, rfl⟩, hw⟩
  · rintro ⟨flight, ⟨update, hmem, rfl⟩ | ⟨update, hmem, rfl⟩, hw⟩
    · exact ⟨update, .inl hmem, hw⟩
    · exact ⟨update, .inr hmem, hw⟩

omit [LinearOrder κ] in
theorem Agrees.write_eq (h : Agrees rules i) (hflight : flight ∈ rules.flightsOf n i) (hw : w ∈ flight.update) :
    ∀ w' ∈ rules.whole i, w'.1 = w.1 → w'.2 = w.2 :=
  fun w' hw' hk => h w' hw' w (mem_whole.2 ⟨flight, hflight, hw⟩) hk

/-- What is known of an orderly run while its last call is pending: what is not in flight is as after the call. -/
structure LastPending (rules : Rules ι κ ν) (m : SortedMap κ ν) (s : System ι κ ν) (before : List ι) (i : ι) : Prop where
  calls : s.calls = before.map (·, .resolved) ++ [(i, .pending)]
  agrees : Agrees rules i
  flights : ∀ flight ∈ s.flights, flight ∈ rules.flightsOf before.length i
  store : ∀ k, (∀ flight ∈ s.flights, k ∉ flight.update.map (·.1)) → s.store.get? k = (sequential rules m (before ++ [i])).get? k

/-- A call was rejected, or all have resolved and nothing is in flight, or the last is pending. -/
inductive Stage (rules : Rules ι κ ν) (m : SortedMap κ ν) (s : System ι κ ν) : Prop
  | rejected (h : ∃ call ∈ s.calls, call.2 = .rejected)
  | resolved (hcalls : ∀ call ∈ s.calls, call.2 = .resolved) (hflights : s.flights = [])
      (hstore : s.store = sequential rules m (s.calls.map (·.1)))
  | pending (before : List ι) (i : ι) (h : LastPending rules m s before i)

theorem sequential_concat (m : SortedMap κ ν) (calls : List ι) (i : ι) :
    sequential rules m (calls ++ [i]) = perform (sequential rules m calls) (rules.whole i) := by
  unfold sequential
  rw [List.foldl_append]
  rfl

theorem LastPending.succeed {before : List ι} (h : LastPending rules m s before i) (hflight : s.flights[n]? = some flight) :
    LastPending rules m ⟨perform s.store flight.update, s.calls, s.flights.eraseIdx n, s.settled ++ [(flight, true)]⟩ before i where
  calls := h.calls
  agrees := h.agrees
  flights other hmem := h.flights other (List.mem_of_mem_eraseIdx hmem)
  store k hnot := by
    have hof := h.flights flight (List.mem_of_getElem? hflight)
    by_cases hk : k ∈ flight.update.map (·.1)
    · obtain ⟨w, hw, rfl⟩ := List.mem_map.1 hk
      have hwhole : w ∈ rules.whole i := mem_whole.2 ⟨flight, hof, hw⟩
      have hall := h.agrees.write_eq hof hw
      have hupdate : ∀ w' ∈ flight.update, w'.1 = w.1 → w'.2 = w.2 := fun w' hw' => hall w' (mem_whole.2 ⟨flight, hof, hw'⟩)
      rw [sequential_concat, get?_perform _ hall, if_pos (List.mem_map_of_mem hwhole)]
      exact (get?_perform s.store hupdate).trans (if_pos hk)
    · refine (get?_perform_of_notMem s.store hk).trans (h.store k fun other hother => ?_)
      rcases List.mem_cons.1 ((perm_eraseIdx hflight).symm.subset hother) with rfl | hother
      · exact hk
      · exact hnot other hother

theorem LastPending.start (hcalls : ∀ call ∈ s.calls, call.2 = .resolved) (hflights : s.flights = [])
    (hstore : s.store = sequential rules m (s.calls.map (·.1))) (hagrees : Agrees rules i) : LastPending rules m
      { s with calls := s.calls ++ [(i, .pending)], flights := s.flights ++ rules.flightsOf s.calls.length i }
      (s.calls.map (·.1)) i where
  calls := by
    have hsame : (s.calls.map (·.1)).map (·, Status.resolved) = s.calls := by
      rw [List.map_map]
      refine (List.map_congr_left fun call hcall => ?_).trans (List.map_id _)
      exact Prod.ext rfl (hcalls call hcall).symm
    rw [hsame]
  agrees := hagrees
  flights flight hmem := by
    rw [hflights, List.nil_append] at hmem
    rwa [List.length_map]
  store k hnot := by
    rw [hflights, List.nil_append] at hnot
    have hk : k ∉ (rules.whole i).map (·.1) := by
      intro hmem
      obtain ⟨w, hw, rfl⟩ := List.mem_map.1 hmem
      obtain ⟨flight, hflight, hw⟩ := mem_whole.1 hw
      exact hnot flight hflight (List.mem_map_of_mem hw)
    rw [sequential_concat, get?_perform_of_notMem _ hk, ← hstore]

structure Known (rules : Rules ι κ ν) (m : SortedMap κ ν) (s : System ι κ ν) : Prop where
  held : ∀ flight ∈ s.flights, flight.awaited = true →
    ∃ i status, s.calls[flight.call]? = some (i, status) ∧ status ≠ .resolved
  failed : ∀ flight, (flight, false) ∈ s.settled → ∃ i, s.calls[flight.call]? = some (i, .rejected)
  stage : Stage rules m s

theorem Known.start (h : Known rules m s) (hagrees : Agrees rules i) (hcalls : ∀ call ∈ s.calls, call.2 = .resolved) :
    Known rules m { s with calls := s.calls ++ [(i, .pending)], flights := s.flights ++ rules.flightsOf s.calls.length i } where
  held flight hmem hawaited := by
    rcases List.mem_append.1 hmem with hmem | hmem
    · obtain ⟨j, status, hget, hstatus⟩ := h.held flight hmem hawaited
      exact ⟨j, status, by rw [List.getElem?_append_left (List.getElem?_eq_some_iff.1 hget).1, hget], hstatus⟩
    · refine ⟨i, .pending, ?_, by decide⟩
      rw [call_of_mem_flightsOf hmem, List.getElem?_concat_length]
  failed flight hmem := by
    obtain ⟨j, hget⟩ := h.failed flight hmem
    cases hcalls _ (List.mem_of_getElem? hget)
  stage := by
    cases h.stage with
    | rejected hrejected =>
      obtain ⟨call, hcall, hstatus⟩ := hrejected
      cases hstatus.symm.trans (hcalls call hcall)
    | resolved _ hflights hstore => exact .pending _ i (.start hcalls hflights hstore hagrees)
    | pending before j hlast =>
      have hmem : (j, Status.pending) ∈ s.calls := by
        rw [hlast.calls]
        exact List.mem_append_right _ List.mem_cons_self
      cases hcalls _ hmem

theorem Known.succeed (h : Known rules m s) (hflight : s.flights[n]? = some flight) :
    Known rules m ⟨perform s.store flight.update, s.calls, s.flights.eraseIdx n, s.settled ++ [(flight, true)]⟩ where
  held other hmem := h.held other (List.mem_of_mem_eraseIdx hmem)
  failed other hmem := by
    rcases List.mem_append.1 hmem with hmem | hmem
    · exact h.failed other hmem
    · cases List.mem_singleton.1 hmem
  stage := by
    cases h.stage with
    | rejected hrejected => exact .rejected hrejected
    | resolved _ hflights _ =>
      rw [hflights] at hflight
      cases hflight
    | pending before i hlast => exact .pending before i (hlast.succeed hflight)

omit [LinearOrder κ] in
theorem getElem?_reject (calls : List (ι × Status)) (h : flight.awaited = true) (k : Nat) :
    (reject calls flight false)[k]? = if flight.call = k then
      calls[k]?.map fun call => if call.2 = .pending then (call.1, .rejected) else call
    else calls[k]? := by
  unfold reject
  rw [h, if_neg (by simp), List.getElem?_modify]
  split <;> simp

omit [LinearOrder κ] in
theorem unresolved_reject (hawaited : flight.awaited = true) {k : Nat}
    (h : ∃ i status, calls[k]? = some (i, status) ∧ status ≠ .resolved) :
    ∃ i status, (reject calls flight false)[k]? = some (i, status) ∧ status ≠ .resolved := by
  obtain ⟨i, status, hget, hstatus⟩ := h
  rw [getElem?_reject _ hawaited, hget]
  split
  · cases status with
    | pending => exact ⟨i, .rejected, rfl, by decide⟩
    | resolved => exact absurd rfl hstatus
    | rejected => exact ⟨i, .rejected, rfl, by decide⟩
  · exact ⟨i, status, rfl, hstatus⟩

theorem Known.fail (h : Known rules m s) (hflight : s.flights[n]? = some flight) (hawaited : flight.awaited = true) :
    Known rules m ⟨s.store, reject s.calls flight false, s.flights.eraseIdx n, s.settled ++ [(flight, false)]⟩ := by
  have hfailed : ∃ i, (reject s.calls flight false)[flight.call]? = some (i, .rejected) := by
    obtain ⟨i, status, hget, hstatus⟩ := h.held flight (List.mem_of_getElem? hflight) hawaited
    refine ⟨i, ?_⟩
    rw [getElem?_reject _ hawaited, if_pos rfl, hget]
    cases status with
    | pending => rfl
    | resolved => exact absurd rfl hstatus
    | rejected => rfl
  have hkept : ∀ {k : Nat} {i : ι}, s.calls[k]? = some (i, .rejected) → (reject s.calls flight false)[k]? = some (i, .rejected) := by
    intro k i hget
    rw [getElem?_reject _ hawaited, hget]
    split <;> rfl
  refine ⟨fun other hmem hother => ?_, fun other hmem => ?_, ?_⟩
  · exact unresolved_reject hawaited (h.held other (List.mem_of_mem_eraseIdx hmem) hother)
  · rcases List.mem_append.1 hmem with hmem | hmem
    · obtain ⟨i, hget⟩ := h.failed other hmem
      exact ⟨i, hkept hget⟩
    · cases List.mem_singleton.1 hmem
      exact hfailed
  · obtain ⟨i, hget⟩ := hfailed
    exact .rejected ⟨_, List.mem_of_getElem? hget, rfl⟩

theorem Known.resolve (h : Known rules m s) (hcall : s.calls[n]? = some (i, .pending)) (hflights : s.flights = []) :
    Known rules m { s with calls := s.calls.set n (i, .resolved) } := by
  have hkept : ∀ {k : Nat} {j : ι}, s.calls[k]? = some (j, .rejected) → (s.calls.set n (i, .resolved))[k]? = some (j, .rejected) := by
    intro k j hget
    have hne : n ≠ k := by
      rintro rfl
      cases hcall.symm.trans hget
    rw [List.getElem?_set_ne hne, hget]
  refine ⟨fun flight hmem => ?_, fun flight hmem => ?_, ?_⟩
  · rw [show s.flights = [] from hflights] at hmem
    cases hmem
  · obtain ⟨j, hget⟩ := h.failed flight hmem
    exact ⟨j, hkept hget⟩
  · cases h.stage with
    | rejected hrejected =>
      obtain ⟨⟨j, status⟩, hmem, rfl⟩ := hrejected
      obtain ⟨k, hget⟩ := List.mem_iff_getElem?.1 hmem
      exact .rejected ⟨_, List.mem_of_getElem? (hkept hget), rfl⟩
    | resolved hcalls _ _ => cases hcalls _ (List.mem_of_getElem? hcall)
    | pending before j hlast =>
      have hlength : n = before.length := by
        rw [hlast.calls] at hcall
        rcases Nat.lt_trichotomy n before.length with hlt | heq | hgt
        · rw [List.getElem?_append_left (by simpa using hlt), List.getElem?_map] at hcall
          obtain ⟨k, -, hk⟩ := Option.map_eq_some_iff.1 hcall
          cases hk
        · exact heq
        · rw [List.getElem?_eq_none (by simp; omega)] at hcall
          cases hcall
      have hij : j = i := by
        rw [hlast.calls, hlength, List.getElem?_append_right (by simp)] at hcall
        simpa using hcall
      have hset : s.calls.set n (i, .resolved) = (before ++ [i]).map (·, .resolved) := by
        rw [hlast.calls, hlength, hij, List.set_append_right _ _ (by simp)]
        simp
      refine .resolved ?_ hflights ?_
      · intro call hmem
        rw [hset] at hmem
        obtain ⟨k, -, rfl⟩ := List.mem_map.1 hmem
        rfl
      · dsimp only
        rw [hset, List.map_map, show ((fun call : ι × Status => call.1) ∘ fun j => (j, Status.resolved)) = id from rfl, List.map_id]
        rw [← hij]
        refine SortedMap.ext_get? fun k => hlast.store k fun flight hmem => ?_
        rw [hflights] at hmem
        cases hmem

/-- **Along an orderly run a call of which a write failed is rejected, and when all calls have resolved the store is what they make
of it one after the other.** -/
theorem orderly (hrun : Run (next rules) (.first m) steps s) (horderly : ∀ step ∈ steps, Orderly step.1 step.2)
    (hagrees : ∀ step ∈ steps, ∀ i, step.2 = .start i → Agrees rules i) : ∀ s' ∈ visited steps s, Known rules m s' := by
  refine hrun.always (C := fun s label => Orderly s label ∧ ∀ i, label = .start i → Agrees rules i) ?_
    (fun s label s' hnext hlabel ih => ?_) fun step hstep => ⟨horderly step hstep, hagrees step hstep⟩
  · exact ⟨fun flight hmem => absurd hmem List.not_mem_nil, fun flight hmem => absurd hmem List.not_mem_nil,
      .resolved (fun call hmem => absurd hmem List.not_mem_nil) rfl rfl⟩
  · obtain ⟨hsame, hagrees⟩ := hlabel
    cases step_of_next hnext with
    | start i => exact ih.start (hagrees i rfl) hsame
    | settle n flight succeeds hflight =>
      cases succeeds with
      | true => exact ih.succeed hflight
      | false => exact ih.fail hflight (hsame rfl flight hflight)
    | resolve n i hcall hdone => exact ih.resolve hcall hsame

end Lib.Flights
