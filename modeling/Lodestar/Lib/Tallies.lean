import Mathlib.Algebra.Ring.Int.Defs
import Mathlib.Data.List.Perm.Basic
import Lodestar.Lib.Updates
/-!
# Tallies — lists of sums that loops add to

A loop adds numbers to the entries of a list, whichever entries it comes to.  Where each turn adds at its own place the loop lists
what its turns add (`addTo_own`).
-/
namespace Lib

variable {ε α : Type}

/-! ## One tally -/

section

variable (tally : List Int)

def addTo (entries : List (Nat × Int)) : List Int :=
  entries.foldl (fun tally entry => tally.modify entry.1 (· + entry.2)) tally

@[simp] theorem addTo_nil : addTo tally [] = tally := rfl

theorem addTo_cons (entry : Nat × Int) (entries : List (Nat × Int)) :
    addTo tally (entry :: entries) = addTo (tally.modify entry.1 (· + entry.2)) entries := rfl

theorem addTo_append (entries entries' : List (Nat × Int)) :
    addTo tally (entries ++ entries') = addTo (addTo tally entries) entries' := List.foldl_append

end

@[simp] theorem length_addTo : ∀ (entries : List (Nat × Int)) (tally : List Int), (addTo tally entries).length = tally.length
  | [], _ => rfl
  | entry :: entries, tally => by
    rw [addTo_cons, length_addTo entries, List.length_modify]

theorem addTo_same {k : Nat} : ∀ (entries : List (Nat × Int)) (tally : List Int), (∀ entry ∈ entries, entry.1 = k) →
    addTo tally entries = tally.modify k (· + (entries.map (·.2)).sum)
  | [], tally, _ => by
    have hid : (fun x : Int => x + 0) = id := by
      funext x
      exact Int.add_zero x
    rw [addTo_nil, List.map_nil, List.sum_nil, hid, List.modify_id]
  | entry :: entries, tally, h => by
    rw [addTo_cons, addTo_same entries _ fun e he => h e (List.mem_cons_of_mem entry he), h entry List.mem_cons_self,
      List.modify_modify_eq, List.map_cons, List.sum_cons]
    congr 1
    funext x
    exact Int.add_assoc x _ _

theorem addTo_own {f : Nat → List (Nat × Int)} (h : ∀ i, ∀ entry ∈ f i, entry.1 = i) (n : Nat) :
    addTo (List.replicate n 0) ((List.range n).flatMap f) = (List.range n).map fun i => ((f i).map (·.2)).sum := by
  have key : ∀ m rest, addTo (List.replicate (m + rest) 0) ((List.range m).flatMap f) =
      ((List.range m).map fun i => ((f i).map (·.2)).sum) ++ List.replicate rest 0 := by
    intro m
    induction m with
    | zero =>
      simp
    | succ m ih =>
      intro rest
      have hbefore := ih (rest + 1)
      have hplace := modify_append_zero ((List.range m).map fun i => ((f i).map (·.2)).sum) (List.replicate rest 0)
        ((f m).map (·.2)).sum
      rw [List.length_map, List.length_range] at hplace
      rw [List.range_succ, List.flatMap_append, List.flatMap_singleton, addTo_append, Nat.succ_add_eq_add_succ, hbefore,
        addTo_same (f m) _ (h m), List.replicate_succ, hplace]
      simp
  have hall := key n 0
  rw [Nat.add_zero, List.replicate_zero, List.append_nil] at hall
  exact hall

/-! ## Two tallies -/

def sumTallies (a b : List Int × List Int) : List Int × List Int :=
  (List.zipWith (· + ·) a.1 b.1, List.zipWith (· + ·) a.2 b.2)

def addToBoth (tallies : List Int × List Int) (entries entries' : List (Nat × Int)) : List Int × List Int :=
  (addTo tallies.1 entries, addTo tallies.2 entries')

def zeroTallies (n : Nat) : List Int × List Int := (List.replicate n 0, List.replicate n 0)

/-- **A loop whose turns add to two tallies where they return** returns where all its turns do, and adds what they add. -/
theorem foldlM_addToBoth {n : Nat} {step : List Int × List Int → α → Except ε (List Int × List Int)} (allowed : α → Prop)
    (rs ps : α → List (Nat × Int)) : ∀ (l : List α) (tallies tallies' : List Int × List Int),
    (∀ a ∈ l, ∀ tallies tallies', tallies.1.length = n → tallies.2.length = n →
      (step tallies a = .ok tallies' ↔ allowed a ∧ tallies' = addToBoth tallies (rs a) (ps a))) →
    tallies.1.length = n → tallies.2.length = n → (l.foldlM step tallies = .ok tallies' ↔
      (∀ a ∈ l, allowed a) ∧ tallies' = addToBoth tallies (l.flatMap rs) (l.flatMap ps))
  | [], tallies, tallies', _, _, _ => by
    rw [List.foldlM_nil, pure_eq_ok, eq_comm]
    simp [addToBoth]
  | a :: l, tallies, tallies', hstep, h₁, h₂ => by
    have hrest := fun t h₁ h₂ =>
      foldlM_addToBoth (n := n) allowed rs ps l t tallies' (fun b hb => hstep b (List.mem_cons_of_mem a hb)) h₁ h₂
    have hfirst := hstep a List.mem_cons_self tallies
    simp only [List.foldlM_cons, bind_eq_ok, List.forall_mem_cons, List.flatMap_cons]
    constructor
    · rintro ⟨t, ht, h⟩
      obtain ⟨hallowed, rfl⟩ := (hfirst t h₁ h₂).1 ht
      obtain ⟨hall, rfl⟩ := (hrest _ (by simp [addToBoth, h₁]) (by simp [addToBoth, h₂])).1 h
      refine ⟨⟨hallowed, hall⟩, ?_⟩
      simp [addToBoth, addTo_append]
    · rintro ⟨⟨hallowed, hall⟩, rfl⟩
      refine ⟨_, (hfirst _ h₁ h₂).2 ⟨hallowed, rfl⟩, (hrest _ (by simp [addToBoth, h₁]) (by simp [addToBoth, h₂])).2 ⟨hall, ?_⟩⟩
      simp [addToBoth, addTo_append]

/-! ## Loops over the indices of a list -/

variable {β : Type}

theorem flatMap_filter {test : α → Bool} {f : α → List β} (h : ∀ a, test a = false → f a = []) : ∀ (l : List α),
    (l.filter test).flatMap f = l.flatMap f
  | [] => rfl
  | a :: l => by
    rw [List.flatMap_cons, List.filter_cons, ← flatMap_filter h l]
    cases htest : test a with
    | true => simp
    | false => simp [h a htest]

end Lib
