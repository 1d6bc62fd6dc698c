import Lodestar.Lib.Fallible
import Lodestar.Lib.OrderedMap
/-!
# Memo — a table of values that were computed before

`lookup` takes the value of a function at a key from a table, or computes it and keeps it there.  Over a table whose values were
all computed so, a loop that looks values up does what the loop does that computes each of them: `foldlM_lookup`.
-/
namespace Lib

variable {κ ν σ α ε : Type} [DecidableEq κ] {f : κ → ν} {table : OrderedMap κ ν}

def lookup (f : κ → ν) (table : OrderedMap κ ν) (key : κ) : ν × OrderedMap κ ν :=
  match table.get? key with
  | some value => (value, table)
  | none => (f key, table.set key (f key))

def Memoizes (f : κ → ν) (table : OrderedMap κ ν) : Prop := ∀ key value, table.get? key = some value → value = f key

theorem memoizes_empty (f : κ → ν) : Memoizes f .empty := fun _ _ h => by cases h

theorem lookup_value (h : Memoizes f table) (key : κ) : (lookup f table key).1 = f key := by
  unfold lookup
  cases hget : table.get? key with
  | none => rfl
  | some value => exact h key value hget

theorem Memoizes.lookup (h : Memoizes f table) (key : κ) : Memoizes f (lookup f table key).2 := by
  unfold Lib.lookup
  cases hget : table.get? key with
  | none =>
    intro key' value hvalue
    rw [OrderedMap.get?_set] at hvalue
    by_cases hkey : key' = key
    · simp [hkey] at hvalue
      rw [hkey, hvalue]
    · simp only [if_neg hkey] at hvalue
      exact h key' value hvalue
  | some value => exact h

/-- **A loop over a table** does what the loop without one does, if each of its steps does and keeps the table right. -/
theorem foldlM_lookup {step : OrderedMap κ ν × σ → α → Except ε (OrderedMap κ ν × σ)} {plain : σ → α → Except ε σ}
    (hstep : ∀ table s a, Memoizes f table → (step (table, s) a).map Prod.snd = plain s a ∧
      ∀ next, step (table, s) a = .ok next → Memoizes f next.1) :
    ∀ (l : List α) (table : OrderedMap κ ν) (s : σ), Memoizes f table →
      (l.foldlM step (table, s)).map Prod.snd = l.foldlM plain s
  | [], _, _, _ => rfl
  | a :: l, table, s, h => by
    obtain ⟨hplain, hkeeps⟩ := hstep table s a h
    rw [List.foldlM_cons, List.foldlM_cons, ← hplain]
    cases hrun : step (table, s) a with
    | error e => rfl
    | ok next => exact foldlM_lookup hstep l next.1 next.2 (hkeeps next hrun)

end Lib
