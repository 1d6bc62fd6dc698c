import Mathlib.Data.List.Sort
import Lodestar.ForkChoice.ForkChoice
/-!
# StateCache — the two caches of states

`StateContextCache` has states by their roots and `CheckpointStateCache` by checkpoints, which an index lists by epoch.  A copy
of a state is the state.
-/
namespace Lodestar

open Lib

/-- Similar API to Repository.  The states by epoch, of which only pruning reads, are left out. -/
structure StateContextCache (State : Type) where
  cache : OrderedMap HexRoot State

namespace StateContextCache

variable {State : Type}

def get (c : StateContextCache State) (root : HexRoot) : Option State := c.cache.get? root

end StateContextCache

structure CheckpointStateCache (State : Type) where
  cache : OrderedMap CheckpointHex State
  /-- Epoch -> Set<blockRoot> -/
  epochIndex : OrderedMap Nat (List HexRoot)

namespace CheckpointStateCache

variable {State : Type}

def get (c : CheckpointStateCache State) (cp : CheckpointHex) : Option State := c.cache.get? cp

/-- Searches for the latest cached state with a `root`, starting with `epoch` and descending. -/
def getLatest (c : CheckpointStateCache State) (root : HexRoot) (epoch : Int) : Option State :=
  -- sort epochs in descending order, only consider epochs lte `epoch`
  let epochs := ((c.epochIndex.entries.map (·.1)).mergeSort fun a b => decide (b ≤ a)).filter fun (e : Nat) => (e : Int) ≤ epoch
  match epochs.find? fun e => (c.epochIndex.get? e).any fun rootSet => rootSet.contains root with
  | none => none
  | some epoch => c.get ⟨epoch, root⟩

theorem getLatest_some {c : CheckpointStateCache State} {root : HexRoot} {epoch : Int} {state : State}
    (h : c.getLatest root epoch = some state) : ∃ e : Nat, (e : Int) ≤ epoch ∧ c.get ⟨e, root⟩ = some state := by
  unfold getLatest at h
  dsimp only at h
  split at h
  · cases h
  · rename_i e hfind
    have hmem := List.mem_of_find?_eq_some hfind
    rw [List.mem_filter, decide_eq_true_eq] at hmem
    exact ⟨e, hmem.2, h⟩

end CheckpointStateCache

structure StateCaches (State : Type) where
  stateCache : StateContextCache State
  checkpointStateCache : CheckpointStateCache State

end Lodestar
