import Mathlib.Algebra.BigOperators.Group.Finset.Basic
import Mathlib.Algebra.BigOperators.Group.Finset.Piecewise
import Mathlib.Algebra.Group.Int.Defs
import Mathlib.Tactic.Ring
import Lodestar.ForkChoice.ProtoArray
/-!
# ComputeDeltas — votes turned into weight changes

`computeDeltas` reads the two votes of every validator, takes the old balance from the block of the old vote and gives the
new balance to that of the new one, and makes the new vote the applied one.  `computeDeltas_run`: the delta of a block is
what its support becomes, less what the old balances gave it; `computeDeltas_eq`: that support is read off the next votes,
which are the applied ones afterwards.
-/
namespace Lodestar

open Lib

structure VoteTracker where
  currentRoot : HexRoot
  nextRoot : HexRoot
  nextEpoch : Nat
deriving DecidableEq

section

variable (indices : OrderedMap HexRoot Nat)

def addDelta (root : HexRoot) (amount : Int) (deltas : List Int) : Except ProtoArrayError (List Int) :=
  match indices.get? root with
  | none => .ok deltas
  | some deltaIndex =>
    match deltas[deltaIndex]? with
    | none => .error (.INVALID_NODE_DELTA deltaIndex)
    | some delta => .ok (deltas.set deltaIndex (delta + amount))

def voteDeltas (vote : VoteTracker) (oldBalance newBalance : Nat) (deltas : List Int) : Except ProtoArrayError (List Int) :=
  if vote.currentRoot ≠ vote.nextRoot ∨ oldBalance ≠ newBalance then do
    let deltas ← addDelta indices vote.currentRoot (-(oldBalance : Int)) deltas
    addDelta indices vote.nextRoot newBalance deltas
  else .ok deltas

/-- The loop of `computeDeltas` from validator `vIndex` on: the deltas, and the votes as they then are. -/
def computeDeltasLoop (indices : OrderedMap HexRoot Nat) (oldBalances newBalances : List Nat) : Nat →
    List (Option VoteTracker) → List Int → Except ProtoArrayError (List Int) × List (Option VoteTracker)
  | _, [], deltas => (.ok deltas, [])
  | vIndex, none :: votes, deltas =>
    let (r, votes') := computeDeltasLoop indices oldBalances newBalances (vIndex + 1) votes deltas
    (r, none :: votes')
  | vIndex, some vote :: votes, deltas =>
    if vote.currentRoot = HEX_ZERO_HASH ∧ vote.nextRoot = HEX_ZERO_HASH then
      let (r, votes') := computeDeltasLoop indices oldBalances newBalances (vIndex + 1) votes deltas
      (r, some vote :: votes')
    else match voteDeltas indices vote (oldBalances.getD vIndex 0) (newBalances.getD vIndex 0) deltas with
      | .error e => (.error e, some vote :: votes)
      | .ok deltas' =>
        let (r, votes') := computeDeltasLoop indices oldBalances newBalances (vIndex + 1) votes deltas'
        (r, some { vote with currentRoot := vote.nextRoot } :: votes')

def computeDeltas (votes : List (Option VoteTracker)) (oldBalances newBalances : List Nat) :
    Except ProtoArrayError (List Int) × List (Option VoteTracker) :=
  computeDeltasLoop indices oldBalances newBalances 0 votes (List.replicate indices.size 0)

end

/-! ## What the deltas are -/

def currentRootOf (votes : List (Option VoteTracker)) (v : Nat) : HexRoot :=
  ((votes[v]?).join.map (·.currentRoot)).getD HEX_ZERO_HASH

def support (balances : List Nat) (roots : Nat → HexRoot) (root : HexRoot) : Int :=
  ∑ v ∈ Finset.range balances.length, if roots v = root then (balances.getD v 0 : Int) else 0

def tally (balances : List Nat) : Nat → List (Option VoteTracker) → HexRoot → Int
  | _, [], _ => 0
  | k, vote :: votes, root =>
    (if vote.map (·.currentRoot) = some root then (balances.getD k 0 : Int) else 0) + tally balances (k + 1) votes root

variable {root : HexRoot}

theorem currentRootOf_eq_iff {votes : List (Option VoteTracker)} {v : Nat} (h : root ≠ HEX_ZERO_HASH) :
    currentRootOf votes v = root ↔ (votes[v]?).join.map (·.currentRoot) = some root := by
  unfold currentRootOf
  cases (votes[v]?).join with
  | none => simpa using Ne.symm h
  | some vote => simp

theorem tally_eq_sum (balances : List Nat) (h : root ≠ HEX_ZERO_HASH) :
    ∀ (votes : List (Option VoteTracker)) (k : Nat), tally balances k votes root =
      ∑ u ∈ Finset.range votes.length, if currentRootOf votes u = root then (balances.getD (k + u) 0 : Int) else 0
  | [], _ => rfl
  | vote :: votes, k => by
    have hhead : (currentRootOf (vote :: votes) 0 = root) ↔ vote.map (·.currentRoot) = some root :=
      currentRootOf_eq_iff h
    rw [tally, tally_eq_sum balances h votes (k + 1), List.length_cons, Finset.sum_range_succ', add_comm]
    simp only [hhead, Nat.add_zero]
    congr 1
    refine Finset.sum_congr rfl (fun u _ => ?_)
    rw [Nat.add_right_comm, Nat.add_assoc]
    rfl

theorem tally_eq_support (balances : List Nat) (votes : List (Option VoteTracker)) (h : root ≠ HEX_ZERO_HASH) :
    tally balances 0 votes root = support balances (currentRootOf votes) root := by
  have hzero : ∀ v, votes.length ≤ v ∨ balances.length ≤ v →
      (if currentRootOf votes v = root then (balances.getD v 0 : Int) else 0) = 0 := by
    rintro v (hv | hv)
    · rw [if_neg]
      rw [currentRootOf_eq_iff h, List.getElem?_eq_none hv]
      simp
    · rw [List.getD_eq_getElem?_getD, List.getElem?_eq_none hv]
      simp
  have hvotes := Finset.sum_subset (Finset.range_mono (Nat.le_max_left votes.length balances.length))
    (fun v _ hv => hzero v (.inl (Nat.le_of_not_lt (by simpa using hv))))
  have hbalances := Finset.sum_subset (Finset.range_mono (Nat.le_max_right votes.length balances.length))
    (fun v _ hv => hzero v (.inr (Nat.le_of_not_lt (by simpa using hv))))
  rw [tally_eq_sum balances h]
  simp only [Nat.zero_add]
  exact hvotes.trans hbalances.symm

/-- Every root has a place of its own among `n` deltas. -/
structure Places (indices : OrderedMap HexRoot Nat) (n : Nat) : Prop where
  lt : ∀ root i, indices.get? root = some i → i < n
  inj : ∀ root root' i, indices.get? root = some i → indices.get? root' = some i → root = root'

section Run

variable {indices : OrderedMap HexRoot Nat}

variable {deltas : List Int}

theorem addDelta_run (h : Places indices deltas.length) (root : HexRoot) (amount : Int) :
    ∃ deltas', addDelta indices root amount deltas = .ok deltas' ∧ deltas'.length = deltas.length ∧
      ∀ root' j, indices.get? root' = some j →
        deltas'.getD j 0 = deltas.getD j 0 + if root = root' then amount else 0 := by
  unfold addDelta
  cases hget : indices.get? root with
  | none =>
    refine ⟨deltas, rfl, rfl, fun root' j hj => ?_⟩
    rw [if_neg, add_zero]
    rintro rfl
    rw [hget] at hj
    cases hj
  | some i =>
    have hi := h.lt root i hget
    dsimp only
    rw [List.getElem?_eq_getElem hi]
    refine ⟨deltas.set i (deltas[i] + amount), rfl, by simp, fun root' j hj => ?_⟩
    rw [List.getD_eq_getElem?_getD, List.getD_eq_getElem?_getD, List.getElem?_set]
    by_cases hij : i = j
    · subst hij
      rw [if_pos rfl, if_pos (h.inj root root' i hget hj), if_pos hi, List.getElem?_eq_getElem hi]
      rfl
    · rw [if_neg hij, if_neg, add_zero]
      rintro rfl
      rw [hget] at hj
      exact hij (Option.some.inj hj)

theorem voteDeltas_run (h : Places indices deltas.length) (vote : VoteTracker) (old new : Nat) :
    ∃ deltas', voteDeltas indices vote old new deltas = .ok deltas' ∧ deltas'.length = deltas.length ∧
      ∀ root j, indices.get? root = some j → deltas'.getD j 0 = deltas.getD j 0 +
        ((if vote.nextRoot = root then (new : Int) else 0) - if vote.currentRoot = root then (old : Int) else 0) := by
  unfold voteDeltas
  split
  · obtain ⟨ds, hrun, hlen, hds⟩ := addDelta_run h vote.currentRoot (-(old : Int))
    have hplaces : Places indices ds.length := by rw [hlen]; exact h
    obtain ⟨ds', hrun', hlen', hds'⟩ := addDelta_run hplaces vote.nextRoot new
    refine ⟨ds', ?_, hlen'.trans hlen, fun root j hj => ?_⟩
    · rw [hrun]
      exact hrun'
    · rw [hds' root j hj, hds root j hj]
      split <;> split <;> ring
  · rename_i hsame
    have hroots : vote.currentRoot = vote.nextRoot := by
      by_contra hne
      exact hsame (.inl hne)
    have hbal : old = new := by
      by_contra hne
      exact hsame (.inr hne)
    refine ⟨deltas, rfl, rfl, fun root j _ => ?_⟩
    rw [hroots, hbal, sub_self, add_zero]

theorem computeDeltasLoop_run (oldBalances newBalances : List Nat) : ∀ (votes : List (Option VoteTracker)) (k : Nat)
    {deltas : List Int}, Places indices deltas.length →
    ∃ deltas' votes', computeDeltasLoop indices oldBalances newBalances k votes deltas = (.ok deltas', votes') ∧
      deltas'.length = deltas.length ∧ ∀ root j, indices.get? root = some j → root ≠ HEX_ZERO_HASH →
        deltas'.getD j 0 = deltas.getD j 0 + (tally newBalances k votes' root - tally oldBalances k votes root)
  | [], k, deltas, _ => ⟨deltas, [], rfl, rfl, fun _ _ _ _ => by simp [tally]⟩
  | none :: votes, k, deltas, h => by
    obtain ⟨ds, vs, hrun, hlen, hds⟩ := computeDeltasLoop_run oldBalances newBalances votes (k + 1) h
    refine ⟨ds, none :: vs, ?_, hlen, fun root j hj hne => ?_⟩
    · rw [computeDeltasLoop, hrun]
    · rw [hds root j hj hne]
      simp [tally]
  | some vote :: votes, k, deltas, h => by
    rw [computeDeltasLoop]
    by_cases hzero : vote.currentRoot = HEX_ZERO_HASH ∧ vote.nextRoot = HEX_ZERO_HASH
    · obtain ⟨ds, vs, hrun, hlen, hds⟩ := computeDeltasLoop_run oldBalances newBalances votes (k + 1) h
      rw [if_pos hzero, hrun]
      refine ⟨ds, some vote :: vs, rfl, hlen, fun root j hj hne => ?_⟩
      have hno : vote.currentRoot ≠ root := by
        rw [hzero.1]
        exact Ne.symm hne
      rw [hds root j hj hne]
      simp [tally, hno]
    · obtain ⟨ds, hrun, hlen, hds⟩ := voteDeltas_run h vote (oldBalances.getD k 0) (newBalances.getD k 0)
      have hplaces : Places indices ds.length := by rw [hlen]; exact h
      obtain ⟨ds', vs, hrun', hlen', hds'⟩ := computeDeltasLoop_run oldBalances newBalances votes (k + 1) hplaces
      rw [if_neg hzero, hrun]
      dsimp only
      rw [hrun']
      refine ⟨ds', _, rfl, hlen'.trans hlen, fun root j hj hne => ?_⟩
      rw [hds' root j hj hne, hds root j hj]
      simp only [tally, Option.map_some, Option.some_inj]
      ring

/-- **`computeDeltas` never throws, and the delta of a block** is its support by the new balances and votes, less its support
by the old ones. -/
theorem computeDeltas_run (h : Places indices indices.size) (votes : List (Option VoteTracker))
    (oldBalances newBalances : List Nat) :
    ∃ deltas votes', computeDeltas indices votes oldBalances newBalances = (.ok deltas, votes') ∧
      deltas.length = indices.size ∧ ∀ root j, indices.get? root = some j → root ≠ HEX_ZERO_HASH →
        deltas.getD j 0 = support newBalances (currentRootOf votes') root - support oldBalances (currentRootOf votes) root := by
  have hplaces : Places indices (List.replicate indices.size (0 : Int)).length := by rw [List.length_replicate]; exact h
  obtain ⟨deltas, votes', hrun, hlen, hds⟩ := computeDeltasLoop_run oldBalances newBalances votes 0 hplaces
  refine ⟨deltas, votes', hrun, by rw [hlen, List.length_replicate], fun root j hj hne => ?_⟩
  rw [hds root j hj hne, tally_eq_support newBalances votes' hne, tally_eq_support oldBalances votes hne,
    List.getD_eq_getElem?_getD, List.getElem?_replicate, if_pos (h.lt root j hj), Option.getD_some, zero_add]

end Run

/-! ## The votes afterwards -/

section

variable (votes : List (Option VoteTracker))

def appliedVotes : List (Option VoteTracker) :=
  votes.map (Option.map fun vote => { vote with currentRoot := vote.nextRoot })

def nextRootOf (v : Nat) : HexRoot :=
  ((votes[v]?).join.map (·.nextRoot)).getD HEX_ZERO_HASH

theorem currentRootOf_appliedVotes : currentRootOf (appliedVotes votes) = nextRootOf votes := by
  funext v
  unfold currentRootOf nextRootOf appliedVotes
  rw [List.getElem?_map]
  rcases votes[v]? with _ | _ | vote <;> simp

end

theorem applied_of_zero {vote : VoteTracker} (h : vote.currentRoot = HEX_ZERO_HASH ∧ vote.nextRoot = HEX_ZERO_HASH) :
    { vote with currentRoot := vote.nextRoot } = vote := by
  cases vote
  simp_all

theorem computeDeltasLoop_votes (indices : OrderedMap HexRoot Nat) (oldBalances newBalances : List Nat) :
    ∀ (votes : List (Option VoteTracker)) (k : Nat) (deltas : List Int) {deltas' : List Int}
      {votes' : List (Option VoteTracker)},
      computeDeltasLoop indices oldBalances newBalances k votes deltas = (.ok deltas', votes') → votes' = appliedVotes votes
  | [], k, deltas, deltas', votes', h => by
    simp only [computeDeltasLoop, Prod.mk.injEq] at h
    exact h.2.symm
  | none :: votes, k, deltas, deltas', votes', h => by
    simp only [computeDeltasLoop, Prod.mk.injEq] at h
    obtain ⟨hr, rfl⟩ := h
    have hvs := computeDeltasLoop_votes indices oldBalances newBalances votes (k + 1) deltas (Prod.ext hr rfl)
    simp [hvs, appliedVotes]
  | some vote :: votes, k, deltas, deltas', votes', h => by
    rw [computeDeltasLoop] at h
    by_cases hzero : vote.currentRoot = HEX_ZERO_HASH ∧ vote.nextRoot = HEX_ZERO_HASH
    · simp only [if_pos hzero, Prod.mk.injEq] at h
      obtain ⟨hr, rfl⟩ := h
      have hvs := computeDeltasLoop_votes indices oldBalances newBalances votes (k + 1) deltas (Prod.ext hr rfl)
      simp [hvs, appliedVotes, applied_of_zero hzero]
    · rw [if_neg hzero] at h
      split at h
      · cases h
      · rename_i ds _
        simp only [Prod.mk.injEq] at h
        obtain ⟨hr, rfl⟩ := h
        have hvs := computeDeltasLoop_votes indices oldBalances newBalances votes (k + 1) ds (Prod.ext hr rfl)
        simp [hvs, appliedVotes]

theorem computeDeltasLoop_applied (indices : OrderedMap HexRoot Nat) (balances : List Nat) :
    ∀ (votes : List (Option VoteTracker)) (k : Nat) (deltas : List Int),
      (computeDeltasLoop indices balances balances k (appliedVotes votes) deltas).1 = .ok deltas
  | [], k, deltas => rfl
  | none :: votes, k, deltas => computeDeltasLoop_applied indices balances votes (k + 1) deltas
  | some vote :: votes, k, deltas => by
    have hrest := computeDeltasLoop_applied indices balances votes (k + 1) deltas
    rw [show appliedVotes (some vote :: votes) =
      some { vote with currentRoot := vote.nextRoot } :: appliedVotes votes from rfl, computeDeltasLoop]
    by_cases hzero : vote.nextRoot = HEX_ZERO_HASH ∧ vote.nextRoot = HEX_ZERO_HASH
    · rw [if_pos hzero]
      exact hrest
    · rw [if_neg hzero, voteDeltas, if_neg (by simp)]
      exact hrest

theorem Places.of_perm {indices : OrderedMap HexRoot Nat} {n : Nat}
    (h : (indices.entries.map (·.2)).Perm (List.range n)) : Places indices n where
  lt root i hi := by
    have hmem : i ∈ indices.entries.map (·.2) := List.mem_map.2 ⟨(root, i), OrderedMap.get?_eq_some_iff.1 hi, rfl⟩
    exact List.mem_range.1 (h.mem_iff.1 hmem)
  inj root root' i hi hi' := by
    have hnd : (indices.entries.map (·.2)).Nodup := h.nodup_iff.2 List.nodup_range
    have hsame := List.inj_on_of_nodup_map hnd (OrderedMap.get?_eq_some_iff.1 hi) (OrderedMap.get?_eq_some_iff.1 hi') rfl
    exact congrArg Prod.fst hsame

/-- **What `computeDeltas` returns for a map onto `0..n-1`.**  It never throws; the delta of a block is the new balances of the
validators that now vote for it, less the old balances of those that were counted for it, whatever the lengths of the two lists
and whichever votes are missing or stand for blocks outside the map.  Every next vote becomes the applied one, and a second
call with the new balances on both sides changes nothing. -/
theorem computeDeltas_eq {indices : OrderedMap HexRoot Nat} {n : Nat}
    (h : (indices.entries.map (·.2)).Perm (List.range n)) (votes : List (Option VoteTracker))
    (oldBalances newBalances : List Nat) :
    ∃ deltas, computeDeltas indices votes oldBalances newBalances = (.ok deltas, appliedVotes votes) ∧
      deltas.length = n ∧
      (∀ root i, indices.get? root = some i → root ≠ HEX_ZERO_HASH → deltas[i]? =
        some (support newBalances (nextRootOf votes) root - support oldBalances (currentRootOf votes) root)) ∧
      computeDeltas indices (appliedVotes votes) newBalances newBalances =
        (.ok (List.replicate n 0), appliedVotes votes) := by
  have hsize : indices.size = n := by
    have hlen := h.length_eq
    simpa [OrderedMap.size] using hlen
  have hplaces : Places indices indices.size := by
    rw [hsize]
    exact .of_perm h
  obtain ⟨deltas, votes', hrun, hlen, hds⟩ := computeDeltas_run hplaces votes oldBalances newBalances
  obtain rfl := computeDeltasLoop_votes indices oldBalances newBalances votes 0 _ hrun
  refine ⟨deltas, hrun, hlen.trans hsize, fun root i hi hne => ?_, ?_⟩
  · have hlt : i < deltas.length := by
      rw [hlen]
      exact hplaces.lt root i hi
    have hd := hds root i hi hne
    rw [List.getD_eq_getElem?_getD, List.getElem?_eq_getElem hlt, Option.getD_some, currentRootOf_appliedVotes] at hd
    rw [List.getElem?_eq_getElem hlt, hd]
  · have hzeros := computeDeltasLoop_applied indices newBalances votes 0 (List.replicate n 0)
    rw [← hsize] at hzeros ⊢
    have hvotes := computeDeltasLoop_votes indices newBalances newBalances (appliedVotes votes) 0 _ (Prod.ext hzeros rfl)
    refine Prod.ext hzeros (hvotes.trans ?_)
    unfold appliedVotes
    rw [List.map_map]
    refine List.map_congr_left (fun vote _ => ?_)
    cases vote <;> rfl

/-- One validator moves to another block while its balance grows, one stays with a smaller balance, one never voted, and one
comes from a block that is not in the map. -/
theorem computeDeltas_eq_moved :
    let indices : OrderedMap HexRoot Nat := ⟨[("0xaa", 1), ("0xbb", 0)], by decide⟩
    let votes : List (Option VoteTracker) :=
      [some ⟨"0xaa", "0xbb", 3⟩, none, some ⟨"0xaa", "0xaa", 3⟩, some ⟨"0xee", "0xaa", 4⟩]
    (computeDeltas indices votes [30, 31, 32] [33, 31, 20]).1 = .ok [33, -42] ∧
      ∃ deltas, computeDeltas indices votes [30, 31, 32] [33, 31, 20] = (.ok deltas, appliedVotes votes) ∧ deltas.length = 2 := by
  intro indices votes
  have hperm : (indices.entries.map (·.2)).Perm (List.range 2) := by decide
  obtain ⟨deltas, hrun, hlen, -⟩ := computeDeltas_eq hperm votes [30, 31, 32] [33, 31, 20]
  exact ⟨by decide, deltas, hrun, hlen⟩

end Lodestar
