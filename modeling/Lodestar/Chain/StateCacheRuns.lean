import Lodestar.Lib.GroupedSets
import Lodestar.Lib.Ranks
import Lodestar.Lib.Runs
import Lodestar.Chain.StateCache
/-!
# StateCacheRuns — the caches of states with their indices, over runs

The index of the checkpoint states is exact in every run and `getLatest` reads it in the order of the epochs.  `prune` takes the
epochs in the order in which they were first added: it leaves the greatest exactly where those it drops are below those it
leaves (`CheckpointStateCache.Indexed.keepsGreatest_iff`).

The index of the other cache is exact until `clear`, which forgets it: `StateContextCacheIndexed.right_iff`.
-/
namespace Lodestar

open Lib GroupedSets Ranks Runs

/-! ## Checkpoint states -/

namespace CheckpointStateCache

variable {State : Type} {c : CheckpointStateCache State}

def MAX_EPOCHS : Nat := 10

def empty : CheckpointStateCache State := ⟨.empty, .empty⟩

section

variable (c : CheckpointStateCache State)

def add (cp : CheckpointHex) (item : State) : CheckpointStateCache State :=
  if c.cache.has cp then c
  else ⟨c.cache.set cp item, GroupedSets.insert c.epochIndex cp.epoch cp.root⟩

def epochs : List Nat := c.epochIndex.entries.map (·.1)

def deleteAllEpochItems (epoch : Nat) : CheckpointStateCache State where
  cache := (((c.epochIndex.get? epoch).getD []).map (CheckpointHex.mk epoch)).foldl OrderedMap.delete c.cache
  epochIndex := c.epochIndex.delete epoch

def pruneFinalized (finalizedEpoch : Nat) : CheckpointStateCache State :=
  c.epochs.foldl (fun c epoch => if epoch < finalizedEpoch then c.deleteAllEpochItems epoch else c) c

def otherEpochs (finalizedEpoch justifiedEpoch : Nat) : List Nat :=
  c.epochs.filter fun epoch => decide (epoch ≠ finalizedEpoch ∧ epoch ≠ justifiedEpoch)

def prune (finalizedEpoch justifiedEpoch : Nat) : CheckpointStateCache State :=
  let epochs := c.otherEpochs finalizedEpoch justifiedEpoch
  if epochs.length > MAX_EPOCHS then (epochs.take (epochs.length - MAX_EPOCHS)).foldl deleteAllEpochItems c
  else c

end

def delete (c : CheckpointStateCache State) (cp : CheckpointHex) : CheckpointStateCache State where
  cache := c.cache.delete cp
  epochIndex := GroupedSets.discard c.epochIndex cp.epoch cp.root

def clear (_ : CheckpointStateCache State) : CheckpointStateCache State := empty

/-! ## The index -/

/-- The index lists exactly the cached pairs, and no epoch without one. -/
structure Indexed (c : CheckpointStateCache State) : Prop where
  exact : ∀ epoch root, Holds c.epochIndex epoch root ↔ (c.get ⟨epoch, root⟩).isSome
  noEmpty : NoEmpty c.epochIndex

theorem indexed_empty : (empty : CheckpointStateCache State).Indexed where
  exact _ _ := iff_of_false not_holds_empty Bool.false_ne_true
  noEmpty := noEmpty_empty

theorem Indexed.add (h : c.Indexed) (cp : CheckpointHex) (item : State) : (c.add cp item).Indexed := by
  unfold CheckpointStateCache.add
  split
  · exact h
  · refine ⟨fun epoch root => ?_, h.noEmpty.insert⟩
    rw [holds_insert, h.exact]
    unfold get
    rw [OrderedMap.get?_set]
    by_cases hcp : (⟨epoch, root⟩ : CheckpointHex) = cp
    · rw [if_pos hcp]
      subst hcp
      simp
    · rw [if_neg hcp]
      refine or_iff_left fun hsame => hcp ?_
      rw [hsame.1, hsame.2]

theorem Indexed.delete (h : c.Indexed) (cp : CheckpointHex) : (c.delete cp).Indexed := by
  refine ⟨fun epoch root => ?_, h.noEmpty.discard⟩
  unfold CheckpointStateCache.delete get
  rw [holds_discard, h.exact, OrderedMap.get?_delete]
  by_cases hcp : (⟨epoch, root⟩ : CheckpointHex) = cp
  · rw [if_pos hcp]
    subst hcp
    simp
  · rw [if_neg hcp]
    refine and_iff_left fun ⟨hepoch, hroot⟩ => hcp ?_
    rw [hepoch, hroot]

theorem Indexed.get_deleteAllEpochItems (h : c.Indexed) (epoch : Nat) (cp : CheckpointHex) :
    (c.deleteAllEpochItems epoch).get cp = if cp.epoch = epoch then none else c.get cp := by
  unfold deleteAllEpochItems get
  rw [OrderedMap.get?_foldl_delete]
  by_cases hepoch : cp.epoch = epoch
  · subst hepoch
    rw [if_pos rfl]
    split
    · rfl
    · rename_i hnot
      by_contra hcached
      obtain ⟨set, hset, hroot⟩ := (h.exact cp.epoch cp.root).2 (Option.isSome_iff_ne_none.2 hcached)
      refine hnot (List.mem_map.2 ⟨cp.root, ?_, rfl⟩)
      rw [hset]
      exact hroot
  · rw [if_neg hepoch, if_neg fun hmem => ?_]
    obtain ⟨root, -, rfl⟩ := List.mem_map.1 hmem
    exact hepoch rfl

theorem Indexed.deleteAllEpochItems (h : c.Indexed) (epoch : Nat) : (c.deleteAllEpochItems epoch).Indexed := by
  refine ⟨fun epoch' root => ?_, h.noEmpty.delete⟩
  rw [h.get_deleteAllEpochItems]
  unfold CheckpointStateCache.deleteAllEpochItems
  rw [holds_delete, h.exact]
  by_cases hepoch : epoch' = epoch
  · simp [hepoch]
  · simp [hepoch]

theorem Indexed.foldl_deleteAllEpochItems : ∀ (epochs : List Nat) {c : CheckpointStateCache State}, c.Indexed →
    (epochs.foldl CheckpointStateCache.deleteAllEpochItems c).Indexed ∧
      ∀ cp, (epochs.foldl CheckpointStateCache.deleteAllEpochItems c).get cp = if cp.epoch ∈ epochs then none else c.get cp
  | [], _, h => ⟨h, fun _ => rfl⟩
  | epoch :: epochs, c, h => by
    obtain ⟨hindexed, hget⟩ := foldl_deleteAllEpochItems epochs (h.deleteAllEpochItems epoch)
    refine ⟨hindexed, fun cp => ?_⟩
    rw [List.foldl_cons, hget, h.get_deleteAllEpochItems]
    by_cases hepoch : cp.epoch = epoch <;> by_cases hrest : cp.epoch ∈ epochs <;> simp [hepoch, hrest]

theorem pruneFinalized_eq (c : CheckpointStateCache State) (finalizedEpoch : Nat) :
    c.pruneFinalized finalizedEpoch = (c.epochs.filter fun epoch => decide (epoch < finalizedEpoch)).foldl
      CheckpointStateCache.deleteAllEpochItems c := by
  unfold pruneFinalized
  rw [List.foldl_filter]
  simp only [decide_eq_true_eq]

theorem Indexed.pruneFinalized (h : c.Indexed) (finalizedEpoch : Nat) : (c.pruneFinalized finalizedEpoch).Indexed := by
  rw [pruneFinalized_eq]
  exact (Indexed.foldl_deleteAllEpochItems _ h).1

section

variable (c : CheckpointStateCache State) (finalizedEpoch justifiedEpoch : Nat)

/-- The epochs that `prune` drops are the first, so that `MAX_EPOCHS` are left. -/
def dropped : List Nat :=
  (c.otherEpochs finalizedEpoch justifiedEpoch).take ((c.otherEpochs finalizedEpoch justifiedEpoch).length - MAX_EPOCHS)

def left : List Nat :=
  (c.otherEpochs finalizedEpoch justifiedEpoch).drop ((c.otherEpochs finalizedEpoch justifiedEpoch).length - MAX_EPOCHS)

theorem prune_eq : c.prune finalizedEpoch justifiedEpoch =
      (c.dropped finalizedEpoch justifiedEpoch).foldl CheckpointStateCache.deleteAllEpochItems c := by
  unfold prune dropped
  dsimp only
  split
  · rfl
  · rw [Nat.sub_eq_zero_of_le (by omega), List.take_zero, List.foldl_nil]

end

theorem Indexed.prune (h : c.Indexed) (finalizedEpoch justifiedEpoch : Nat) : (c.prune finalizedEpoch justifiedEpoch).Indexed := by
  rw [prune_eq]
  exact (Indexed.foldl_deleteAllEpochItems _ h).1

theorem Indexed.get_prune (h : c.Indexed) (finalizedEpoch justifiedEpoch : Nat) (cp : CheckpointHex) :
    (c.prune finalizedEpoch justifiedEpoch).get cp =
      if cp.epoch ∈ c.dropped finalizedEpoch justifiedEpoch then none else c.get cp := by
  rw [prune_eq]
  exact (Indexed.foldl_deleteAllEpochItems _ h).2 cp

theorem Indexed.mem_epochs_iff (h : c.Indexed) {epoch : Nat} : epoch ∈ c.epochs ↔ ∃ root, (c.get ⟨epoch, root⟩).isSome := by
  unfold epochs
  rw [h.noEmpty.mem_keys_iff]
  simp only [h.exact]

/-! ## The latest state of a root -/

/-- What is found is the state of the greatest cached epoch up to `epoch` for the root, and nothing where there is none. -/
def IsLatest (c : CheckpointStateCache State) (root : HexRoot) (epoch : Int) : Option State → Prop
  | none => ∀ e : Nat, (e : Int) ≤ epoch → c.get ⟨e, root⟩ = none
  | some state => ∃ e : Nat, (e : Int) ≤ epoch ∧ c.get ⟨e, root⟩ = some state ∧
      ∀ e' : Nat, (e' : Int) ≤ epoch → (c.get ⟨e', root⟩).isSome → e' ≤ e

theorem Indexed.getLatest (h : c.Indexed) (root : HexRoot) (epoch : Int) : c.IsLatest root epoch (c.getLatest root epoch) := by
  have hlists : ∀ e : Nat, ((c.epochIndex.get? e).any fun rootSet => rootSet.contains root) = true ↔ (c.get ⟨e, root⟩).isSome := by
    intro e
    rw [← h.exact, Option.any_eq_true]
    exact exists_congr fun set => and_congr Iff.rfl List.contains_iff_mem
  have hmem : ∀ e : Nat, e ∈ ((c.epochIndex.entries.map (·.1)).mergeSort fun a b => decide (b ≤ a)).filter
      (fun e : Nat => (e : Int) ≤ epoch) ↔ (e : Int) ≤ epoch ∧ e ∈ c.epochs := by
    intro e
    rw [List.mem_filter, decide_eq_true_eq, List.mem_mergeSort, and_comm]
    rfl
  have hsorted : (((c.epochIndex.entries.map (·.1)).mergeSort fun a b => decide (b ≤ a)).filter
      (fun e : Nat => (e : Int) ≤ epoch)).Pairwise (fun a b => b ≤ a) := by
    refine List.Pairwise.filter _ ((List.pairwise_mergeSort ?_ ?_ _).imp fun {a b} hab => of_decide_eq_true hab)
    · intro a b d hab hbd
      rw [decide_eq_true_eq] at hab hbd ⊢
      exact Nat.le_trans hbd hab
    · intro a b
      rw [Bool.or_eq_true, decide_eq_true_eq, decide_eq_true_eq]
      exact Nat.le_total b a
  unfold CheckpointStateCache.getLatest
  dsimp only
  generalize (((c.epochIndex.entries.map (·.1)).mergeSort fun a b => decide (b ≤ a)).filter
      (fun e : Nat => (e : Int) ≤ epoch)) = epochs at hmem hsorted
  split
  · rename_i hnone
    intro e he
    by_contra hcached
    have hsome := Option.isSome_iff_ne_none.2 hcached
    exact List.find?_eq_none.1 hnone e ((hmem e).2 ⟨he, h.mem_epochs_iff.2 ⟨root, hsome⟩⟩) ((hlists e).2 hsome)
  · rename_i e hfind
    obtain ⟨hhas, pre, post, hsplit, hpre⟩ := List.find?_eq_some_iff_append.1 hfind
    have hcached := (hlists e).1 hhas
    obtain ⟨state, hstate⟩ := Option.isSome_iff_exists.1 hcached
    rw [hstate]
    refine ⟨e, ((hmem e).1 (hsplit ▸ List.mem_append_right _ List.mem_cons_self)).1, hstate, fun e' he' hcached' => ?_⟩
    have he'mem : e' ∈ pre ++ e :: post := hsplit ▸ (hmem e').2 ⟨he', h.mem_epochs_iff.2 ⟨root, hcached'⟩⟩
    rcases List.mem_append.1 he'mem with hbefore | hafter
    · have hskipped := hpre e' hbefore
      rw [(hlists e').2 hcached'] at hskipped
      cases hskipped
    · rcases List.mem_cons.1 hafter with rfl | hafter
      · exact Nat.le_refl e'
      · rw [hsplit, List.pairwise_append, List.pairwise_cons] at hsorted
        exact hsorted.2.1.1 e' hafter

/-! ## What pruning leaves -/

section

variable (c : CheckpointStateCache State) (finalizedEpoch justifiedEpoch : Nat)

def cachedOthers : List Nat :=
  ((c.cache.entries.map (·.1.epoch)).dedup).filter fun epoch => decide (epoch ≠ finalizedEpoch ∧ epoch ≠ justifiedEpoch)

/-- Pruning keeps the entries of the two epochs, and of the others those of the `MAX_EPOCHS` greatest. -/
def KeepsGreatest (c pruned : CheckpointStateCache State) (finalizedEpoch justifiedEpoch : Nat) : Prop :=
  (∀ cp : CheckpointHex, cp.epoch = finalizedEpoch ∨ cp.epoch = justifiedEpoch → pruned.get cp = c.get cp) ∧
    ∀ cp : CheckpointHex, cp.epoch ≠ finalizedEpoch → cp.epoch ≠ justifiedEpoch → pruned.get cp =
      if rank (· > ·) (c.cachedOthers finalizedEpoch justifiedEpoch) cp.epoch < MAX_EPOCHS then c.get cp else none

/-- The epochs that were added first, and are to go, are below all that are to stay. -/
def DropsLower : Prop :=
  ∀ epoch ∈ c.dropped finalizedEpoch justifiedEpoch, ∀ epoch' ∈ c.left finalizedEpoch justifiedEpoch, epoch < epoch'

end

variable {finalizedEpoch justifiedEpoch epoch : Nat}

theorem mem_cachedOthers : epoch ∈ c.cachedOthers finalizedEpoch justifiedEpoch ↔
    (∃ root, (c.get ⟨epoch, root⟩).isSome) ∧ epoch ≠ finalizedEpoch ∧ epoch ≠ justifiedEpoch := by
  unfold cachedOthers
  rw [List.mem_filter, decide_eq_true_eq, List.mem_dedup, List.mem_map]
  refine and_congr_left fun _ => ?_
  constructor
  · rintro ⟨⟨cp, item⟩, hmem, rfl⟩
    exact ⟨cp.root, Option.isSome_iff_exists.2 ⟨item, OrderedMap.get?_eq_some_iff.2 hmem⟩⟩
  · rintro ⟨root, hcached⟩
    obtain ⟨item, hitem⟩ := Option.isSome_iff_exists.1 hcached
    exact ⟨_, OrderedMap.get?_eq_some_iff.1 hitem, rfl⟩

theorem nodup_otherEpochs (c : CheckpointStateCache State) (finalizedEpoch justifiedEpoch : Nat) :
    (c.otherEpochs finalizedEpoch justifiedEpoch).Nodup := c.epochIndex.nodup.filter _

theorem mem_otherEpochs : epoch ∈ c.otherEpochs finalizedEpoch justifiedEpoch ↔
    epoch ∈ c.epochs ∧ epoch ≠ finalizedEpoch ∧ epoch ≠ justifiedEpoch := by
  unfold otherEpochs
  rw [List.mem_filter, decide_eq_true_eq]

theorem Indexed.otherEpochs_perm (h : c.Indexed) (finalizedEpoch justifiedEpoch : Nat) :
    (c.otherEpochs finalizedEpoch justifiedEpoch).Perm (c.cachedOthers finalizedEpoch justifiedEpoch) := by
  have hnodup : (c.cachedOthers finalizedEpoch justifiedEpoch).Nodup := (List.nodup_dedup _).filter _
  refine (List.perm_ext_iff_of_nodup (c.nodup_otherEpochs _ _) hnodup).2 fun epoch => ?_
  rw [mem_cachedOthers, mem_otherEpochs, h.mem_epochs_iff]

theorem dropped_append_left (c : CheckpointStateCache State) (finalizedEpoch justifiedEpoch : Nat) :
    c.dropped finalizedEpoch justifiedEpoch ++ c.left finalizedEpoch justifiedEpoch = c.otherEpochs finalizedEpoch justifiedEpoch :=
  List.take_append_drop _ _

theorem not_mem_left_of_dropped (h : epoch ∈ c.dropped finalizedEpoch justifiedEpoch) :
    epoch ∉ c.left finalizedEpoch justifiedEpoch := by
  have hnodup := c.nodup_otherEpochs finalizedEpoch justifiedEpoch
  rw [← dropped_append_left] at hnodup
  exact fun hleft => (List.nodup_append.1 hnodup).2.2 epoch h epoch hleft rfl

theorem Indexed.left_iff (h : c.Indexed) (finalizedEpoch justifiedEpoch : Nat) :
    (∀ epoch ∈ c.otherEpochs finalizedEpoch justifiedEpoch,
      rank (· > ·) (c.cachedOthers finalizedEpoch justifiedEpoch) epoch < MAX_EPOCHS ↔
        epoch ∈ c.left finalizedEpoch justifiedEpoch) ↔ c.DropsLower finalizedEpoch justifiedEpoch := by
  have hlen : (c.left finalizedEpoch justifiedEpoch).length ≤ MAX_EPOCHS := by
    unfold left
    rw [List.length_drop]
    omega
  have hfull : c.dropped finalizedEpoch justifiedEpoch ≠ [] → (c.left finalizedEpoch justifiedEpoch).length = MAX_EPOCHS := by
    unfold left dropped
    intro hne
    rw [ne_eq, List.take_eq_nil_iff, not_or] at hne
    rw [List.length_drop]
    omega
  have hnodup := c.nodup_otherEpochs finalizedEpoch justifiedEpoch
  simp only [← rank_perm (h.otherEpochs_perm finalizedEpoch justifiedEpoch)]
  rw [← c.dropped_append_left] at hnodup ⊢
  exact rank_cut_iff (r := (· > ·)) hnodup hlen hfull

theorem Indexed.keepsGreatest_iff (h : c.Indexed) (finalizedEpoch justifiedEpoch : Nat) :
    c.KeepsGreatest (c.prune finalizedEpoch justifiedEpoch) finalizedEpoch justifiedEpoch ↔
      c.DropsLower finalizedEpoch justifiedEpoch := by
  rw [← h.left_iff]
  constructor
  · rintro ⟨-, hrest⟩ epoch hmem
    obtain ⟨⟨root, hcached⟩, hf, hj⟩ := mem_cachedOthers.1 ((h.otherEpochs_perm _ _).mem_iff.1 hmem)
    have hget := hrest ⟨epoch, root⟩ hf hj
    rw [h.get_prune] at hget
    rw [← dropped_append_left, List.mem_append] at hmem
    constructor
    · intro hrank
      refine hmem.resolve_left fun hdropped => ?_
      rw [if_pos hdropped, if_pos hrank] at hget
      rw [← hget] at hcached
      cases hcached
    · intro hleft
      by_contra hrank
      rw [if_neg hrank, if_neg fun hdropped => not_mem_left_of_dropped hdropped hleft] at hget
      rw [hget] at hcached
      cases hcached
  · intro hsame
    constructor
    · intro cp hcp
      rw [h.get_prune, if_neg fun hdropped => ?_]
      obtain ⟨-, hf, hj⟩ := mem_otherEpochs.1 (c.dropped_append_left _ _ ▸ List.mem_append_left _ hdropped)
      exact hcp.elim hf hj
    · intro cp hf hj
      rw [h.get_prune]
      by_cases hcached : (c.get cp).isSome
      · have hmem : cp.epoch ∈ c.otherEpochs finalizedEpoch justifiedEpoch :=
          mem_otherEpochs.2 ⟨h.mem_epochs_iff.2 ⟨cp.root, hcached⟩, hf, hj⟩
        have hiff := hsame cp.epoch hmem
        rw [← dropped_append_left, List.mem_append] at hmem
        by_cases hdropped : cp.epoch ∈ c.dropped finalizedEpoch justifiedEpoch
        · rw [if_pos hdropped, if_neg fun hrank => not_mem_left_of_dropped hdropped (hiff.1 hrank)]
        · rw [if_neg hdropped, if_pos (hiff.2 (hmem.resolve_left hdropped))]
      · rw [Option.not_isSome_iff_eq_none.1 hcached, ite_self, ite_self]

/-! ## Runs -/

inductive Call (State : Type)
  | add (cp : CheckpointHex) (item : State)
  | delete (cp : CheckpointHex)
  | pruneFinalized (finalizedEpoch : Nat)
  | prune (finalizedEpoch justifiedEpoch : Nat)
  | deleteAllEpochItems (epoch : Nat)
  | clear

def Call.run (c : CheckpointStateCache State) : Call State → CheckpointStateCache State
  | .add cp item => c.add cp item
  | .delete cp => c.delete cp
  | .pruneFinalized finalizedEpoch => c.pruneFinalized finalizedEpoch
  | .prune finalizedEpoch justifiedEpoch => c.prune finalizedEpoch justifiedEpoch
  | .deleteAllEpochItems epoch => c.deleteAllEpochItems epoch
  | .clear => c.clear

def next (call : Call State) (c : CheckpointStateCache State) : Option (CheckpointStateCache State) := some (call.run c)

theorem Indexed.run (h : c.Indexed) (call : Call State) : (call.run c).Indexed := by
  cases call with
  | add cp item => exact h.add cp item
  | delete cp => exact h.delete cp
  | pruneFinalized finalizedEpoch => exact h.pruneFinalized finalizedEpoch
  | prune finalizedEpoch justifiedEpoch => exact h.prune finalizedEpoch justifiedEpoch
  | deleteAllEpochItems epoch => exact h.deleteAllEpochItems epoch
  | clear => exact indexed_empty

variable {steps : List (CheckpointStateCache State × Call State)}

theorem indexed_of_run (hrun : Run next empty steps c) :
    ∀ x ∈ visited steps c, x.Indexed := by
  refine hrun.always (C := fun _ _ => True) indexed_empty (fun s call s' hnext _ hs => ?_) fun _ _ => trivial
  cases hnext
  exact hs.run call

/-- What the cache is for, over the states and the calls of a run. -/
structure Right (steps : List (CheckpointStateCache State × Call State)) (c : CheckpointStateCache State) : Prop where
  exact : ∀ x ∈ visited steps c, ∀ epoch root, Holds x.epochIndex epoch root ↔ (x.get ⟨epoch, root⟩).isSome
  latest : ∀ x ∈ visited steps c, ∀ root epoch, x.IsLatest root epoch (x.getLatest root epoch)
  pruned : ∀ x finalizedEpoch justifiedEpoch, (x, .prune finalizedEpoch justifiedEpoch) ∈ steps →
    x.KeepsGreatest (x.prune finalizedEpoch justifiedEpoch) finalizedEpoch justifiedEpoch

theorem right_iff (hrun : Run next empty steps c) :
    Right steps c ↔ ∀ x finalizedEpoch justifiedEpoch, (x, .prune finalizedEpoch justifiedEpoch) ∈ steps →
      x.DropsLower finalizedEpoch justifiedEpoch := by
  have hindexed := indexed_of_run hrun
  have hbefore : ∀ x call, (x, call) ∈ steps → x.Indexed := fun x call hmem =>
    hindexed x (List.mem_append_left _ (List.mem_map.2 ⟨_, hmem, rfl⟩))
  constructor
  · intro hright x f j hmem
    exact ((hbefore x _ hmem).keepsGreatest_iff f j).1 (hright.pruned x f j hmem)
  · intro hlower
    refine ⟨fun x hx => (hindexed x hx).exact, fun x hx root epoch => (hindexed x hx).getLatest root epoch, ?_⟩
    intro x f j hmem
    exact ((hbefore x _ hmem).keepsGreatest_iff f j).2 (hlower x f j hmem)

/-- **The cache is right in a run exactly where each `prune` finds the epochs that it drops below those that it leaves.** -/
theorem checkpointStates_right_iff (calls : List (Call State)) :
    Right (exec next calls empty).1 (exec next calls empty).2 ↔
      ∀ x finalizedEpoch justifiedEpoch, (x, .prune finalizedEpoch justifiedEpoch) ∈ (exec next calls empty).1 →
        x.DropsLower finalizedEpoch justifiedEpoch :=
  right_iff (exec_run next calls empty)

def twentyFirst : List (Call Unit) :=
  [20, 1, 2, 3, 4, 5, 6, 7, 8, 9, 10].map (fun epoch => .add ⟨epoch, HEX_ZERO_HASH⟩ ()) ++ [.prune 0 0]

/-- Epoch 20 is dropped. -/
theorem prune_drops_greatest : ¬ ∀ calls : List (Call Unit), Right (exec next calls empty).1 (exec next calls empty).2 := by
  intro h
  have hlower := (right_iff (exec_run next twentyFirst empty)).1 (h twentyFirst)
  have hlast := hlower _ 0 0 (List.mem_of_getLast? (show (exec next twentyFirst empty).1.getLast? = some _ from rfl))
  exact absurd (hlast 20 (by decide) 1 (by decide)) (by decide)

end CheckpointStateCache

/-! ## States by their roots -/

def MAX_STATES : Nat := 96

structure StateContextCacheIndexed (State : Type) extends StateContextCache State where
  /-- Max number of states allowed in the cache -/
  maxStates : Nat
  epochIndex : GroupedSets Nat HexRoot

namespace StateContextCacheIndexed

variable {State : Type} {hashTreeRoot : State → HexRoot} {epochOf : State → Nat} {c : StateContextCacheIndexed State}

def empty (maxStates : Nat) : StateContextCacheIndexed State := ⟨⟨.empty⟩, maxStates, .empty⟩

/-- `epochOf` is the epoch of the current shuffling. -/
def add (hashTreeRoot : State → HexRoot) (epochOf : State → Nat) (c : StateContextCacheIndexed State) (item : State) :
    StateContextCacheIndexed State :=
  let key := hashTreeRoot item
  if c.cache.has key then c
  else { c with cache := c.cache.set key item, epochIndex := GroupedSets.insert c.epochIndex (epochOf item) key }

def delete (epochOf : State → Nat) (c : StateContextCacheIndexed State) (key : HexRoot) : StateContextCacheIndexed State :=
  match c.cache.get? key with
  | none => c
  | some item => { c with cache := c.cache.delete key, epochIndex := GroupedSets.erase c.epochIndex (epochOf item) key }

section

variable (epochOf : State → Nat) (c : StateContextCacheIndexed State)

def batchDelete (roots : List HexRoot) : StateContextCacheIndexed State := roots.foldl (delete epochOf) c

def clear (c : StateContextCacheIndexed State) : StateContextCacheIndexed State := { c with cache := .empty }

def keys (c : StateContextCacheIndexed State) : List HexRoot := c.cache.entries.map (·.1)

def prune (headStateRoot : HexRoot) : StateContextCacheIndexed State :=
  if c.keys.length > c.maxStates then
    -- object keys are stored in insertion order, delete keys starting from the front
    (c.keys.take (c.keys.length - c.maxStates)).foldl (fun c key => if key ≠ headStateRoot then c.delete epochOf key else c) c
  else c

def deleteAllEpochItems (c : StateContextCacheIndexed State) (epoch : Nat) : StateContextCacheIndexed State :=
  { c with
    cache := ((c.epochIndex.get? epoch).getD []).foldl OrderedMap.delete c.cache
    epochIndex := c.epochIndex.delete epoch }

def deleteAllBeforeEpoch (c : StateContextCacheIndexed State) (finalizedEpoch : Nat) : StateContextCacheIndexed State :=
  (c.epochIndex.entries.map (·.1)).foldl (fun c epoch => if epoch < finalizedEpoch then c.deleteAllEpochItems epoch else c) c

/-! ## The index -/

/-- The index lists exactly the cached states, each under its epoch. -/
def IndexExact : Prop :=
  ∀ epoch key, Holds c.epochIndex epoch key ↔ ∃ item, c.cache.get? key = some item ∧ epochOf item = epoch

end

theorem indexExact_empty (maxStates : Nat) : (empty maxStates : StateContextCacheIndexed State).IndexExact epochOf := by
  intro epoch key
  refine iff_of_false not_holds_empty ?_
  rintro ⟨_, hitem, -⟩
  cases hitem

theorem IndexExact.add (h : c.IndexExact epochOf) (item : State) : (c.add hashTreeRoot epochOf item).IndexExact epochOf := by
  unfold StateContextCacheIndexed.add
  dsimp only
  split
  · exact h
  · rename_i hnew
    rw [OrderedMap.has, Bool.not_eq_true, Option.isSome_eq_false_iff, Option.isNone_iff_eq_none] at hnew
    intro epoch key
    rw [holds_insert, h, OrderedMap.get?_set]
    by_cases hkey : key = hashTreeRoot item
    · rw [if_pos hkey, hkey, hnew]
      simp [eq_comm]
    · rw [if_neg hkey]
      exact or_iff_left fun hsame => hkey hsame.2

theorem get?_delete (epochOf : State → Nat) (c : StateContextCacheIndexed State) (key key' : HexRoot) :
    (c.delete epochOf key).cache.get? key' = if key' = key then none else c.cache.get? key' := by
  unfold delete
  split
  · rename_i hnone
    split
    · rename_i hkey
      rw [hkey, hnone]
    · rfl
  · exact OrderedMap.get?_delete _ _ _

theorem IndexExact.delete (h : c.IndexExact epochOf) (key : HexRoot) : (c.delete epochOf key).IndexExact epochOf := by
  intro epoch key'
  rw [get?_delete]
  unfold StateContextCacheIndexed.delete
  split
  · rename_i hnone
    rw [h]
    split
    · rename_i hkey
      rw [hkey, hnone]
    · rfl
  · rename_i item hitem
    rw [holds_erase, h]
    by_cases hkey : key' = key
    · rw [if_pos hkey, hkey, hitem]
      simp [eq_comm]
    · simp [hkey]

theorem IndexExact.batchDelete (roots : List HexRoot) {c : StateContextCacheIndexed State} (h : c.IndexExact epochOf) :
    (c.batchDelete epochOf roots).IndexExact epochOf :=
  List.foldlRecOn roots _ h fun _ h root _ => h.delete root

theorem get?_foldl_delete (epochOf : State → Nat) : ∀ (keys : List HexRoot) (c : StateContextCacheIndexed State) (key : HexRoot),
    (keys.foldl (delete epochOf) c).cache.get? key = if key ∈ keys then none else c.cache.get? key
  | [], _, _ => rfl
  | k :: keys, c, key => by
    rw [List.foldl_cons, get?_foldl_delete epochOf keys _ key, get?_delete]
    by_cases hk : key = k <;> by_cases hrest : key ∈ keys <;> simp [hk, hrest]

theorem prune_eq (epochOf : State → Nat) (c : StateContextCacheIndexed State) (headStateRoot : HexRoot) :
    c.prune epochOf headStateRoot = ((c.keys.take (c.keys.length - c.maxStates)).filter fun key => decide (key ≠ headStateRoot)).foldl
      (StateContextCacheIndexed.delete epochOf) c := by
  unfold prune
  rw [List.foldl_filter]
  simp only [decide_eq_true_eq]
  split
  · rfl
  · rw [Nat.sub_eq_zero_of_le (by omega), List.take_zero, List.foldl_nil]

theorem IndexExact.prune (h : c.IndexExact epochOf) (headStateRoot : HexRoot) : (c.prune epochOf headStateRoot).IndexExact epochOf := by
  rw [prune_eq]
  exact h.batchDelete _

section

variable (epochOf : State → Nat) (c : StateContextCacheIndexed State) (headStateRoot : HexRoot)
include headStateRoot

theorem get?_prune_head : (c.prune epochOf headStateRoot).get headStateRoot = c.get headStateRoot := by
  rw [prune_eq]
  refine (get?_foldl_delete epochOf _ _ _).trans (if_neg fun hmem => ?_)
  exact of_decide_eq_true (List.mem_filter.1 hmem).2 rfl

theorem size_prune_le : (c.prune epochOf headStateRoot).cache.size ≤ c.maxStates + 1 := by
  have hsub : (c.prune epochOf headStateRoot).keys ⊆ headStateRoot :: c.keys.drop (c.keys.length - c.maxStates) := by
    intro key hkey
    have hread : (c.prune epochOf headStateRoot).cache.get? key ≠ none := fun hnone => OrderedMap.get?_eq_none_iff.1 hnone hkey
    rw [prune_eq, get?_foldl_delete] at hread
    split at hread
    · exact absurd rfl hread
    · rename_i hstays
      have hbefore : key ∈ c.keys := by
        by_contra hnot
        exact hread (OrderedMap.get?_eq_none_iff.2 hnot)
      by_cases hhead : key = headStateRoot
      · exact List.mem_cons.2 (.inl hhead)
      · refine List.mem_cons_of_mem _ ((mem_take_or_drop _ hbefore).resolve_left fun htake => hstays ?_)
        exact List.mem_filter.2 ⟨htake, decide_eq_true hhead⟩
  have hlength := (List.Nodup.subperm (c.prune epochOf headStateRoot).cache.nodup hsub).length_le
  rw [List.length_map, List.length_cons, List.length_drop] at hlength
  unfold OrderedMap.size
  omega

end

theorem IndexExact.get?_deleteAllEpochItems (h : c.IndexExact epochOf) (epoch : Nat) (key : HexRoot) (item : State) :
    (c.deleteAllEpochItems epoch).cache.get? key = some item ↔ c.cache.get? key = some item ∧ epochOf item ≠ epoch := by
  unfold deleteAllEpochItems
  rw [OrderedMap.get?_foldl_delete]
  constructor
  · intro hread
    split at hread
    · cases hread
    · rename_i hnot
      refine ⟨hread, fun hepoch => hnot ?_⟩
      obtain ⟨set, hset, hkey⟩ := (h epoch key).2 ⟨item, hread, hepoch⟩
      rw [hset]
      exact hkey
  · rintro ⟨hread, hepoch⟩
    rw [if_neg fun hmem => hepoch ?_, hread]
    obtain ⟨item', hitem', hepoch'⟩ := (h epoch key).1 (by
      cases hset : c.epochIndex.get? epoch with
      | none =>
        rw [hset] at hmem
        exact absurd hmem List.not_mem_nil
      | some set =>
        rw [hset] at hmem
        exact ⟨set, hset, hmem⟩)
    rw [hread] at hitem'
    cases hitem'
    exact hepoch'

theorem IndexExact.deleteAllEpochItems (h : c.IndexExact epochOf) (epoch : Nat) : (c.deleteAllEpochItems epoch).IndexExact epochOf := by
  intro epoch' key
  simp only [h.get?_deleteAllEpochItems]
  unfold StateContextCacheIndexed.deleteAllEpochItems
  rw [holds_delete, h]
  constructor
  · rintro ⟨hne, item, hitem, rfl⟩
    exact ⟨item, ⟨hitem, hne⟩, rfl⟩
  · rintro ⟨item, ⟨hitem, hne⟩, rfl⟩
    exact ⟨hne, item, hitem, rfl⟩

theorem IndexExact.foldl_deleteAllEpochItems : ∀ (epochs : List Nat) {c : StateContextCacheIndexed State}, c.IndexExact epochOf →
    (epochs.foldl StateContextCacheIndexed.deleteAllEpochItems c).IndexExact epochOf ∧ ∀ key item,
      (epochs.foldl StateContextCacheIndexed.deleteAllEpochItems c).cache.get? key = some item ↔
        c.cache.get? key = some item ∧ epochOf item ∉ epochs
  | [], _, h => ⟨h, fun _ _ => by simp⟩
  | epoch :: epochs, c, h => by
    obtain ⟨hexact, hget⟩ := foldl_deleteAllEpochItems epochs (h.deleteAllEpochItems epoch)
    refine ⟨hexact, fun key item => ?_⟩
    rw [List.foldl_cons, hget, h.get?_deleteAllEpochItems, List.mem_cons, not_or, and_assoc]

theorem deleteAllBeforeEpoch_eq (c : StateContextCacheIndexed State) (finalizedEpoch : Nat) :
    c.deleteAllBeforeEpoch finalizedEpoch = ((c.epochIndex.entries.map (·.1)).filter fun epoch => decide (epoch < finalizedEpoch)).foldl
      StateContextCacheIndexed.deleteAllEpochItems c := by
  unfold deleteAllBeforeEpoch
  rw [List.foldl_filter]
  simp only [decide_eq_true_eq]

theorem IndexExact.deleteAllBeforeEpoch (h : c.IndexExact epochOf) (finalizedEpoch : Nat) :
    (c.deleteAllBeforeEpoch finalizedEpoch).IndexExact epochOf := by
  rw [deleteAllBeforeEpoch_eq]
  exact (IndexExact.foldl_deleteAllEpochItems _ h).1

theorem IndexExact.le_of_deleteAllBeforeEpoch (h : c.IndexExact epochOf) {finalizedEpoch : Nat} {key : HexRoot} {item : State}
    (hitem : (c.deleteAllBeforeEpoch finalizedEpoch).cache.get? key = some item) : finalizedEpoch ≤ epochOf item := by
  rw [deleteAllBeforeEpoch_eq, (IndexExact.foldl_deleteAllEpochItems _ h).2] at hitem
  obtain ⟨hcached, hnot⟩ := hitem
  by_contra hlt
  obtain ⟨set, hset, -⟩ := (h _ key).2 ⟨item, hcached, rfl⟩
  refine hnot (List.mem_filter.2 ⟨?_, decide_eq_true (by omega)⟩)
  exact OrderedMap.has_iff.1 (Option.isSome_iff_exists.2 ⟨set, hset⟩)

theorem IndexExact.clear_iff (h : c.IndexExact epochOf) : c.clear.IndexExact epochOf ↔ c.cache.entries = [] := by
  constructor
  · intro hclear
    refine List.eq_nil_iff_forall_not_mem.2 fun ⟨key, item⟩ hmem => ?_
    obtain ⟨_, hitem, -⟩ := (hclear _ key).1 ((h _ key).2 ⟨item, OrderedMap.get?_eq_some_iff.2 hmem, rfl⟩)
    cases hitem
  · intro hempty epoch key
    refine (h epoch key).trans (exists_congr fun item => and_congr_left fun _ => ?_)
    rw [OrderedMap.get?_eq_some_iff, OrderedMap.get?_eq_some_iff, hempty]
    rfl

/-! ## Runs -/

inductive Call (State : Type)
  | add (item : State)
  | delete (root : HexRoot)
  | batchDelete (roots : List HexRoot)
  | prune (headStateRoot : HexRoot)
  | deleteAllBeforeEpoch (finalizedEpoch : Nat)
  | clear

def Call.run (hashTreeRoot : State → HexRoot) (epochOf : State → Nat) (c : StateContextCacheIndexed State) :
    Call State → StateContextCacheIndexed State
  | .add item => c.add hashTreeRoot epochOf item
  | .delete root => c.delete epochOf root
  | .batchDelete roots => c.batchDelete epochOf roots
  | .prune headStateRoot => c.prune epochOf headStateRoot
  | .deleteAllBeforeEpoch finalizedEpoch => c.deleteAllBeforeEpoch finalizedEpoch
  | .clear => c.clear

def next (hashTreeRoot : State → HexRoot) (epochOf : State → Nat) (call : Call State) (c : StateContextCacheIndexed State) :
    Option (StateContextCacheIndexed State) := some (call.run hashTreeRoot epochOf c)

def ClearsNothing (c : StateContextCacheIndexed State) (call : Call State) : Prop := call = .clear → c.cache.entries = []

theorem IndexExact.run_iff (h : c.IndexExact epochOf) (call : Call State) :
    (call.run hashTreeRoot epochOf c).IndexExact epochOf ↔ c.ClearsNothing call := by
  cases call with
  | add item => exact iff_of_true (h.add item) (fun hcall => by cases hcall)
  | delete root => exact iff_of_true (h.delete root) (fun hcall => by cases hcall)
  | batchDelete roots => exact iff_of_true (h.batchDelete roots) (fun hcall => by cases hcall)
  | prune headStateRoot => exact iff_of_true (h.prune headStateRoot) (fun hcall => by cases hcall)
  | deleteAllBeforeEpoch finalizedEpoch => exact iff_of_true (h.deleteAllBeforeEpoch finalizedEpoch) (fun hcall => by cases hcall)
  | clear => exact h.clear_iff.trans ⟨fun hempty _ => hempty, fun hempty => hempty rfl⟩

variable {maxStates : Nat} {steps : List (StateContextCacheIndexed State × Call State)}

theorem always_exact_iff (hrun : Run (next hashTreeRoot epochOf) (empty maxStates) steps c) :
    (∀ x ∈ visited steps c, x.IndexExact epochOf) ↔ ∀ step ∈ steps, step.1.ClearsNothing step.2 :=
  hrun.always_iff (I := fun _ => True) trivial (indexExact_empty maxStates) (fun _ _ _ _ _ => trivial)
    fun s call s' hnext _ hs => by
      cases hnext
      exact IndexExact.run_iff hs call

structure Right (epochOf : State → Nat) (steps : List (StateContextCacheIndexed State × Call State))
    (c : StateContextCacheIndexed State) : Prop where
  exact : ∀ x ∈ visited steps c, x.IndexExact epochOf
  pruned : ∀ x headStateRoot, (x, .prune headStateRoot) ∈ steps →
    (x.get headStateRoot).isSome → ((x.prune epochOf headStateRoot).get headStateRoot).isSome
  bounded : ∀ x headStateRoot, (x, .prune headStateRoot) ∈ steps → (x.prune epochOf headStateRoot).cache.size ≤ x.maxStates + 1
  deleted : ∀ x finalizedEpoch, (x, .deleteAllBeforeEpoch finalizedEpoch) ∈ steps → ∀ key item,
    (x.deleteAllBeforeEpoch finalizedEpoch).cache.get? key = some item → finalizedEpoch ≤ epochOf item

theorem right_iff (hrun : Run (next hashTreeRoot epochOf) (empty maxStates) steps c) :
    Right epochOf steps c ↔ ∀ step ∈ steps, step.1.ClearsNothing step.2 := by
  rw [← always_exact_iff hrun]
  constructor
  · exact Right.exact
  · intro hexact
    refine ⟨hexact, fun x head _ hcached => ?_, fun x head _ => size_prune_le epochOf x head, fun x e hmem key item hitem => ?_⟩
    · rw [get?_prune_head]
      exact hcached
    · have hbefore := hexact x (List.mem_append_left _ (List.mem_map.2 ⟨_, hmem, rfl⟩))
      exact hbefore.le_of_deleteAllBeforeEpoch hitem

/-- **The cache is right in a run exactly where each `clear` finds nothing cached.** -/
theorem states_right_iff (hashTreeRoot : State → HexRoot) (epochOf : State → Nat) (maxStates : Nat) (calls : List (Call State)) :
    Right epochOf (exec (next hashTreeRoot epochOf) calls (empty maxStates)).1
        (exec (next hashTreeRoot epochOf) calls (empty maxStates)).2 ↔
      ∀ step ∈ (exec (next hashTreeRoot epochOf) calls (empty maxStates)).1, step.1.ClearsNothing step.2 :=
  right_iff (exec_run _ calls (empty maxStates))

/-- A state that was cleared is still listed. -/
theorem clear_keeps_listed : ¬ ∀ (hashTreeRoot : Unit → HexRoot) (epochOf : Unit → Nat) (maxStates : Nat) (calls : List (Call Unit)),
    Right epochOf (exec (next hashTreeRoot epochOf) calls (empty maxStates)).1
      (exec (next hashTreeRoot epochOf) calls (empty maxStates)).2 := by
  intro h
  have hclears := (right_iff (exec_run (next (fun _ => HEX_ZERO_HASH) fun _ => 0) [.add (), .clear] (empty MAX_STATES))).1
    (h (fun _ => HEX_ZERO_HASH) (fun _ => 0) MAX_STATES [.add (), .clear])
  have hlast := hclears _ (List.mem_of_getLast? (show (exec _ [Call.add (), .clear] (empty MAX_STATES)).1.getLast? = some _ from rfl))
  exact absurd (hlast rfl) (List.cons_ne_nil _ _)

end StateContextCacheIndexed

end Lodestar
