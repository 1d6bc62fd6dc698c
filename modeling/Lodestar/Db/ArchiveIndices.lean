import Lodestar.Db.ArchiveWrites
/-!
# ArchiveIndices — that the block archive finds its blocks by their roots

The two indices point to exactly the stored blocks when a call resolves, and a call resolves only if all it writes has succeeded,
where nothing of it is in flight when it resolves and nothing fails that it does not await.  `put` and `remove` see to that; the
calls on a batch leave it to chance.
-/
namespace Lodestar.Db.BeaconDb.BlockArchiveRepository

open Lib Lib.SortedMap Flights Runs
open scoped Lib.BigEndian

section

variable (values : Values) (chain : List (values.Value .blockArchive))

/-- The archive holds the stored blocks of the chain, the indices map exactly their roots and those of their parents to their slots,
and by them the stored blocks are found and no others. -/
structure Indexed (stored : Nat → Bool) (db : Store) : Prop where
  rows : ∀ slot ≤ MAX_SAFE_INTEGER, ∀ value, (blockArchive values).getBinary db (.number slot) = some value ↔
    ∃ block ∈ chain, stored (values.archivedMessage block).slot = true ∧ (values.archivedMessage block).slot = slot ∧
      (blockArchive values).encodeValue block = value
  roots : ∀ root slot, getSlotByRoot db root = some slot ↔
    ∃ block ∈ chain, stored (values.archivedMessage block).slot = true ∧ (values.archivedMessage block).blockRoot = root ∧
      (values.archivedMessage block).slot = slot
  parentRoots : ∀ root slot, getSlotByParentRoot db root = some slot ↔
    ∃ block ∈ chain, stored (values.archivedMessage block).slot = true ∧ (values.archivedMessage block).parentRoot = root ∧
      (values.archivedMessage block).slot = slot
  byRoot : ∀ block ∈ chain, getByRoot values db (values.archivedMessage block).blockRoot =
    .ok (if stored (values.archivedMessage block).slot then some block else none)
  byParentRoot : ∀ block ∈ chain, getByParentRoot values db (values.archivedMessage block).parentRoot =
    .ok (if stored (values.archivedMessage block).slot then some block else none)

end

variable {values : Values} {chain : List (values.Value .blockArchive)}

variable {stored : Nat → Bool} {db : Store}

theorem Exact.get?_eq_some_iff (h : Exact values chain stored db) {key value : Buffer} (hkey : InArchive key) :
    db.get? key = some value ↔
      ∃ block ∈ chain, stored (values.archivedMessage block).slot = true ∧ (key, value) ∈ rowsOf values block := by
  constructor
  · intro hread
    by_contra hnone
    have habsent : ∀ block ∈ chain, ∀ row ∈ rowsOf values block, row.1 ≠ key := by
      rintro block hblock row hrow rfl
      rw [h.rows block hblock row hrow] at hread
      split at hread
      · rename_i hstored
        cases hread
        exact hnone ⟨block, hblock, hstored, hrow⟩
      · cases hread
    rw [h.others key hkey habsent] at hread
    cases hread
  · rintro ⟨block, hblock, hstored, hrow⟩
    rw [h.rows block hblock _ hrow, if_pos hstored]

variable {block : values.Value .blockArchive} {slot : Nat} {value : Buffer}

theorem mem_rowsOf_number (h : Chain values chain) (hblock : block ∈ chain) (hslot : slot ≤ MAX_SAFE_INTEGER) :
    ((blockArchive values).encodeKey (.number slot), value) ∈ rowsOf values block ↔
      (values.archivedMessage block).slot = slot ∧ (blockArchive values).encodeValue block = value := by
  unfold rowsOf
  simp only [List.mem_cons, List.not_mem_nil, or_false, Prod.mk.injEq]
  constructor
  · rintro (⟨hkey, rfl⟩ | ⟨hkey, -⟩ | ⟨hkey, -⟩)
    · exact ⟨(encodeKey_number_inj (lt_of_safe hslot) (lt_of_safe (h.safe block hblock)) hkey).symm, rfl⟩
    · exact absurd hkey (encodeKey_ne (show Bucket.allForks_blockArchive.value ≠ _ by decide) _ _)
    · exact absurd hkey (encodeKey_ne (show Bucket.allForks_blockArchive.value ≠ _ by decide) _ _)
  · rintro ⟨rfl, rfl⟩
    exact .inl ⟨rfl, rfl⟩

variable {root : Root}

theorem mem_rowsOf_root :
    (indexKey .index_blockArchiveRootIndex root, value) ∈ rowsOf values block ↔
      (values.archivedMessage block).blockRoot = root ∧ BigEndian.encode 8 (values.archivedMessage block).slot = value := by
  unfold rowsOf
  simp only [List.mem_cons, List.not_mem_nil, or_false, Prod.mk.injEq]
  constructor
  · rintro (⟨hkey, -⟩ | ⟨hkey, rfl⟩ | ⟨hkey, -⟩)
    · exact absurd hkey (encodeKey_ne (show _ ≠ Bucket.allForks_blockArchive.value by decide) _ _)
    · exact ⟨(indexKey_inj hkey).symm, rfl⟩
    · exact absurd hkey (encodeKey_ne (by decide) _ _)
  · rintro ⟨rfl, rfl⟩
    exact .inr (.inl ⟨rfl, rfl⟩)

theorem mem_rowsOf_parentRoot :
    (indexKey .index_blockArchiveParentRootIndex root, value) ∈ rowsOf values block ↔
      (values.archivedMessage block).parentRoot = root ∧ BigEndian.encode 8 (values.archivedMessage block).slot = value := by
  unfold rowsOf
  simp only [List.mem_cons, List.not_mem_nil, or_false, Prod.mk.injEq]
  constructor
  · rintro (⟨hkey, -⟩ | ⟨hkey, -⟩ | ⟨hkey, rfl⟩)
    · exact absurd hkey (encodeKey_ne (show _ ≠ Bucket.allForks_blockArchive.value by decide) _ _)
    · exact absurd hkey (encodeKey_ne (by decide) _ _)
    · exact ⟨(indexKey_inj hkey).symm, rfl⟩
  · rintro ⟨rfl, rfl⟩
    exact .inr (.inr ⟨rfl, rfl⟩)

theorem toNumber_encode (h : slot ≤ MAX_SAFE_INTEGER) : toNumber (BigEndian.decode (BigEndian.encode 8 slot)) = slot := by
  have hdecode : BigEndian.decode (BigEndian.encode 8 slot) = slot := BigEndian.decode_encode (lt_of_safe h)
  rw [hdecode, toNumber_eq h]

variable {rootOf : values.Value .blockArchive → Root}

theorem getSlotByIndex_eq_some_iff (h : Chain values chain) {bucket : Bucket}
    (hread : ∀ value, db.get? (indexKey bucket root) = some value ↔ ∃ block ∈ chain,
      stored (values.archivedMessage block).slot = true ∧ rootOf block = root ∧
        BigEndian.encode 8 (values.archivedMessage block).slot = value) :
    getSlotByIndex bucket db root = some slot ↔
      ∃ block ∈ chain, stored (values.archivedMessage block).slot = true ∧ rootOf block = root ∧
        (values.archivedMessage block).slot = slot := by
  unfold getSlotByIndex LevelDbController.get
  rw [Option.map_eq_some_iff]
  constructor
  · rintro ⟨value, hvalue, rfl⟩
    obtain ⟨block, hblock, hstored, hroot, rfl⟩ := (hread value).1 hvalue
    exact ⟨block, hblock, hstored, hroot, (toNumber_encode (h.safe block hblock)).symm⟩
  · rintro ⟨block, hblock, hstored, hroot, rfl⟩
    exact ⟨_, (hread _).2 ⟨block, hblock, hstored, hroot, rfl⟩, toNumber_encode (h.safe block hblock)⟩

theorem get_of_index (h : Chain values chain)
    (hrows : ∀ slot ≤ MAX_SAFE_INTEGER, ∀ value, (blockArchive values).getBinary db (.number slot) = some value ↔
      ∃ block ∈ chain, stored (values.archivedMessage block).slot = true ∧ (values.archivedMessage block).slot = slot ∧
        (blockArchive values).encodeValue block = value)
    (hroots : (chain.map rootOf).Nodup) {found : Option Nat} (hblock : block ∈ chain)
    (hfound : ∀ slot, found = some slot ↔ ∃ block' ∈ chain, stored (values.archivedMessage block').slot = true ∧
      rootOf block' = rootOf block ∧ (values.archivedMessage block').slot = slot) :
    (match found with
      | none => .ok none
      | some slot => (blockArchive values).get db (.number slot)) =
    Except.ok (if stored (values.archivedMessage block).slot then some block else none) := by
  by_cases hstored : stored (values.archivedMessage block).slot = true
  · rw [(hfound _).2 ⟨block, hblock, hstored, rfl, rfl⟩, if_pos hstored]
    dsimp only
    unfold Repository.get
    rw [(hrows _ (h.safe block hblock) _).2 ⟨block, hblock, hstored, rfl, rfl⟩]
    dsimp only
    rw [h.decodes block hblock]
    rfl
  · rw [if_neg hstored]
    cases found with
    | none => rfl
    | some slot =>
      obtain ⟨block', hblock', hstored', hroot, -⟩ := (hfound slot).1 rfl
      obtain rfl := List.inj_on_of_nodup_map hroots hblock' hblock hroot
      exact absurd hstored' hstored

theorem Exact.indexed (h : Chain values chain) (hexact : Exact values chain stored db) :
    Indexed values chain stored db := by
  have hrows : ∀ slot ≤ MAX_SAFE_INTEGER, ∀ value, (blockArchive values).getBinary db (.number slot) = some value ↔
      ∃ block ∈ chain, stored (values.archivedMessage block).slot = true ∧ (values.archivedMessage block).slot = slot ∧
        (blockArchive values).encodeValue block = value := by
    intro slot hslot value
    refine (hexact.get?_eq_some_iff (.inl (inBucket_encodeKey _ _))).trans ?_
    exact exists_congr fun block => and_congr_right fun hblock => and_congr_right fun _ => mem_rowsOf_number h hblock hslot
  have hroots : ∀ root slot, getSlotByRoot db root = some slot ↔
      ∃ block ∈ chain, stored (values.archivedMessage block).slot = true ∧ (values.archivedMessage block).blockRoot = root ∧
        (values.archivedMessage block).slot = slot := fun root slot =>
    getSlotByIndex_eq_some_iff h fun value => (hexact.get?_eq_some_iff (.inr (.inl (inBucket_encodeKey _ _)))).trans
      (exists_congr fun block => and_congr_right fun _ => and_congr_right fun _ => mem_rowsOf_root)
  have hparents : ∀ root slot, getSlotByParentRoot db root = some slot ↔
      ∃ block ∈ chain, stored (values.archivedMessage block).slot = true ∧ (values.archivedMessage block).parentRoot = root ∧
        (values.archivedMessage block).slot = slot := fun root slot =>
    getSlotByIndex_eq_some_iff h fun value => (hexact.get?_eq_some_iff (.inr (.inr (inBucket_encodeKey _ _)))).trans
      (exists_congr fun block => and_congr_right fun _ => and_congr_right fun _ => mem_rowsOf_parentRoot)
  exact ⟨hrows, hroots, hparents, fun block hblock => get_of_index h hrows h.roots hblock (hroots _),
    fun block hblock => get_of_index h hrows h.parents hblock (hparents _)⟩

/-! ## Runs -/

def OnChain (chain : List (values.Value .blockArchive)) : Label (Call values) → Prop
  | .start call => OfChain values chain call
  | _ => True

def EachAwaited (s : System (Call values) Buffer Buffer) : Label (Call values) → Prop
  | .start _ => ∀ call ∈ s.calls, call.2 ≠ .pending
  | _ => True

instance (s : System (Call values) Buffer Buffer) : (label : Label (Call values)) → Decidable (EachAwaited s label)
  | .start _ => inferInstanceAs (Decidable (∀ call ∈ s.calls, call.2 ≠ .pending))
  | .settle .. | .resolve _ => inferInstanceAs (Decidable True)

/-- A call of which a write failed is rejected, and when all calls have resolved the archive is found by its indices. -/
def Kept (chain : List (values.Value .blockArchive)) (stored : Nat → Bool) (s : System (Call values) Buffer Buffer) : Prop :=
  (∀ flight, (flight, false) ∈ s.settled → ∃ call, s.calls[flight.call]? = some (call, .rejected)) ∧
    ((∀ call ∈ s.calls, call.2 = .resolved) → Indexed values chain (storedAfter stored (s.calls.map (·.1))) s.store)

variable {steps : List (System (Call values) Buffer Buffer × Label (Call values))} {s : System (Call values) Buffer Buffer}

theorem ofChain_of_run (hrun : Run (next (rules values)) (.first db) steps s) (hchain : ∀ step ∈ steps, OnChain chain step.2) :
    ∀ s' ∈ visited steps s, ∀ call ∈ s'.calls.map (·.1), OfChain values chain call := by
  refine hrun.always (C := fun _ label => OnChain chain label) (fun call hmem => absurd hmem List.not_mem_nil)
    (fun s label s' hnext hlabel ih => ?_) hchain
  cases step_of_next hnext with
  | start i =>
    intro call hmem
    rw [List.map_append, List.mem_append] at hmem
    rcases hmem with hmem | hmem
    · exact ih call hmem
    · rw [List.mem_singleton.1 hmem]
      exact hlabel
  | settle n flight succeeds hflight =>
    rw [map_fst_reject]
    exact ih
  | resolve n i hcall hdone =>
    rw [map_fst_set hcall]
    exact ih

theorem kept_of_orderly (hchain : Chain values chain) (hexact : Exact values chain stored db)
    (hrun : Run (next (rules values)) (.first db) steps s) (hof : ∀ step ∈ steps, OnChain chain step.2)
    (horderly : ∀ step ∈ steps, Orderly step.1 step.2) {s' : System (Call values) Buffer Buffer} (hvisited : s' ∈ visited steps s) :
    Kept chain stored s' := by
  have hagrees : ∀ step ∈ steps, ∀ call, step.2 = .start call → Agrees (rules values) call := by
    rintro ⟨before, label⟩ hstep call rfl
    exact agrees hchain (hof _ hstep)
  have hknown := orderly hrun horderly hagrees s' hvisited
  refine ⟨hknown.failed, fun hresolved => ?_⟩
  cases hknown.stage with
  | rejected hrejected =>
    obtain ⟨call, hmem, hstatus⟩ := hrejected
    cases hstatus.symm.trans (hresolved call hmem)
  | resolved _ _ hstore =>
    rw [hstore]
    exact (hexact.sequential hchain (ofChain_of_run hrun hof s' hvisited)).indexed hchain
  | pending before i hlast =>
    have hmem : (i, Status.pending) ∈ s'.calls := by
      rw [hlast.calls]
      exact List.mem_append_right _ List.mem_cons_self
    cases hresolved _ hmem

/-- **The archive is found by its indices at every moment a call resolves, and a call of which a write fails is rejected**, along
every run in which calls start after all before them have resolved, resolve with nothing in flight, and no write fails that its call
does not await. -/
theorem run_kept (hchain : Chain values chain) {stored : Nat → Bool} {db : Store} (hexact : Exact values chain stored db)
    {steps : List (System (Call values) Buffer Buffer × Label (Call values))} {s : System (Call values) Buffer Buffer}
    (hrun : Run (next (rules values)) (.first db) steps s)
    (hcalls : ∀ step ∈ steps, OnChain chain step.2 ∧ EachAwaited step.1 step.2)
    (horderly : ∀ step ∈ steps, Orderly step.1 step.2) : ∀ s' ∈ visited steps s, Kept chain stored s' :=
  fun _ hvisited => kept_of_orderly hchain hexact hrun (fun step hstep => (hcalls step hstep).1) horderly hvisited

/-! ## A chain of two blocks -/

/-- Blocks that are as many bytes as their slots say, with roots of such bytes. -/
def lengthValues : Values :=
  { plainValues with
    archivedMessage := fun block : Buffer =>
      ⟨block.length, Vector.replicate 32 (UInt8.ofNat block.length), Vector.replicate 32 (UInt8.ofNat (block.length - 1))⟩ }

def twoBlocks : List (lengthValues.Value .blockArchive) := [([7] : Buffer), ([7, 8] : Buffer)]

theorem twoBlocks_chain : Chain lengthValues twoBlocks where
  slots := by decide +kernel
  roots := by decide +kernel
  linked := by decide +kernel
  first := by decide +kernel
  safe := by decide +kernel
  decodes _ _ := rfl

theorem exact_empty (chain : List (values.Value .blockArchive)) : Exact values chain (fun _ => false) SortedMap.empty where
  rows _ _ _ _ := rfl
  others _ _ _ := rfl

/-- The second block is put by itself, and the deletion of the first fails. -/
def threeCalls : List (Label (Call lengthValues)) :=
  [.start (.batchPut [(.number 1, ([7] : Buffer))]), .settle 2 true, .settle 1 true, .settle 0 true, .resolve 0,
    .start (.put (.number 2) ([7, 8] : Buffer)), .settle 1 true, .settle 1 true, .settle 0 true, .resolve 1,
    .start (.batchRemove [([7] : Buffer)]), .settle 2 true, .settle 0 false]

theorem run_kept_threeCalls :
    let run := exec (next (rules lengthValues)) threeCalls (.first SortedMap.empty)
    run.2.calls.map (·.2) = [.resolved, .resolved, .rejected] ∧ ∀ s ∈ visited run.1 run.2, Kept twoBlocks (fun _ => false) s := by
  intro run
  have hof : ∀ call, .start call ∈ threeCalls → OfChain lengthValues twoBlocks call := by
    intro call hmem
    have hfirst : [([7] : Buffer)] ⊆ twoBlocks := List.cons_subset.2 ⟨List.mem_cons_self, List.nil_subset _⟩
    simp only [threeCalls, List.mem_cons, Label.start.injEq, reduceCtorEq, false_or, List.not_mem_nil, or_false] at hmem
    rcases hmem with rfl | rfl | rfl
    · exact @OfChain.batchPut lengthValues twoBlocks _ hfirst
    · exact .put _ (List.mem_cons_of_mem _ List.mem_cons_self)
    · exact @OfChain.batchRemove lengthValues twoBlocks _ hfirst
  have hawaited : ∀ step ∈ run.1, EachAwaited step.1 step.2 := by decide +kernel
  refine ⟨by decide +kernel, run_kept twoBlocks_chain (exact_empty twoBlocks) (exec_run _ _ _) (fun step hstep => ⟨?_, hawaited step hstep⟩)
    (by decide +kernel)⟩
  have hlabel := exec_labels hstep
  rcases step with ⟨before, _ | _ | _⟩
  · exact hof _ hlabel
  · trivial
  · trivial

def putsBoth : List (Label (Call lengthValues)) :=
  [.start (.batchPut (twoBlocks.map fun block => (.number (lengthValues.archivedMessage block).slot, block))), .settle 0 true, .resolve 0]

theorem run_not_kept : ¬ ∀ steps s, Run (next (rules lengthValues)) (.first SortedMap.empty) steps s →
    (∀ step ∈ steps, OnChain twoBlocks step.2 ∧ EachAwaited step.1 step.2) →
    ∀ s' ∈ visited steps s, Kept twoBlocks (fun _ => false) s' := by
  intro h
  have hrun := exec_run (next (rules lengthValues)) putsBoth (.first SortedMap.empty)
  have hcalls : ∀ step ∈ (exec (next (rules lengthValues)) putsBoth (.first SortedMap.empty)).1,
      OnChain twoBlocks step.2 ∧ EachAwaited step.1 step.2 := by
    refine List.forall_mem_cons.2 ⟨⟨.batchPut twoBlocks (List.Subset.refl _), fun call hmem => absurd hmem List.not_mem_nil⟩, ?_⟩
    exact List.forall_mem_cons.2 ⟨⟨trivial, trivial⟩, List.forall_mem_singleton.2 ⟨trivial, trivial⟩⟩
  have hkept := h _ _ hrun hcalls _ (List.mem_append_right _ (List.mem_singleton.2 rfl))
  have hindexed := hkept.2 (List.forall_mem_singleton.2 rfl)
  have hslot := (hindexed.roots (Vector.replicate 32 1) 1).2 ⟨([7] : Buffer), List.mem_cons_self, by decide +kernel, by decide +kernel, rfl⟩
  exact absurd hslot (by decide +kernel)

end Lodestar.Db.BeaconDb.BlockArchiveRepository
