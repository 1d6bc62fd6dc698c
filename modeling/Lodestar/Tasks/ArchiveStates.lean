import Lodestar.Db.NumberKeys
import Lodestar.Db.BeaconDb
/-!
# ArchiveStates — the finalized states that are kept on disk

`maybeArchiveState` stores the state of a finalized checkpoint under its slot and then deletes states in a range of keys
whose bounds are epochs, in intervals of keys, not of epochs.  `Superseded` says which states a run has deleted so.
-/
namespace Lodestar.Tasks

open Lib Lib.SortedMap Db Db.BeaconDb
open scoped Lib.BigEndian

def PERSIST_STATE_EVERY_EPOCHS : Nat := 1024

/-- Minimum number of epochs between single temp archived states. -/
def PERSIST_TEMP_STATE_EVERY_EPOCHS : Nat := 32

variable (P : Preset) (values : Values)

structure CheckpointStateCache where
  get : Checkpoint → Option (values.Value .stateArchive)
  slot_eq : ∀ checkpoint state, get checkpoint = some state →
    values.stateSlot state = computeStartSlotAtEpoch P checkpoint.epoch

def bucketEpoch (persistEveryEpochs : Nat) (sets : List Nat × List Nat) (epoch : Nat) : List Nat × List Nat :=
  let (epochBuckets, toDelete) := sets
  let epochBucket := epoch - epoch % persistEveryEpochs
  if epochBucket ∈ epochBuckets then
    (epochBuckets, if epoch ∈ toDelete then toDelete else toDelete ++ [epoch])
  else (epochBuckets ++ [epochBucket], toDelete)

def computeEpochsToDelete (storedEpochs : List Nat) (persistEveryEpochs : Nat) : List Nat :=
  (storedEpochs.foldl (bucketEpoch persistEveryEpochs) ([], [])).2

def slotOfKey : Id → Option Nat
  | .number slot => some slot
  | _ => none

variable {P}

section

variable (cache : CheckpointStateCache P values) (db : Store) (finalized : Checkpoint)

def archiveState : Except DbError Store :=
  match cache.get finalized with
  | none => .error (.error ("No state in cache for finalized checkpoint state epoch #" ++ toString finalized.epoch))
  | some finalizedState =>
    .ok (StateArchiveRepository.put values db (.number (values.stateSlot finalizedState)) finalizedState)

def maybeArchiveState : Except DbError Store := do
  let lastStoredSlot := ((stateArchive values).lastKey db).bind slotOfKey
  let lastStoredEpoch := computeEpochAtSlot P (lastStoredSlot.getD 0)
  if (finalized.epoch : Int) - lastStoredEpoch > PERSIST_TEMP_STATE_EVERY_EPOCHS then
    let db ← archiveState values cache db finalized
    let storedEpochs := (stateArchive values).keys db {
      lt := some (.number finalized.epoch)
      -- Only check the current and previous intervals
      gte := some (.number ((finalized.epoch / PERSIST_STATE_EVERY_EPOCHS - 1) * PERSIST_STATE_EVERY_EPOCHS)) }
    let statesToDelete := computeEpochsToDelete (storedEpochs.filterMap slotOfKey) PERSIST_STATE_EVERY_EPOCHS
    if statesToDelete.length > 0 then return (stateArchive values).batchDelete db (statesToDelete.map .number)
    return db
  return db

end

abbrev Finalized (P : Preset) (values : Values) := CheckpointStateCache P values × Checkpoint

/-- The store after the calls; one that throws has changed nothing. -/
def maybeArchiveStates (db : Store) (calls : List (Finalized P values)) : Store :=
  calls.foldl (fun db call => settled db (maybeArchiveState values call.1 db call.2)) db

/-! ## What a run stores -/

/-- The states the calls store, the newest state before them being of `lastStoredEpoch`. -/
def archivedStates : Nat → List (Finalized P values) → List (values.Value .stateArchive)
  | _, [] => []
  | lastStoredEpoch, (cache, finalized) :: calls =>
    if lastStoredEpoch + PERSIST_TEMP_STATE_EVERY_EPOCHS < finalized.epoch then
      match cache.get finalized with
      | none => archivedStates lastStoredEpoch calls
      | some state => state :: archivedStates finalized.epoch calls
    else archivedStates lastStoredEpoch calls

def Holds (db : Store) (kept : values.Value .stateArchive → Prop) : Prop :=
  ∀ key, InBucket (stateArchive values).bucket.value key → ∀ value,
    db.get? key = some value ↔ ∃ state, kept state ∧ key = (stateArchive values).encodeKey (.number (values.stateSlot state)) ∧
      value = values.serialize .stateArchive state

variable (P)

/-- The first of the archived states in its interval of epochs. -/
def EarliestOfInterval (archived : List (values.Value .stateArchive)) (state : values.Value .stateArchive) : Prop :=
  ∀ other ∈ archived,
    computeEpochAtSlot P (values.stateSlot other) / PERSIST_STATE_EVERY_EPOCHS =
      computeEpochAtSlot P (values.stateSlot state) / PERSIST_STATE_EVERY_EPOCHS →
    values.stateSlot state ≤ values.stateSlot other

/-- Another state comes before it in its interval of slots, and the range of a later state's epoch reaches its slot. -/
def Superseded (slots : List Nat) (slot : Nat) : Prop :=
  (∃ earlier ∈ slots, earlier < slot ∧ earlier / PERSIST_STATE_EVERY_EPOCHS = slot / PERSIST_STATE_EVERY_EPOCHS) ∧
    ∃ later ∈ slots, slot < computeEpochAtSlot P later ∧
      (computeEpochAtSlot P later / PERSIST_STATE_EVERY_EPOCHS - 1) * PERSIST_STATE_EVERY_EPOCHS ≤ slot

/-! ## The states to delete -/

theorem sub_mod_eq_iff {n a b : Nat} (hn : 0 < n) : a - a % n = b - b % n ↔ a / n = b / n := by
  have ha : a - a % n = n * (a / n) := by
    have := Nat.div_add_mod a n
    omega
  have hb : b - b % n = n * (b / n) := by
    have := Nat.div_add_mod b n
    omega
  rw [ha, hb, Nat.mul_right_inj (Nat.pos_iff_ne_zero.1 hn)]

variable {n : Nat}

theorem mem_bucketEpoch (buckets toDelete : List Nat) (e a : Nat) :
    a ∈ (bucketEpoch n (buckets, toDelete) e).2 ↔ a ∈ toDelete ∨ a = e ∧ e - e % n ∈ buckets := by
  unfold bucketEpoch
  dsimp only
  by_cases hmem : e - e % n ∈ buckets
  · rw [if_pos hmem]
    by_cases he : e ∈ toDelete
    · rw [if_pos he]
      constructor
      · exact .inl
      · rintro (h | ⟨rfl, -⟩)
        · exact h
        · exact he
    · rw [if_neg he, List.mem_append, List.mem_singleton]
      simp [hmem]
  · rw [if_neg hmem]
    simp [hmem]

theorem mem_bucketEpoch_fst (buckets toDelete : List Nat) (e bucket : Nat) :
    bucket ∈ (bucketEpoch n (buckets, toDelete) e).1 ↔ bucket ∈ buckets ∨ bucket = e - e % n := by
  unfold bucketEpoch
  dsimp only
  by_cases hmem : e - e % n ∈ buckets
  · rw [if_pos hmem]
    constructor
    · exact .inl
    · rintro (h | rfl)
      · exact h
      · exact hmem
  · rw [if_neg hmem, List.mem_append, List.mem_singleton]

theorem mem_foldl_bucketEpoch (hn : 0 < n) : ∀ (l seen : List Nat) (sets : List Nat × List Nat),
    (∀ bucket, bucket ∈ sets.1 ↔ ∃ a ∈ seen, a - a % n = bucket) → (seen ++ l).Pairwise (· < ·) →
    ∀ a, a ∈ (l.foldl (bucketEpoch n) sets).2 ↔ a ∈ sets.2 ∨ a ∈ l ∧ ∃ b ∈ seen ++ l, b < a ∧ b / n = a / n
  | [], seen, sets, _, _, a => by simp
  | e :: l, seen, (buckets, toDelete), hbuckets, hsorted, a => by
    have hassoc : seen ++ e :: l = (seen ++ [e]) ++ l := by simp
    have hbelow : ∀ b ∈ seen, b < e := by
      intro b hb
      exact (List.pairwise_append.1 hsorted).2.2 b hb e List.mem_cons_self
    have habove : ∀ b ∈ l, e < b := by
      intro b hb
      exact (List.pairwise_cons.1 (List.pairwise_append.1 hsorted).2.1).1 b hb
    -- the buckets seen are those of the numbers before `e`
    have hseen : e - e % n ∈ buckets ↔ ∃ b ∈ seen ++ e :: l, b < e ∧ b / n = e / n := by
      rw [hbuckets]
      constructor
      · rintro ⟨b, hb, heq⟩
        exact ⟨b, List.mem_append_left _ hb, hbelow b hb, (sub_mod_eq_iff hn).1 heq⟩
      · rintro ⟨b, hb, hlt, heq⟩
        rcases List.mem_append.1 hb with hb | hb
        · exact ⟨b, hb, (sub_mod_eq_iff hn).2 heq⟩
        · rcases List.mem_cons.1 hb with rfl | hb
          · exact absurd hlt (lt_irrefl _)
          · exact absurd hlt (Nat.lt_asymm (habove b hb))
    have hbuckets' : ∀ bucket, bucket ∈ (bucketEpoch n (buckets, toDelete) e).1 ↔ ∃ a ∈ seen ++ [e], a - a % n = bucket := by
      intro bucket
      rw [mem_bucketEpoch_fst, hbuckets]
      simp only [List.mem_append, List.mem_singleton, or_and_right, exists_or, exists_eq_left]
      rw [eq_comm (a := bucket)]
    rw [hassoc] at hsorted hseen
    have ih := mem_foldl_bucketEpoch hn l (seen ++ [e]) (bucketEpoch n (buckets, toDelete) e) hbuckets' hsorted a
    rw [List.foldl_cons, ih, mem_bucketEpoch, hassoc, List.mem_cons]
    constructor
    · rintro ((h | ⟨rfl, h⟩) | ⟨h, hb⟩)
      · exact .inl h
      · exact .inr ⟨.inl rfl, hseen.1 h⟩
      · exact .inr ⟨.inr h, hb⟩
    · rintro (h | ⟨rfl | h, hb⟩)
      · exact .inl (.inl h)
      · exact .inl (.inr ⟨rfl, hseen.2 hb⟩)
      · exact .inr ⟨h, hb⟩

theorem mem_computeEpochsToDelete (hn : 0 < n) {l : List Nat} (hsorted : l.Pairwise (· < ·)) (a : Nat) :
    a ∈ computeEpochsToDelete l n ↔ a ∈ l ∧ ∃ b ∈ l, b < a ∧ b / n = a / n := by
  have h := mem_foldl_bucketEpoch hn l [] ([], []) (by simp) hsorted a
  unfold computeEpochsToDelete
  rw [h, List.nil_append]
  simp

/-! ## Superseded states -/

section Superseded

variable {P} {slots : List Nat} {slot next : Nat}

theorem computeEpochAtSlot_le (P : Preset) (slot : Nat) : computeEpochAtSlot P slot ≤ slot := Nat.div_le_self _ _

theorem not_superseded_of_last (h : ∀ other ∈ slots, other ≤ slot) : ¬ Superseded P slots slot := by
  rintro ⟨-, later, hlater, hlt, -⟩
  have := h later hlater
  have := computeEpochAtSlot_le P later
  omega

theorem superseded_concat (hnext : ∀ other ∈ slots, other < next) (hslot : slot ∈ slots) :
    Superseded P (slots ++ [next]) slot ↔ Superseded P slots slot ∨
      (∃ earlier ∈ slots, earlier < slot ∧ earlier / PERSIST_STATE_EVERY_EPOCHS = slot / PERSIST_STATE_EVERY_EPOCHS) ∧
        slot < computeEpochAtSlot P next ∧
        (computeEpochAtSlot P next / PERSIST_STATE_EVERY_EPOCHS - 1) * PERSIST_STATE_EVERY_EPOCHS ≤ slot := by
  constructor
  · rintro ⟨⟨earlier, hearlier, hlt, hsame⟩, later, hlater, hrange⟩
    have hmem : earlier ∈ slots := by
      rcases List.mem_append.1 hearlier with h | h
      · exact h
      · rw [List.mem_singleton] at h
        have := hnext slot hslot
        omega
    rcases List.mem_append.1 hlater with h | h
    · exact .inl ⟨⟨earlier, hmem, hlt, hsame⟩, later, h, hrange⟩
    · rw [List.mem_singleton] at h
      subst h
      exact .inr ⟨⟨earlier, hmem, hlt, hsame⟩, hrange⟩
  · rintro (⟨⟨earlier, hearlier, hsame⟩, later, hlater, hrange⟩ | ⟨⟨earlier, hearlier, hsame⟩, hrange⟩)
    · exact ⟨⟨earlier, List.mem_append_left _ hearlier, hsame⟩, later, List.mem_append_left _ hlater, hrange⟩
    · exact ⟨⟨earlier, List.mem_append_left _ hearlier, hsame⟩, next, by simp, hrange⟩

theorem exists_first_of_interval (n : Nat) (h : ∃ earlier ∈ slots, earlier < slot ∧ earlier / n = slot / n) :
    ∃ first ∈ slots, first < slot ∧ first / n = slot / n ∧ ∀ other ∈ slots, other < first → other / n ≠ first / n := by
  obtain ⟨hmem, hlt, hsame⟩ := Nat.find_spec h
  refine ⟨Nat.find h, hmem, hlt, hsame, fun other hother hbefore heq => ?_⟩
  exact Nat.find_min h hbefore ⟨hother, hbefore.trans hlt, heq.trans hsame⟩

end Superseded

/-! ## A step -/

section Step

variable {P values}

/-- What a run has left: the archived states in the order of their slots, and on disk those that are not superseded. -/
structure Archive (P : Preset) (values : Values) (db : Store) (archived : List (values.Value .stateArchive)) : Prop where
  increasing : (archived.map values.stateSlot).Pairwise (· < ·)
  safe : ∀ state ∈ archived, values.stateSlot state ≤ MAX_SAFE_INTEGER
  rows : ∃ rows, Rows (stateArchive values) db rows ∧ ∀ slot value,
    rows.get? slot = some value ↔ ∃ state ∈ archived, values.stateSlot state = slot ∧
      values.serialize .stateArchive state = value ∧ ¬ Superseded P (archived.map values.stateSlot) slot

def lastEpoch (P : Preset) (values : Values) (archived : List (values.Value .stateArchive)) : Nat :=
  computeEpochAtSlot P ((archived.getLast?.map values.stateSlot).getD 0)

variable {db : Store} {archived : List (values.Value .stateArchive)} {state : values.Value .stateArchive}

theorem Archive.lt_of_concat (h : Archive P values db (archived ++ [state])) :
    ∀ other ∈ archived, values.stateSlot other < values.stateSlot state := by
  have hpairwise := h.increasing
  rw [List.map_append, List.pairwise_append] at hpairwise
  intro other hother
  exact hpairwise.2.2 _ (List.mem_map_of_mem hother) _ (by simp)

theorem Archive.lastKey_eq (h : Archive P values db archived) :
    ((stateArchive values).lastKey db).bind slotOfKey = archived.getLast?.map values.stateSlot := by
  obtain ⟨rows, hrows, hget⟩ := h.rows
  rw [hrows.lastKey_eq rfl]
  rcases List.eq_nil_or_concat archived with hnil | ⟨init, state, hconcat⟩
  · -- nothing was archived, so nothing is stored
    have hentries : rows.entries = [] := by
      rw [List.eq_nil_iff_forall_not_mem]
      rintro ⟨slot, value⟩ hmem
      obtain ⟨state, hstate, -⟩ := (hget slot value).1 (get?_eq_some_iff.2 hmem)
      rw [hnil] at hstate
      exact List.not_mem_nil hstate
    rw [hentries, hnil]
    rfl
  · rw [List.concat_eq_append] at hconcat
    subst hconcat
    have hbelow := h.lt_of_concat
    have hmax : ∀ other ∈ init ++ [state], values.stateSlot other ≤ values.stateSlot state := by
      intro other hother
      rcases List.mem_append.1 hother with hother | hother
      · exact Nat.le_of_lt (hbelow other hother)
      · rw [List.mem_singleton.1 hother]
    have hkept : ¬ Superseded P ((init ++ [state]).map values.stateSlot) (values.stateSlot state) := by
      refine not_superseded_of_last fun slot hslot => ?_
      obtain ⟨other, hother, rfl⟩ := List.mem_map.1 hslot
      exact hmax other hother
    have hrow : (values.stateSlot state, values.serialize .stateArchive state) ∈ rows.entries :=
      get?_eq_some_iff.1 ((hget _ _).2 ⟨state, by simp, rfl, rfl, hkept⟩)
    have hlast := getLast?_eq_some hrow fun e he => by
      obtain ⟨other, hother, hslot, -⟩ := (hget e.1 e.2).1 (get?_eq_some_iff.2 he)
      rw [← hslot]
      exact hmax other hother
    rw [hlast, List.getLast?_concat]
    rfl

/-- A call stores a state when the last one is more than `PERSIST_TEMP_STATE_EVERY_EPOCHS` epochs back. -/
def Due (P : Preset) (values : Values) (archived : List (values.Value .stateArchive)) (finalized : Checkpoint) : Prop :=
  lastEpoch P values archived + PERSIST_TEMP_STATE_EVERY_EPOCHS < finalized.epoch

theorem Archive.due_iff (h : Archive P values db archived) (finalized : Checkpoint) :
    (finalized.epoch : Int) - computeEpochAtSlot P ((((stateArchive values).lastKey db).bind slotOfKey).getD 0) >
      PERSIST_TEMP_STATE_EVERY_EPOCHS ↔ Due P values archived finalized := by
  rw [h.lastKey_eq]
  unfold Due lastEpoch
  omega

variable {finalized : Checkpoint}

theorem maybeArchiveState_idle (h : Archive P values db archived) (cache : CheckpointStateCache P values)
    (hdue : ¬ Due P values archived finalized) :
    maybeArchiveState values cache db finalized = .ok db := by
  unfold maybeArchiveState
  rw [if_neg (fun hlt => hdue ((h.due_iff finalized).1 hlt))]
  rfl

variable {cache : CheckpointStateCache P values}

theorem maybeArchiveState_miss (h : Archive P values db archived) (hdue : Due P values archived finalized)
    (hmiss : cache.get finalized = none) : settled db (maybeArchiveState values cache db finalized) = db := by
  unfold maybeArchiveState archiveState
  rw [if_pos ((h.due_iff finalized).2 hdue), hmiss]
  rfl

variable {rows : SortedMap Nat Buffer}

theorem Rows.put_stateArchive (h : Rows (stateArchive values) db rows) {slot : Nat} (hslot : slot ≤ MAX_SAFE_INTEGER)
    (state : values.Value .stateArchive) :
    Rows (stateArchive values) (StateArchiveRepository.put values db (.number slot) state)
      (rows.insert slot (values.serialize .stateArchive state)) := by
  have hput := h.putBinary hslot (values.serialize .stateArchive state)
  have hindex : WritesOnly (InBucket Bucket.index_stateArchiveRootIndex.value)
      (fun db => storeIndex .index_stateArchiveRootIndex db slot (values.hashTreeRoot .stateArchive state)) :=
    writesOnly_insert (inBucket_encodeKey _ _) _
  refine hput.frame hindex fun key hkey hother => ?_
  have hvalue : Bucket.allForks_stateArchive.value = Bucket.index_stateArchiveRootIndex.value := InBucket.value_eq hkey hother
  cases hvalue

/-- The bounds of the query, epochs though the keys are slots. -/
def storedRange (epoch : Nat) : FilterOptions Nat where
  gte := some ((epoch / PERSIST_STATE_EVERY_EPOCHS - 1) * PERSIST_STATE_EVERY_EPOCHS)
  lt := some epoch

variable {epoch : Nat}

theorem fits_storedRange (h : epoch ≤ MAX_SAFE_INTEGER) : Fits (storedRange epoch) := by
  have hlow : (epoch / PERSIST_STATE_EVERY_EPOCHS - 1) * PERSIST_STATE_EVERY_EPOCHS ≤ epoch :=
    (Nat.mul_le_mul_right _ (Nat.sub_le _ _)).trans (Nat.div_mul_le_self _ _)
  unfold storedRange
  constructor
  · simp
  · simpa using lt_of_safe (hlow.trans h)
  · simpa using lt_of_safe h
  · simp

def statesToDelete (rows : SortedMap Nat Buffer) (epoch : Nat) : List Nat :=
  computeEpochsToDelete ((Rows.entries rows (storedRange epoch)).map (·.1)) PERSIST_STATE_EVERY_EPOCHS

theorem mem_statesToDelete (slot : Nat) :
    slot ∈ statesToDelete rows epoch ↔ (∃ value, rows.get? slot = some value) ∧
      (epoch / PERSIST_STATE_EVERY_EPOCHS - 1) * PERSIST_STATE_EVERY_EPOCHS ≤ slot ∧ slot < epoch ∧
        ∃ earlier, (∃ value, rows.get? earlier = some value) ∧
          (epoch / PERSIST_STATE_EVERY_EPOCHS - 1) * PERSIST_STATE_EVERY_EPOCHS ≤ earlier ∧ earlier < slot ∧
          earlier / PERSIST_STATE_EVERY_EPOCHS = slot / PERSIST_STATE_EVERY_EPOCHS := by
  have hentries : Rows.entries rows (storedRange epoch) = rows.entries.filter (fun e =>
      decide ((epoch / PERSIST_STATE_EVERY_EPOCHS - 1) * PERSIST_STATE_EVERY_EPOCHS ≤ e.1) && decide (e.1 < epoch)) := rfl
  have hmem : ∀ slot, slot ∈ (Rows.entries rows (storedRange epoch)).map (·.1) ↔
      (∃ value, rows.get? slot = some value) ∧
        (epoch / PERSIST_STATE_EVERY_EPOCHS - 1) * PERSIST_STATE_EVERY_EPOCHS ≤ slot ∧ slot < epoch := by
    intro slot
    rw [hentries, List.mem_map]
    constructor
    · rintro ⟨e, he, rfl⟩
      rw [List.mem_filter, Bool.and_eq_true, decide_eq_true_eq, decide_eq_true_eq] at he
      exact ⟨⟨e.2, get?_eq_some_iff.2 he.1⟩, he.2⟩
    · rintro ⟨⟨value, hvalue⟩, hlow, hlt⟩
      refine ⟨(slot, value), List.mem_filter.2 ⟨get?_eq_some_iff.1 hvalue, ?_⟩, rfl⟩
      simp [hlow, hlt]
  have hsorted : ((Rows.entries rows (storedRange epoch)).map (·.1)).Pairwise (· < ·) := by
    rw [hentries, List.pairwise_map]
    exact rows.sorted.filter _
  unfold statesToDelete
  rw [mem_computeEpochsToDelete (by decide) hsorted, hmem]
  constructor
  · rintro ⟨⟨hvalue, hlow, hlt⟩, earlier, hearlier, hbefore, hsame⟩
    obtain ⟨hvalue', hlow', -⟩ := (hmem earlier).1 hearlier
    exact ⟨hvalue, hlow, hlt, earlier, hvalue', hlow', hbefore, hsame⟩
  · rintro ⟨hvalue, hlow, hlt, earlier, hvalue', hlow', hbefore, hsame⟩
    exact ⟨⟨hvalue, hlow, hlt⟩, earlier, (hmem earlier).2 ⟨hvalue', hlow', hbefore.trans hlt⟩, hbefore, hsame⟩

theorem mem_statesToDelete_iff {slots : List Nat} {next epoch : Nat}
    (hrows : ∀ slot, (∃ value, rows.get? slot = some value) ↔ slot = next ∨ slot ∈ slots ∧ ¬ Superseded P slots slot)
    (hnext : ∀ slot ∈ slots, slot < next) (hepoch : epoch ≤ next) (slot : Nat) :
    slot ∈ statesToDelete rows epoch ↔ (slot ∈ slots ∧ ¬ Superseded P slots slot) ∧
      (∃ earlier ∈ slots, earlier < slot ∧ earlier / PERSIST_STATE_EVERY_EPOCHS = slot / PERSIST_STATE_EVERY_EPOCHS) ∧
        slot < epoch ∧ (epoch / PERSIST_STATE_EVERY_EPOCHS - 1) * PERSIST_STATE_EVERY_EPOCHS ≤ slot := by
  rw [mem_statesToDelete, hrows]
  have hpos : 0 < PERSIST_STATE_EVERY_EPOCHS := by decide
  constructor
  · rintro ⟨hslot, hlow, hlt, earlier, hearlier, -, hbefore, hsame⟩
    rcases hslot with rfl | hslot
    · omega
    · refine ⟨hslot, ⟨earlier, ?_, hbefore, hsame⟩, hlt, hlow⟩
      rcases (hrows earlier).1 hearlier with rfl | ⟨hmem, -⟩
      · omega
      · exact hmem
  · rintro ⟨hslot, hearlier, hlt, hlow⟩
    -- the first of the interval is still stored, and no lower than the bound, a multiple of the interval
    obtain ⟨first, hmem, hbefore, hsame, hfirst⟩ := exists_first_of_interval PERSIST_STATE_EVERY_EPOCHS hearlier
    have hkept : ¬ Superseded P slots first := by
      rintro ⟨⟨other, hother, hlt, heq⟩, -⟩
      exact hfirst other hother hlt heq
    have hlow' : (epoch / PERSIST_STATE_EVERY_EPOCHS - 1) * PERSIST_STATE_EVERY_EPOCHS ≤ first := by
      rw [← Nat.le_div_iff_mul_le hpos, hsame, Nat.le_div_iff_mul_le hpos]
      exact hlow
    exact ⟨.inr hslot, hlow, hlt, first, (hrows first).2 (.inr ⟨hmem, hkept⟩), hlow', hbefore, hsame⟩

theorem Archive.slot_lt (h : Archive P values db archived) (hepoch : lastEpoch P values archived < epoch) :
    ∀ state ∈ archived, values.stateSlot state < computeStartSlotAtEpoch P epoch := by
  rcases List.eq_nil_or_concat archived with hnil | ⟨init, last, hconcat⟩
  · simp [hnil]
  · rw [List.concat_eq_append] at hconcat
    subst hconcat
    have hlast : values.stateSlot last < computeStartSlotAtEpoch P epoch := by
      unfold lastEpoch at hepoch
      rw [List.getLast?_concat] at hepoch
      exact (Nat.div_lt_iff_lt_mul P.slotsPerEpoch_pos).1 hepoch
    intro state hstate
    rcases List.mem_append.1 hstate with hstate | hstate
    · exact (h.lt_of_concat state hstate).trans hlast
    · rw [List.mem_singleton.1 hstate]
      exact hlast

section

variable (h : Archive P values db archived) (hdue : Due P values archived finalized) (hstate : cache.get finalized = some state)
include h hdue hstate

theorem maybeArchiveState_rows (hsafe : values.stateSlot state ≤ MAX_SAFE_INTEGER) (hepoch : finalized.epoch ≤ MAX_SAFE_INTEGER)
    (hrows : Rows (stateArchive values) db rows) :
    let stored := rows.insert (values.stateSlot state) (values.serialize .stateArchive state)
    ∃ db', maybeArchiveState values cache db finalized = .ok db' ∧
      Rows (stateArchive values) db' ((statesToDelete stored finalized.epoch).foldl SortedMap.erase stored) := by
  intro stored
  have hput : Rows (stateArchive values)
      (StateArchiveRepository.put values db (.number (values.stateSlot state)) state) stored :=
    Rows.put_stateArchive hrows hsafe state
  have hquery : (stateArchive values).keys (StateArchiveRepository.put values db (.number (values.stateSlot state)) state) {
        lt := some (.number finalized.epoch)
        gte := some (.number ((finalized.epoch / PERSIST_STATE_EVERY_EPOCHS - 1) * PERSIST_STATE_EVERY_EPOCHS)) } =
      (Rows.entries stored (storedRange finalized.epoch)).map fun e => .number e.1 :=
    hput.keys_eq rfl (fits_storedRange hepoch)
  have hslots : ((Rows.entries stored (storedRange finalized.epoch)).map fun e => Id.number e.1).filterMap slotOfKey =
      (Rows.entries stored (storedRange finalized.epoch)).map (·.1) := by
    rw [List.filterMap_map, ← List.filterMap_eq_map]
    rfl
  have hdeleted : ∀ slot ∈ statesToDelete stored finalized.epoch, slot ≤ MAX_SAFE_INTEGER := by
    intro slot hmem
    obtain ⟨⟨value, hvalue⟩, -⟩ := (mem_statesToDelete slot).1 hmem
    exact hput.safe_of_get? hvalue
  refine ⟨_, ?_, hput.batchDelete hdeleted⟩
  unfold maybeArchiveState archiveState
  rw [if_pos ((h.due_iff finalized).2 hdue), hstate]
  simp only [bind, Except.bind, hquery, hslots]
  change (if (statesToDelete stored finalized.epoch).length > 0 then _ else _) = _
  by_cases hlength : (statesToDelete stored finalized.epoch).length > 0
  · rw [if_pos hlength]
    rfl
  · rw [if_neg hlength]
    have hnil : statesToDelete stored finalized.epoch = [] := List.eq_nil_of_length_eq_zero (by omega)
    rw [hnil]
    rfl

theorem maybeArchiveState_archive (hsafe : computeStartSlotAtEpoch P finalized.epoch ≤ MAX_SAFE_INTEGER) :
    ∃ db', maybeArchiveState values cache db finalized = .ok db' ∧ Archive P values db' (archived ++ [state]) := by
  have hslot := cache.slot_eq finalized state hstate
  have hepoch : computeEpochAtSlot P (values.stateSlot state) = finalized.epoch := by
    rw [hslot]
    exact Nat.mul_div_cancel _ P.slotsPerEpoch_pos
  rw [← hslot] at hsafe
  have hle : finalized.epoch ≤ values.stateSlot state := hepoch ▸ computeEpochAtSlot_le P _
  have hbelow : ∀ slot ∈ archived.map values.stateSlot, slot < values.stateSlot state := by
    intro slot hmem
    obtain ⟨other, hother, rfl⟩ := List.mem_map.1 hmem
    rw [hslot]
    refine h.slot_lt ?_ other hother
    unfold Due at hdue
    omega
  obtain ⟨rows, hrows, hget⟩ := h.rows
  obtain ⟨db', hcall, hrows'⟩ := maybeArchiveState_rows h hdue hstate hsafe (hle.trans hsafe) hrows
  refine ⟨db', hcall, ?_, fun other hother => ?_, _, hrows', fun slot value => ?_⟩
  · rw [List.map_append, List.pairwise_append]
    refine ⟨h.increasing, List.pairwise_singleton _ _, fun a ha b hb => ?_⟩
    rw [List.map_singleton, List.mem_singleton] at hb
    rw [hb]
    exact hbelow a ha
  · rcases List.mem_append.1 hother with hother | hother
    · exact h.safe other hother
    · rw [List.mem_singleton.1 hother]
      exact hsafe
  · have hstored : ∀ slot, (∃ value, (rows.insert (values.stateSlot state)
          (values.serialize .stateArchive state)).get? slot = some value) ↔ slot = values.stateSlot state ∨
        slot ∈ archived.map values.stateSlot ∧ ¬ Superseded P (archived.map values.stateSlot) slot := by
      intro slot
      rw [get?_insert]
      by_cases heq : slot = values.stateSlot state
      · simp [heq]
      · rw [if_neg heq]
        constructor
        · rintro ⟨value, hvalue⟩
          obtain ⟨other, hother, rfl, -, hkept⟩ := (hget slot value).1 hvalue
          exact .inr ⟨List.mem_map_of_mem hother, hkept⟩
        · rintro (rfl | ⟨hmem, hkept⟩)
          · exact absurd rfl heq
          · obtain ⟨other, hother, rfl⟩ := List.mem_map.1 hmem
            exact ⟨_, (hget _ _).2 ⟨other, hother, rfl, rfl, hkept⟩⟩
    have hdelete := mem_statesToDelete_iff hstored hbelow hle slot
    have hlast : ∀ other ∈ archived.map values.stateSlot ++ [values.stateSlot state], other ≤ values.stateSlot state := by
      intro other hother
      rcases List.mem_append.1 hother with hother | hother
      · exact Nat.le_of_lt (hbelow other hother)
      · exact Nat.le_of_eq (List.mem_singleton.1 hother)
    rw [get?_foldl_erase, List.map_append, List.map_singleton]
    by_cases heq : slot = values.stateSlot state
    · -- the new state stays
      subst heq
      have hkeep : values.stateSlot state ∉ statesToDelete (rows.insert (values.stateSlot state)
          (values.serialize .stateArchive state)) finalized.epoch := fun hmem =>
        lt_irrefl _ (hbelow _ (hdelete.1 hmem).1.1)
      rw [if_neg hkeep, get?_insert, if_pos rfl, Option.some_inj]
      constructor
      · intro hvalue
        exact ⟨state, by simp, rfl, hvalue, not_superseded_of_last hlast⟩
      · rintro ⟨other, hother, hsame, hvalue, -⟩
        rcases List.mem_append.1 hother with hother | hother
        · exact absurd (hbelow _ (List.mem_map_of_mem hother)) (by omega)
        · rw [← hvalue, List.mem_singleton.1 hother]
    · have hsup : ∀ other ∈ archived, values.stateSlot other = slot →
          (Superseded P (archived.map values.stateSlot ++ [values.stateSlot state]) slot ↔
            Superseded P (archived.map values.stateSlot) slot ∨
              slot ∈ statesToDelete (rows.insert (values.stateSlot state) (values.serialize .stateArchive state))
                finalized.epoch) := by
        rintro other hother rfl
        have hmem : values.stateSlot other ∈ archived.map values.stateSlot := List.mem_map_of_mem hother
        rw [superseded_concat hbelow hmem, hdelete, hepoch]
        by_cases hold : Superseded P (archived.map values.stateSlot) (values.stateSlot other)
        · simp [hold]
        · simp only [hold, hmem, not_false_iff, and_self, true_and, false_or]
      have hmem : ∀ other, other ∈ archived ++ [state] ∧ values.stateSlot other = slot ↔
          other ∈ archived ∧ values.stateSlot other = slot := by
        intro other
        rw [List.mem_append, List.mem_singleton]
        constructor
        · rintro ⟨hother | rfl, hsame⟩
          · exact ⟨hother, hsame⟩
          · exact absurd hsame.symm heq
        · rintro ⟨hother, hsame⟩
          exact ⟨.inl hother, hsame⟩
      rw [get?_insert, if_neg heq]
      by_cases hdel : slot ∈ statesToDelete (rows.insert (values.stateSlot state)
          (values.serialize .stateArchive state)) finalized.epoch
      · rw [if_pos hdel]
        constructor
        · intro hnone
          cases hnone
        · rintro ⟨other, hother, hsame, -, hkept⟩
          obtain ⟨hother, -⟩ := (hmem other).1 ⟨hother, hsame⟩
          exact absurd ((hsup other hother hsame).2 (.inr hdel)) hkept
      · rw [if_neg hdel, hget]
        refine exists_congr fun other => ?_
        constructor
        · rintro ⟨hother, hsame, hvalue, hkept⟩
          refine ⟨List.mem_append_left _ hother, hsame, hvalue, fun hs => ?_⟩
          rcases (hsup other hother hsame).1 hs with hs | hs
          · exact hkept hs
          · exact hdel hs
        · rintro ⟨hother, hsame, hvalue, hkept⟩
          obtain ⟨hother, -⟩ := (hmem other).1 ⟨hother, hsame⟩
          exact ⟨hother, hsame, hvalue, fun hs => hkept ((hsup other hother hsame).2 (.inl hs))⟩

end

/-! ## A run -/

theorem Archive.nil (h : Holds values db fun _ => False) : Archive P values db [] where
  increasing := .nil
  safe state hstate := absurd hstate List.not_mem_nil
  rows := by
    refine ⟨.empty, ⟨fun e he => absurd he List.not_mem_nil, fun key hkey value => ?_⟩, fun slot value => ?_⟩
    · rw [h key hkey value]
      constructor
      · rintro ⟨state, hfalse, -⟩
        exact hfalse.elim
      · rintro ⟨n, -, hn⟩
        cases hn
    · constructor
      · intro hn
        cases hn
      · rintro ⟨state, hstate, -⟩
        exact absurd hstate List.not_mem_nil

theorem lastEpoch_concat :
    lastEpoch P values (archived ++ [state]) = computeEpochAtSlot P (values.stateSlot state) := by
  unfold lastEpoch
  rw [List.getLast?_concat]
  rfl

theorem maybeArchiveStates_archive : ∀ (calls : List (Finalized P values)) {db : Store}
    {archived : List (values.Value .stateArchive)}, Archive P values db archived →
    (∀ call ∈ calls, computeStartSlotAtEpoch P call.2.epoch ≤ MAX_SAFE_INTEGER) →
    Archive P values (maybeArchiveStates values db calls)
      (archived ++ archivedStates values (lastEpoch P values archived) calls)
  | [], db, archived, h, _ => by
    unfold archivedStates
    rw [List.append_nil]
    exact h
  | (cache, finalized) :: calls, db, archived, h, hsafe => by
    have hrest : ∀ call ∈ calls, computeStartSlotAtEpoch P call.2.epoch ≤ MAX_SAFE_INTEGER := fun call hcall =>
      hsafe call (List.mem_cons_of_mem _ hcall)
    have hstep : maybeArchiveStates values db ((cache, finalized) :: calls) =
        maybeArchiveStates values (settled db (maybeArchiveState values cache db finalized)) calls := rfl
    rw [hstep]
    unfold archivedStates
    by_cases hdue : Due P values archived finalized
    · have hgap : lastEpoch P values archived + PERSIST_TEMP_STATE_EVERY_EPOCHS < finalized.epoch := hdue
      rw [if_pos hgap]
      cases hstate : cache.get finalized with
      | none =>
        rw [maybeArchiveState_miss h hdue hstate]
        exact maybeArchiveStates_archive calls h hrest
      | some state =>
        obtain ⟨db', hcall, h'⟩ := maybeArchiveState_archive h hdue hstate (hsafe _ List.mem_cons_self)
        have hepoch : lastEpoch P values (archived ++ [state]) = finalized.epoch := by
          rw [lastEpoch_concat, cache.slot_eq finalized state hstate]
          exact Nat.mul_div_cancel _ P.slotsPerEpoch_pos
        have ih := maybeArchiveStates_archive calls h' hrest
        rw [hepoch, List.append_assoc, List.singleton_append] at ih
        rw [hcall]
        exact ih
    · have hgap : ¬ lastEpoch P values archived + PERSIST_TEMP_STATE_EVERY_EPOCHS < finalized.epoch := hdue
      rw [if_neg hgap, maybeArchiveState_idle h cache hdue]
      exact maybeArchiveStates_archive calls h hrest

theorem Archive.holds_iff (h : Archive P values db archived) (kept : values.Value .stateArchive → Prop) :
    Holds values db (fun state => state ∈ archived ∧ kept state) ↔
      ∀ state ∈ archived, kept state ↔ ¬ Superseded P (archived.map values.stateSlot) (values.stateSlot state) := by
  obtain ⟨rows, hrows, hget⟩ := h.rows
  have hlt : ∀ state ∈ archived, values.stateSlot state < 256 ^ uintLen := fun state hstate => lt_of_safe (h.safe state hstate)
  constructor
  · intro hholds state hstate
    have hkey := hholds _ (inBucket_encodeKey _ (.number (values.stateSlot state))) (values.serialize .stateArchive state)
    have hrow : SortedMap.get? db ((stateArchive values).encodeKey (.number (values.stateSlot state))) =
        rows.get? (values.stateSlot state) := hrows.getBinary_eq (hlt state hstate)
    change SortedMap.get? db ((stateArchive values).encodeKey (.number (values.stateSlot state))) = _ ↔ _ at hkey
    rw [hrow, hget] at hkey
    constructor
    · intro hkept
      obtain ⟨-, -, -, -, hsup⟩ := hkey.2 ⟨state, ⟨hstate, hkept⟩, rfl, rfl⟩
      exact hsup
    · intro hsup
      obtain ⟨other, ⟨hother, hkept⟩, heq, -⟩ := hkey.1 ⟨state, hstate, rfl, rfl, hsup⟩
      have hslot := encodeKey_number_inj (hlt state hstate) (hlt other hother) heq
      have hnodup : (archived.map values.stateSlot).Nodup := h.increasing.imp fun hlt => Nat.ne_of_lt hlt
      rw [List.inj_on_of_nodup_map hnodup hstate hother hslot]
      exact hkept
  · intro hkept key hkey value
    rw [hrows.get? key hkey]
    constructor
    · rintro ⟨slot, rfl, hslot⟩
      obtain ⟨state, hstate, rfl, hvalue, hsup⟩ := (hget slot value).1 hslot
      exact ⟨state, ⟨hstate, (hkept state hstate).2 hsup⟩, rfl, hvalue.symm⟩
    · rintro ⟨state, ⟨hstate, hkeep⟩, rfl, rfl⟩
      exact ⟨_, rfl, (hget _ _).2 ⟨state, hstate, rfl, rfl, (hkept state hstate).1 hkeep⟩⟩

theorem Archive.not_superseded_getLast (h : Archive P values db archived) (hlast : archived.getLast? = some state) :
    ¬ Superseded P (archived.map values.stateSlot) (values.stateSlot state) := by
  obtain ⟨init, rfl⟩ := List.getLast?_eq_some_iff.1 hlast
  refine not_superseded_of_last fun slot hslot => ?_
  obtain ⟨other, hother, rfl⟩ := List.mem_map.1 hslot
  rcases List.mem_append.1 hother with hother | hother
  · exact Nat.le_of_lt (h.lt_of_concat other hother)
  · rw [List.mem_singleton.1 hother]

/-- **The archive ends with the earliest state of each interval, besides the last, exactly when the states superseded are the
others.** -/
theorem maybeArchiveStates_iff (calls : List (Finalized P values)) (db : Store) (hempty : Holds values db fun _ => False)
    (hsafe : ∀ call ∈ calls, computeStartSlotAtEpoch P call.2.epoch ≤ MAX_SAFE_INTEGER) :
    let archived := archivedStates values 0 calls
    Holds values (maybeArchiveStates values db calls) (fun state => state ∈ archived ∧
        (archived.getLast? = some state ∨ EarliestOfInterval P values archived state)) ↔
      ∀ state ∈ archived.dropLast, EarliestOfInterval P values archived state ↔
        ¬ Superseded P (archived.map values.stateSlot) (values.stateSlot state) := by
  intro archived
  have hzero : lastEpoch P values [] = 0 := Nat.zero_div _
  have harchive : Archive P values (maybeArchiveStates values db calls) archived := by
    have h := maybeArchiveStates_archive calls (Archive.nil hempty) hsafe
    rw [hzero, List.nil_append] at h
    exact h
  rw [harchive.holds_iff]
  constructor
  · intro h state hstate
    have hmem := List.dropLast_subset _ hstate
    rw [← h state hmem]
    have hne : archived.getLast? ≠ some state := by
      intro hlast
      obtain ⟨init, hinit⟩ := List.getLast?_eq_some_iff.1 hlast
      rw [hinit, List.dropLast_concat] at hstate
      have hlt := (hinit ▸ harchive).lt_of_concat state hstate
      exact lt_irrefl _ hlt
    simp [hne]
  · intro h state hstate
    by_cases hlast : archived.getLast? = some state
    · simp only [hlast, true_or, true_iff]
      exact harchive.not_superseded_getLast hlast
    · simp only [hlast, false_or]
      refine h state ?_
      rcases List.eq_nil_or_concat archived with hnil | ⟨init, last, hconcat⟩
      · rw [hnil] at hstate
        exact absurd hstate List.not_mem_nil
      · rw [List.concat_eq_append] at hconcat
        rw [hconcat, List.dropLast_concat]
        rw [hconcat, List.getLast?_concat] at hlast
        rw [hconcat, List.mem_append, List.mem_singleton] at hstate
        rcases hstate with hstate | rfl
        · exact hstate
        · exact absurd rfl hlast

/-! ## Long epochs -/

theorem archivedStates_spaced : ∀ (calls : List (Finalized P values)) (lastStoredEpoch : Nat),
    (∀ state ∈ archivedStates values lastStoredEpoch calls,
      computeStartSlotAtEpoch P (lastStoredEpoch + PERSIST_TEMP_STATE_EVERY_EPOCHS + 1) ≤ values.stateSlot state) ∧
    ((archivedStates values lastStoredEpoch calls).map values.stateSlot).Pairwise
      (fun a b => a + computeStartSlotAtEpoch P (PERSIST_TEMP_STATE_EVERY_EPOCHS + 1) ≤ b)
  | [], _ => ⟨fun _ h => absurd h List.not_mem_nil, .nil⟩
  | (cache, finalized) :: calls, lastStoredEpoch => by
    unfold archivedStates
    by_cases hgap : lastStoredEpoch + PERSIST_TEMP_STATE_EVERY_EPOCHS < finalized.epoch
    · rw [if_pos hgap]
      cases hstate : cache.get finalized with
      | none => exact archivedStates_spaced calls lastStoredEpoch
      | some state =>
        obtain ⟨hlow, hspaced⟩ := archivedStates_spaced calls finalized.epoch
        have hslot := cache.slot_eq finalized state hstate
        have hstart : computeStartSlotAtEpoch P (lastStoredEpoch + PERSIST_TEMP_STATE_EVERY_EPOCHS + 1) ≤
            values.stateSlot state := by
          rw [hslot]
          exact Nat.mul_le_mul_right _ hgap
        have hafter : ∀ other ∈ archivedStates values finalized.epoch calls,
            values.stateSlot state + computeStartSlotAtEpoch P (PERSIST_TEMP_STATE_EVERY_EPOCHS + 1) ≤
              values.stateSlot other := by
          intro other hother
          rw [hslot]
          unfold computeStartSlotAtEpoch at hlow ⊢
          rw [← Nat.add_mul]
          exact hlow other hother
        refine ⟨fun other hother => ?_, ?_⟩
        · rcases List.mem_cons.1 hother with rfl | hother
          · exact hstart
          · have := hafter other hother
            omega
        · rw [List.map_cons, List.pairwise_cons]
          refine ⟨fun slot hslot => ?_, hspaced⟩
          obtain ⟨other, hother, rfl⟩ := List.mem_map.1 hslot
          exact hafter other hother
    · rw [if_neg hgap]
      exact archivedStates_spaced calls lastStoredEpoch

/-- **With epochs of 32 slots or more no state is ever deleted**: no two stored are in one interval of slots. -/
theorem maybeArchiveStates_keeps_all (hlong : 32 ≤ P.SLOTS_PER_EPOCH) (calls : List (Finalized P values)) (db : Store)
    (hempty : Holds values db fun _ => False)
    (hsafe : ∀ call ∈ calls, computeStartSlotAtEpoch P call.2.epoch ≤ MAX_SAFE_INTEGER) :
    Holds values (maybeArchiveStates values db calls) (fun state => state ∈ archivedStates values 0 calls) := by
  have hzero : lastEpoch P values [] = 0 := Nat.zero_div _
  have harchive := maybeArchiveStates_archive calls (Archive.nil hempty) hsafe
  rw [hzero, List.nil_append] at harchive
  have hall := (harchive.holds_iff fun _ => True).2 fun state hstate => by
    rw [true_iff]
    rintro ⟨⟨earlier, hearlier, hlt, hsame⟩, -⟩
    obtain ⟨-, hspaced⟩ := archivedStates_spaced calls 0
    -- two slots of the list are 33 epochs apart, whichever comes first in it
    have hfar : ∀ a ∈ (archivedStates values 0 calls).map values.stateSlot,
        ∀ b ∈ (archivedStates values 0 calls).map values.stateSlot, a < b →
        a + computeStartSlotAtEpoch P (PERSIST_TEMP_STATE_EVERY_EPOCHS + 1) ≤ b := by
      intro a ha b hb hab
      obtain ⟨i, hi, rfl⟩ := List.mem_iff_getElem.1 ha
      obtain ⟨j, hj, rfl⟩ := List.mem_iff_getElem.1 hb
      rcases Nat.lt_trichotomy i j with hij | rfl | hij
      · exact List.pairwise_iff_getElem.1 hspaced i j hi hj hij
      · exact absurd hab (lt_irrefl _)
      · have := List.pairwise_iff_getElem.1 hspaced j i hj hi hij
        omega
    have hdist := hfar earlier hearlier _ (List.mem_map_of_mem hstate) hlt
    have hepochs : 33 * 32 ≤ computeStartSlotAtEpoch P (PERSIST_TEMP_STATE_EVERY_EPOCHS + 1) :=
      Nat.mul_le_mul_left 33 hlong
    unfold PERSIST_STATE_EVERY_EPOCHS at hsame
    omega
  intro key hkey value
  rw [hall key hkey value]
  simp only [and_true]

end Step

/-! ## Three finalized epochs of one interval -/

def slotValues : Values where
  Value _ := Nat
  Single _ := Nat
  Attestation := Root
  serialize _ value := BigEndian.encode 8 value
  deserialize _ value := .ok (BigEndian.decode value)
  hashTreeRoot _ _ := zeroRoot
  serializeSingle _ value := BigEndian.encode 8 value
  deserializeSingle _ value := .ok (BigEndian.decode value)
  blockMessageRoot _ := zeroRoot
  pendingBlockMessageRoot _ := zeroRoot
  archivedMessage value := ⟨value, zeroRoot, zeroRoot⟩
  stateSlot value := value
  aggregate _ := zeroRoot
  attestationRoot root := root
  attestationSlot _ := 0
  exitValidatorIndex _ := 0
  proposerIndex _ := 0
  bufferToNumber _ := none

def fullCache (P : Preset) : CheckpointStateCache P slotValues where
  get checkpoint := some (computeStartSlotAtEpoch P checkpoint.epoch)
  slot_eq _ _ h := (Option.some.inj h).symm

def finalizedCalls : List (Finalized mainnet slotValues) :=
  [33, 66, 99].map fun epoch => (fullCache mainnet, ⟨epoch, zeroRoot⟩)

def finalizedSlots : List (slotValues.Value .stateArchive) := ([1056, 2112, 3168] : List Nat)

theorem holds_empty : Holds slotValues .empty fun _ => False := by
  intro key _ value
  constructor
  · intro h
    cases h
  · rintro ⟨-, hfalse, -⟩
    exact hfalse.elim

theorem finalizedCalls_safe :
    ∀ call ∈ finalizedCalls, computeStartSlotAtEpoch mainnet call.2.epoch ≤ MAX_SAFE_INTEGER := by
  intro call hcall
  simp only [finalizedCalls, List.map_cons, List.map_nil, List.mem_cons, List.not_mem_nil, or_false] at hcall
  rcases hcall with rfl | rfl | rfl <;> decide

theorem maybeArchiveStates_iff_three :
    let archived := archivedStates slotValues 0 finalizedCalls
    Holds slotValues (maybeArchiveStates slotValues .empty finalizedCalls) (fun state => state ∈ archived ∧
        (archived.getLast? = some state ∨ EarliestOfInterval mainnet slotValues archived state)) ↔
      ∀ state ∈ archived.dropLast, EarliestOfInterval mainnet slotValues archived state ↔
        ¬ Superseded mainnet (archived.map slotValues.stateSlot) (slotValues.stateSlot state) :=
  maybeArchiveStates_iff finalizedCalls .empty holds_empty finalizedCalls_safe

/-- All three states stay, though the second is neither the last nor the earliest of its interval of 1024 epochs. -/
theorem maybeArchiveStates_keeps_three :
    (finalizedCalls.map (·.2.epoch)).Pairwise (fun a b => a < b ∧ b ≤ a + PERSIST_STATE_EVERY_EPOCHS) ∧
      Holds slotValues (maybeArchiveStates slotValues .empty finalizedCalls) (fun state => state ∈ finalizedSlots) ∧
      ¬ Holds slotValues (maybeArchiveStates slotValues .empty finalizedCalls)
        (fun state => state ∈ archivedStates slotValues 0 finalizedCalls ∧
          ((archivedStates slotValues 0 finalizedCalls).getLast? = some state ∨
            EarliestOfInterval mainnet slotValues (archivedStates slotValues 0 finalizedCalls) state)) := by
  have hkept := maybeArchiveStates_keeps_all (by decide) finalizedCalls .empty holds_empty finalizedCalls_safe
  refine ⟨by decide, hkept, fun h => ?_⟩
  -- the row of slot 2112 is there, and no state that should be kept has its key
  have hkey := inBucket_encodeKey (stateArchive slotValues).bucket.value (.number 2112)
  have hmem : (2112 : Nat) ∈ ([1056, 2112, 3168] : List Nat) := by decide
  have hrow := (hkept _ hkey (BigEndian.encode 8 2112)).2 ⟨(2112 : Nat), hmem, rfl, rfl⟩
  obtain ⟨state, ⟨hstate, hkeep⟩, heq, -⟩ := (h _ hkey _).1 hrow
  have hslots : ∀ slot ∈ finalizedSlots, slotValues.stateSlot slot < 256 ^ uintLen := by
    decide
  have heq' : (stateArchive slotValues).encodeKey (.number 2112) =
      (stateArchive slotValues).encodeKey (.number (slotValues.stateSlot state)) := heq
  have hslot : 2112 = slotValues.stateSlot state := encodeKey_number_inj (by decide) (hslots state hstate) heq'
  have hstate' : state = (2112 : Nat) := hslot.symm
  subst hstate'
  rcases hkeep with hlast | hearliest
  · cases hlast
  · have hfirst := hearliest (1056 : Nat) (by show (1056 : Nat) ∈ ([1056, 2112, 3168] : List Nat); decide) (by decide)
    exact absurd hfirst (by decide)

end Lodestar.Tasks
