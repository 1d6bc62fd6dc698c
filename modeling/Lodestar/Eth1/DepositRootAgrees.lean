import Lodestar.Eth1.DepositRootTree
import Lodestar.Lib.PendingWrites
import Mathlib.Data.List.TakeWhile
/-!
# DepositRootAgrees — when the cached tree of deposit roots is that of the database

The database is what the calls that have written and not yet assigned make of the cached tree, in the order in which it took their
roots (`Follows`).  That is kept while a tree is stored that the database holds as it was read, calls write that hold the cached tree,
and assignments are within reach of the tree and agree with those before them.
-/
namespace Lodestar.Eth1.DepositDataRootRepository

open Lib Lib.SortedMap PendingWrites Db Db.BeaconDb Runs Eth1DepositsCache
open scoped Lib.BigEndian

/-! ## The calls that have written -/

/-- The stages of the calls, with the number of trees: those that have written are the numbered ones, and a tree that a call holds
is there. -/
structure Kept (count : Nat) (calls : List (Call × Stage)) (written : List Nat) : Prop where
  mem : ∀ n, n ∈ written ↔ ∃ call tree, calls[n]? = some (call, .written tree)
  nodup : written.Nodup
  held : ∀ (n : Nat) (call : Call) (stage : Stage), calls[n]? = some (call, stage) →
    ∀ tree, stage = .holding tree ∨ stage = .written tree → tree < count
  safe : ∀ (n : Nat) (call : Call) (stage : Stage), calls[n]? = some (call, stage) → ∀ item ∈ call.items, item.1 ≤ MAX_SAFE_INTEGER

def itemsAt (calls : List (Call × Stage)) (tree n : Nat) : Option (List (Nat × Root)) :=
  match calls[n]? with
  | some (call, .written tree') => if tree' = tree then some call.items else none
  | _ => none

def pending (calls : List (Call × Stage)) (written : List Nat) (tree : Nat) : List (List (Nat × Root)) :=
  written.filterMap (itemsAt calls tree)

variable {calls : List (Call × Stage)} {n : Nat} {call : Call} {tree : Nat}

theorem itemsAt_written (h : calls[n]? = some (call, .written tree)) (tree' : Nat) :
    itemsAt calls tree' n = if tree = tree' then some call.items else none := by
  unfold itemsAt
  rw [h]

variable {written : List Nat}

theorem pending_congr {calls calls' : List (Call × Stage)} (tree : Nat) (h : ∀ n ∈ written, calls'[n]? = calls[n]?) :
    pending calls' written tree = pending calls written tree := by
  refine List.filterMap_congr fun n hn => ?_
  unfold itemsAt
  rw [h n hn]

theorem pending_append (calls : List (Call × Stage)) (written written' : List Nat) (tree : Nat) :
    pending calls (written ++ written') tree = pending calls written tree ++ pending calls written' tree := List.filterMap_append

theorem pending_set (h : n ∉ written) (entry : Call × Stage) (tree : Nat) :
    pending (calls.set n entry) written tree = pending calls written tree := by
  refine pending_congr tree fun m hm => List.getElem?_set_ne fun heq => h ?_
  rwa [heq]

theorem pending_cons (h : calls[n]? = some (call, .written tree)) (written : List Nat) (tree' : Nat) :
    pending calls (n :: written) tree' =
      if tree = tree' then call.items :: pending calls written tree' else pending calls written tree' := by
  unfold pending
  rw [List.filterMap_cons, itemsAt_written h]
  split <;> simp_all

theorem getElem?_set_eq_some {n m : Nat} {entry entry' : Call × Stage} (h : (calls.set n entry)[m]? = some entry') :
    m = n ∧ entry' = entry ∨ m ≠ n ∧ calls[m]? = some entry' := by
  by_cases hm : n = m
  · subst hm
    have hlt := (List.getElem?_eq_some_iff.1 h).1
    rw [List.length_set] at hlt
    rw [List.getElem?_set_self hlt] at h
    exact .inl ⟨rfl, (Option.some.inj h).symm⟩
  · rw [List.getElem?_set_ne hm] at h
    exact .inr ⟨fun heq => hm heq.symm, h⟩

namespace Kept

variable {count count' : Nat} {calls : List (Call × Stage)} {written : List Nat} (h : Kept count calls written)

include h

variable {n : Nat} {call : Call}

theorem notMem {stage : Stage} (hcall : calls[n]? = some (call, stage)) (hstage : ∀ tree, stage ≠ .written tree) :
    n ∉ written := by
  intro hmem
  obtain ⟨call', tree, hget⟩ := (h.mem n).1 hmem
  rw [hcall] at hget
  cases hget
  exact hstage tree rfl

theorem start (call : Call) {stage : Stage} (hstage : ∀ tree, stage ≠ .written tree) (hheld : ∀ tree, stage = .holding tree → tree < count)
    (hsafe : ∀ item ∈ call.items, item.1 ≤ MAX_SAFE_INTEGER) : Kept count (calls ++ [(call, stage)]) written := by
  have hcases : ∀ {n : Nat} {entry : Call × Stage}, (calls ++ [(call, stage)])[n]? = some entry →
      calls[n]? = some entry ∨ entry = (call, stage) := by
    intro n entry hget
    rcases Nat.lt_or_ge n calls.length with hlt | hge
    · rw [List.getElem?_append_left hlt] at hget
      exact .inl hget
    · rw [List.getElem?_append_right hge] at hget
      exact .inr (List.mem_singleton.1 (List.mem_of_getElem? hget))
  refine ⟨fun n => ⟨fun hmem => ?_, ?_⟩, h.nodup, ?_, ?_⟩
  · obtain ⟨call', tree, hget⟩ := (h.mem n).1 hmem
    exact ⟨call', tree, by rw [List.getElem?_append_left (List.getElem?_eq_some_iff.1 hget).1, hget]⟩
  · rintro ⟨call', tree, hget⟩
    rcases hcases hget with hget | heq
    · exact (h.mem n).2 ⟨call', tree, hget⟩
    · exact absurd (congrArg Prod.snd heq).symm (hstage tree)
  · intro n call' stage' hget tree hholds
    rcases hcases hget with hget | heq
    · exact h.held n call' stage' hget tree hholds
    · cases heq
      exact hholds.elim (hheld tree) fun hwritten => absurd hwritten (hstage tree)
  · intro n call' stage' hget
    rcases hcases hget with hget | heq
    · exact h.safe n call' stage' hget
    · cases heq
      exact hsafe

variable {stage stage' : Stage}

theorem update (hcall : calls[n]? = some (call, stage)) {written' : List Nat} (hothers : ∀ m, m ≠ n → (m ∈ written' ↔ m ∈ written))
    (hnodup : written'.Nodup) (hmem : n ∈ written' ↔ ∃ tree, stage' = .written tree)
    (hheld : ∀ tree, stage' = .holding tree ∨ stage' = .written tree → tree < count') (hcount : count ≤ count') :
    Kept count' (calls.set n (call, stage')) written' := by
  have hlt := (List.getElem?_eq_some_iff.1 hcall).1
  refine ⟨fun m => ?_, hnodup, ?_, ?_⟩
  · by_cases hm : m = n
    · subst hm
      rw [hmem, List.getElem?_set_self hlt]
      simp
    · rw [hothers m hm, h.mem m, List.getElem?_set_ne fun heq => hm heq.symm]
  · intro m call' stage'' hget tree hholds
    rcases getElem?_set_eq_some hget with ⟨rfl, heq⟩ | ⟨-, hget⟩
    · cases heq
      exact hheld tree hholds
    · exact (h.held m call' stage'' hget tree hholds).trans_le hcount
  · intro m call' stage'' hget
    rcases getElem?_set_eq_some hget with ⟨rfl, heq⟩ | ⟨-, hget⟩
    · cases heq
      exact h.safe m call stage hcall
    · exact h.safe m call' stage'' hget

theorem set (hcall : calls[n]? = some (call, stage)) (hstage : ∀ tree, stage ≠ .written tree)
    (hstage' : ∀ tree, stage' ≠ .written tree) (hheld : ∀ tree, stage' = .holding tree → tree < count') (hcount : count ≤ count') :
    Kept count' (calls.set n (call, stage')) written := by
  refine h.update hcall (fun _ _ => Iff.rfl) h.nodup (iff_of_false (h.notMem hcall hstage) ?_) (fun tree hholds => ?_) hcount
  · rintro ⟨tree, heq⟩
    exact hstage' tree heq
  · exact hholds.elim (hheld tree) fun hwritten => absurd hwritten (hstage' tree)

theorem write {tree : Nat} (hcall : calls[n]? = some (call, .holding tree)) :
    Kept count (calls.set n (call, .written tree)) (written ++ [n]) := by
  have hnot := h.notMem hcall fun tree heq => by cases heq
  refine h.update hcall (fun m hm => ?_) ?_ (iff_of_true ?_ ⟨tree, rfl⟩) (fun tree' hholds => ?_) le_rfl
  · rw [List.mem_append, List.mem_singleton, or_iff_left hm]
  · rw [List.nodup_append]
    refine ⟨h.nodup, List.nodup_singleton n, fun a ha b hb heq => hnot ?_⟩
    rwa [← List.mem_singleton.1 hb, ← heq]
  · exact List.mem_append_right _ (List.mem_singleton.2 rfl)
  · rcases hholds with hholds | hholds
    · cases hholds
    · cases hholds
      exact h.held n call _ hcall tree (.inl rfl)

theorem assign {tree : Nat} (hcall : calls[n]? = some (call, .written tree)) (result : Except Eth1Error (Option (List Root))) :
    Kept count (calls.set n (call, .done result)) (written.erase n) := by
  refine h.update hcall (fun m hm => ?_) (h.nodup.erase n) (iff_of_false ?_ ?_) (fun tree' hholds => ?_) le_rfl
  · rw [h.nodup.mem_erase_iff, and_iff_right hm]
  · exact h.nodup.not_mem_erase
  · rintro ⟨tree', heq⟩
    cases heq
  · rcases hholds with hholds | hholds <;> cases hholds

end Kept

variable {count : Nat}

theorem pending_eq_nil (h : Kept count calls written) (hle : count ≤ tree) : pending calls written tree = [] := by
  refine List.filterMap_eq_nil_iff.2 fun n hn => ?_
  obtain ⟨call, tree', hget⟩ := (h.mem n).1 hn
  rw [itemsAt_written hget, if_neg]
  have := h.held n call _ hget tree' (.inr rfl)
  omega

theorem exists_split (h : Kept count calls written) (hcall : calls[n]? = some (call, .written tree)) :
    ∃ before after, written = before ++ n :: after ∧ n ∉ before ∧ n ∉ after ∧ written.erase n = before ++ after ∧
      written.takeWhile (· ≠ n) = before := by
  obtain ⟨before, after, rfl⟩ := List.append_of_mem ((h.mem n).2 ⟨call, tree, hcall⟩)
  obtain ⟨-, hafter, hdisjoint⟩ := List.nodup_append.1 h.nodup
  have hbefore : n ∉ before := fun hmem => hdisjoint n hmem n List.mem_cons_self rfl
  refine ⟨before, after, rfl, hbefore, (List.nodup_cons.1 hafter).1, ?_, ?_⟩
  · rw [List.erase_append_right _ hbefore, List.erase_cons_head]
  · have hne : ∀ m ∈ before, decide (m ≠ n) = true := fun m hm => decide_eq_true fun heq => hbefore (heq ▸ hm)
    rw [List.takeWhile_append_of_pos hne, List.takeWhile_cons_of_neg (by simp), List.append_nil]

/-! ## The database and the cached tree -/

section

variable (values : Eth1Values)

def rootRows (roots : List Root) : List Buffer := roots.map fun root => values.serialize .depositDataRoot (values.ofRoot root)

def itemRows (items : List (Nat × Root)) : List (Nat × Buffer) :=
  items.map fun item => (item.1, values.serialize .depositDataRoot (values.ofRoot item.2))

/-- The database holds the roots under their numbers, from zero on. -/
def Holds (db : Store) (roots : List Root) : Prop :=
  Rows (depositDataRoot values.toValues) db (enumerate (rootRows values roots))

def Replaces : Prop := ∀ tree index root, index < tree.length → values.setRoot tree index root = .ok (tree.set index root)

/-- A tree is stored when none is, or when the database holds what was read for it; roots are written by a call that holds the cached
tree; and they are assigned to it within its reach, and in agreement with those that the database took before them and that are still
to be assigned.  The numbers of a call are safe integers. -/
def InTurn (s : System) : Label → Prop
  | .start call => ∀ item ∈ call.items, item.1 ≤ MAX_SAFE_INTEGER
  | .read _ | .fail .. => True
  | .store n => ∀ call roots, s.calls[n]? = some (call, .loaded roots) → s.depositRootTree = none ∨ Holds values s.db roots
  | .write n => ∀ call tree, s.calls[n]? = some (call, .holding tree) → s.depositRootTree = some tree
  | .resume n => ∀ call tree, s.calls[n]? = some (call, .written tree) → s.depositRootTree = some tree →
      InReach (2 ^ 32) (s.trees.getD tree []).length (call.items.map (·.1)) ∧
        ∀ earlier ∈ pending s.calls (s.written.takeWhile (· ≠ n)) tree, Agree earlier call.items

/-- Without a tree the database is as at first; else it is what the pending roots make of the cached one. -/
structure Follows (roots : List Root) (s : System) : Prop where
  unloaded : s.depositRootTree = none → Holds values s.db roots ∧
    ∀ (n : Nat) (call : Call) (read : List Root), s.calls[n]? = some (call, .loaded read) → read = roots
  loaded : ∀ t, s.depositRootTree = some t → ∃ tree, s.trees[t]? = some tree ∧
    Rows (depositDataRoot values.toValues) s.db
      (putPending (enumerate (rootRows values tree)) ((pending s.calls s.written t).map (itemRows values)))

end

variable {values : Eth1Values}

variable {db : Store}

theorem rows_writeRoots {rows : SortedMap Nat Buffer} (h : Rows (depositDataRoot values.toValues) db rows)
    (hsafe : ∀ item ∈ call.items, item.1 ≤ MAX_SAFE_INTEGER) :
    Rows (depositDataRoot values.toValues) (writeRoots values db call) (putAll rows (itemRows values call.items)) := by
  cases call with
  | put id value => exact h.putBinary (hsafe _ (List.mem_singleton.2 rfl)) _
  | batchPut items =>
    have hvalues : ∀ item ∈ items.map (fun item => (item.1, values.ofRoot item.2)), item.1 ≤ MAX_SAFE_INTEGER := by
      intro item hitem
      obtain ⟨source, hsource, rfl⟩ := List.mem_map.1 hitem
      exact hsafe source hsource
    have hput := h.batchPut hvalues
    rw [List.map_map, List.map_map] at hput
    exact hput
  | getTreeBacked depositIndex => exact h

theorem setRoots_inReach (hreplaces : Replaces values) : ∀ {items : List (Nat × Root)} {tree : List Root},
    InReach (2 ^ 32) tree.length (items.map (·.1)) → setRoots values tree items = (.ok (), assignAll tree items)
  | [], _, _ => rfl
  | (index, root) :: items, tree, ⟨hle, hlimit, hrest⟩ => by
    have hset : values.setRoot tree index root = .ok (PendingWrites.assign tree index root) := by
      unfold PendingWrites.assign
      split
      · rename_i hlt
        exact hreplaces tree index root hlt
      · obtain rfl : index = tree.length := Nat.le_antisymm hle (by omega)
        exact values.setRoot_length tree root (hlimit rfl)
    rw [← length_assign hle root] at hrest
    unfold setRoots
    rw [hset]
    exact setRoots_inReach hreplaces hrest

theorem enumerate_rootRows {tree : List Root} {items : List (Nat × Root)} (h : InReach (2 ^ 32) tree.length (items.map (·.1))) :
    enumerate (rootRows values (assignAll tree items)) = putAll (enumerate (rootRows values tree)) (itemRows values items) := by
  have hkeys : (itemRows values items).map (·.1) = items.map (·.1) := List.map_map
  have hlength : (rootRows values tree).length = tree.length := List.length_map _
  have hreach : InReach (2 ^ 32) (rootRows values tree).length ((itemRows values items).map (·.1)) := by
    rw [hkeys, hlength]
    exact h
  rw [← enumerate_assignAll hreach]
  exact congrArg enumerate (assignAll_map _ items tree)

/-! ## One step -/

namespace Follows

variable {roots : List Root} {s : System} (h : Follows values roots s) (hkept : Kept s.trees.length s.calls s.written)

include h hkept

variable {n : Nat} {call : Call}

theorem set {stage stage' : Stage} (hcall : s.calls[n]? = some (call, stage)) (hstage : ∀ tree, stage ≠ .written tree)
    (hread : s.depositRootTree = none → ∀ read, stage' = .loaded read → read = roots) :
    Follows values roots { s with calls := s.calls.set n (call, stage') } where
  unloaded hnone := by
    obtain ⟨hholds, hloaded⟩ := h.unloaded hnone
    refine ⟨hholds, fun m call' read hget => ?_⟩
    rcases getElem?_set_eq_some hget with ⟨rfl, heq⟩ | ⟨-, hget⟩
    · exact hread hnone read (congrArg Prod.snd heq).symm
    · exact hloaded m call' read hget
  loaded t ht := by
    obtain ⟨tree, htree, hrows⟩ := h.loaded t ht
    refine ⟨tree, htree, ?_⟩
    rw [pending_set (hkept.notMem hcall hstage)]
    exact hrows

theorem start (call : Call) :
    Follows values roots { s with calls := s.calls ++ [(call, s.depositRootTree.elim .loading .holding)] } where
  unloaded hnone := by
    obtain ⟨hholds, hloaded⟩ := h.unloaded hnone
    refine ⟨hholds, fun m call' read hget => ?_⟩
    rw [show s.depositRootTree = none from hnone] at hget
    rcases Nat.lt_or_ge m s.calls.length with hlt | hge
    · rw [List.getElem?_append_left hlt] at hget
      exact hloaded m call' read hget
    · rw [List.getElem?_append_right hge] at hget
      cases List.mem_singleton.1 (List.mem_of_getElem? hget)
  loaded t ht := by
    obtain ⟨tree, htree, hrows⟩ := h.loaded t ht
    refine ⟨tree, htree, ?_⟩
    have hsame : ∀ m ∈ s.written, (s.calls ++ [(call, s.depositRootTree.elim Stage.loading .holding)])[m]? = s.calls[m]? := by
      intro m hm
      obtain ⟨call', tree', hget⟩ := (hkept.mem m).1 hm
      exact List.getElem?_append_left (List.getElem?_eq_some_iff.1 hget).1
    rw [pending_congr t hsame]
    exact hrows

theorem store {read : List Root} (hcall : s.calls[n]? = some (call, .loaded read))
    (hturn : s.depositRootTree = none ∨ Holds values s.db read) :
    Follows values roots
      { s with
        trees := s.trees ++ [read], depositRootTree := some s.trees.length,
        calls := s.calls.set n (call, .holding s.trees.length) } where
  unloaded hnone := by cases hnone
  loaded t ht := by
    cases ht
    refine ⟨read, List.getElem?_concat_length, ?_⟩
    rw [pending_set (hkept.notMem hcall fun tree heq => by cases heq), pending_eq_nil hkept le_rfl]
    rcases hturn with hnone | hholds
    · obtain ⟨hholds, hloaded⟩ := h.unloaded hnone
      rw [hloaded n call read hcall]
      exact hholds
    · exact hholds

theorem write {tree : Nat} (hcall : s.calls[n]? = some (call, .holding tree)) (hturn : s.depositRootTree = some tree) :
    Follows values roots
      { s with
        db := writeRoots values s.db call, calls := s.calls.set n (call, .written tree), written := s.written ++ [n] } where
  unloaded hnone := by
    rw [show s.depositRootTree = none from hnone] at hturn
    cases hturn
  loaded t ht := by
    obtain rfl : tree = t := Option.some.inj (hturn.symm.trans ht)
    obtain ⟨cached, hcached, hrows⟩ := h.loaded tree ht
    have hnot := hkept.notMem hcall fun tree heq => by cases heq
    have hself : (s.calls.set n (call, .written tree))[n]? = some (call, .written tree) :=
      List.getElem?_set_self (List.getElem?_eq_some_iff.1 hcall).1
    have hlast : pending (s.calls.set n (call, .written tree)) [n] tree = [call.items] := by
      unfold pending
      rw [List.filterMap_cons_some ((itemsAt_written hself tree).trans (if_pos rfl)), List.filterMap_nil]
    refine ⟨cached, hcached, ?_⟩
    rw [pending_append, pending_set hnot, hlast, List.map_append, putPending_append]
    exact rows_writeRoots hrows (hkept.safe n call _ hcall)

theorem assign (hreplaces : Replaces values) {tree : Nat} (hcall : s.calls[n]? = some (call, .written tree))
    (hturn : s.depositRootTree = some tree → InReach (2 ^ 32) (s.trees.getD tree []).length (call.items.map (·.1)) ∧
      ∀ earlier ∈ pending s.calls (s.written.takeWhile (· ≠ n)) tree, Agree earlier call.items)
    (result : Except Eth1Error (Option (List Root))) :
    Follows values roots
      { s with
        trees := s.trees.set tree (setRoots values (s.trees.getD tree []) call.items).2, calls := s.calls.set n (call, .done result),
        written := s.written.erase n } where
  unloaded hnone := by
    obtain ⟨hholds, hloaded⟩ := h.unloaded hnone
    refine ⟨hholds, fun m call' read hget => ?_⟩
    rcases getElem?_set_eq_some hget with ⟨-, heq⟩ | ⟨-, hget⟩
    · cases heq
    · exact hloaded m call' read hget
  loaded t ht := by
    obtain ⟨cached, hcached, hrows⟩ := h.loaded t ht
    obtain ⟨before, after, hwritten, hbefore, hafter, herase, htake⟩ := exists_split hkept hcall
    have hnot : n ∉ before ++ after := fun hmem => (List.mem_append.1 hmem).elim hbefore hafter
    rw [herase, pending_set hnot, pending_append]
    rw [hwritten, pending_append] at hrows
    by_cases htree : tree = t
    · subst htree
      obtain ⟨hreach, hagree⟩ := hturn ht
      rw [List.getD_eq_getElem?_getD, hcached, Option.getD_some] at hreach ⊢
      rw [htake] at hagree
      refine ⟨assignAll cached call.items, ?_, ?_⟩
      · rw [setRoots_inReach hreplaces hreach, List.getElem?_set_self (List.getElem?_eq_some_iff.1 hcached).1]
      · have hagree' : ∀ earlier ∈ (pending s.calls before tree).map (itemRows values), Agree earlier (itemRows values call.items) := by
          intro earlier hearlier
          obtain ⟨items, hitems, rfl⟩ := List.mem_map.1 hearlier
          exact (hagree items hitems).map fun root => values.serialize .depositDataRoot (values.ofRoot root)
        rw [pending_cons hcall, if_pos rfl, List.map_append, List.map_cons, putPending_middle _ hagree'] at hrows
        rw [enumerate_rootRows hreach, List.map_append]
        exact hrows
    · refine ⟨cached, ?_, ?_⟩
      · rw [List.getElem?_set_ne htree, hcached]
      · rw [pending_cons hcall, if_neg htree] at hrows
        exact hrows

end Follows

/-! ## Runs -/

variable {roots : List Root}

theorem readRoots_eq (h : Holds values db roots) : readRoots values db = .loaded roots := by
  unfold readRoots
  rw [values_depositDataRoot h]
  dsimp only
  rw [map_root_ofRoot]

theorem readRoots_ne (values : Eth1Values) (db : Store) (tree : Nat) :
    readRoots values db ≠ .holding tree ∧ readRoots values db ≠ .written tree := by
  unfold readRoots
  split
  · refine ⟨?_, ?_⟩ <;> exact fun heq => by cases heq
  · refine ⟨?_, ?_⟩ <;> exact fun heq => by cases heq

variable {s s' : System}

theorem follows_step (hreplaces : Replaces values) {label : Label} (hstep : Step values s label s')
    (hturn : InTurn values s label) (h : Kept s.trees.length s.calls s.written ∧ Follows values roots s) :
    Kept s'.trees.length s'.calls s'.written ∧ Follows values roots s' := by
  obtain ⟨hkept, hfollows⟩ := h
  cases hstep with
  | start call =>
    refine ⟨hkept.start call (fun tree heq => ?_) (fun tree heq => ?_) hturn, hfollows.start hkept call⟩
    · cases hcached : s.depositRootTree <;> rw [hcached] at heq <;> cases heq
    · cases hcached : s.depositRootTree with
      | none =>
        rw [hcached] at heq
        cases heq
      | some cached =>
        rw [hcached] at heq
        cases heq
        obtain ⟨_, htree, -⟩ := hfollows.loaded tree hcached
        exact (List.getElem?_eq_some_iff.1 htree).1
  | read n call hcall =>
    have hloading : ∀ tree, Stage.loading ≠ .written tree := fun tree heq => by cases heq
    refine ⟨hkept.set hcall hloading (fun tree => (readRoots_ne values s.db tree).2)
      (fun tree heq => absurd heq (readRoots_ne values s.db tree).1) le_rfl, hfollows.set hkept hcall hloading fun hnone read hread => ?_⟩
    rw [readRoots_eq (hfollows.unloaded hnone).1] at hread
    cases hread
    rfl
  | fail n error call stage hcall hstage hbusy =>
    refine ⟨hkept.set hcall hstage (fun tree heq => ?_) (fun tree heq => ?_) le_rfl, hfollows.set hkept hcall hstage fun _ read hread => ?_⟩
    all_goals first | cases heq | cases hread
  | store n call read hcall =>
    refine ⟨hkept.set hcall (fun tree heq => ?_) (fun tree heq => ?_) (fun tree heq => ?_) ?_,
      hfollows.store hkept hcall (hturn call read hcall)⟩
    · cases heq
    · cases heq
    · cases heq
      simp
    · simp
  | write n call tree hcall hputs => exact ⟨hkept.write hcall, hfollows.write hkept hcall (hturn call tree hcall)⟩
  | answer n depositIndex tree hcall =>
    refine ⟨hkept.set hcall (fun tree heq => ?_) (fun tree heq => ?_) (fun tree heq => ?_) le_rfl,
      hfollows.set hkept hcall (fun tree heq => ?_) fun _ read hread => ?_⟩
    all_goals first | cases heq | cases hread
  | assign n call tree hcall =>
    refine ⟨?_, hfollows.assign hkept hreplaces hcall (hturn call tree hcall) _⟩
    rw [List.length_set]
    exact hkept.assign hcall _

def Idle (s : System) : Prop := ∀ call ∈ s.calls, ∃ result, call.2 = .done result

/-- The cached tree is the list of the values in the database in the order of their keys, and `getTreeBacked` is over the stored roots
up to a number. -/
def Agrees (values : Eth1Values) (s : System) : Prop :=
  ∃ roots, Holds values s.db roots ∧ (depositDataRoot values.toValues).values s.db {} = .ok (roots.map values.ofRoot) ∧
    (∀ tree, s.cache.depositRootTree = some tree → tree = roots) ∧
    ∀ depositIndex, getTreeBacked values s.cache depositIndex =
      if depositIndex < roots.length then .ok (roots.take (depositIndex + 1))
      else .error (.error ("Cannot get tree for unseen deposits: requested " ++ toString depositIndex ++ ", last seen " ++
        toString ((roots.length : Int) - 1)))

theorem popTree_eq (roots : List Root) (depositIndex : Nat) : popTree roots depositIndex =
    if depositIndex < roots.length then .ok (roots.take (depositIndex + 1))
    else .error (.error ("Cannot get tree for unseen deposits: requested " ++ toString depositIndex ++ ", last seen " ++
      toString ((roots.length : Int) - 1))) := by
  unfold popTree
  by_cases hlt : depositIndex < roots.length
  · rw [if_pos hlt, if_neg (by omega), popMany_eq]
    congr 2
    omega
  · rw [if_neg hlt, if_pos (by omega)]

theorem agrees_of_holds (hholds : Holds values s.db roots)
    (hcached : ∀ tree, s.cache.depositRootTree = some tree → tree = roots) : Agrees values s := by
  refine ⟨roots, hholds, values_depositDataRoot hholds, hcached, fun depositIndex => ?_⟩
  have hget : getDepositRootTree values s.cache = .ok (roots, _) := getDepositRootTree_of_rows hholds hcached
  unfold getTreeBacked
  rw [hget]
  exact popTree_eq roots depositIndex

theorem Follows.agrees (h : Follows values roots s) (hkept : Kept s.trees.length s.calls s.written) (hidle : Idle s) :
    Agrees values s := by
  have hnone : s.written = [] := by
    refine List.eq_nil_iff_forall_not_mem.2 fun n hn => ?_
    obtain ⟨call, tree, hget⟩ := (hkept.mem n).1 hn
    obtain ⟨result, hdone⟩ := hidle _ (List.mem_of_getElem? hget)
    cases hdone
  cases hcached : s.depositRootTree with
  | none =>
    refine agrees_of_holds (h.unloaded hcached).1 fun tree htree => ?_
    rw [System.cache, hcached] at htree
    cases htree
  | some t =>
    obtain ⟨tree, htree, hrows⟩ := h.loaded t hcached
    rw [hnone] at hrows
    refine agrees_of_holds hrows fun tree' htree' => ?_
    rw [System.cache, hcached, Option.map_some, List.getD_eq_getElem?_getD, htree] at htree'
    exact (Option.some.inj htree').symm

theorem follows_first (hdb : Holds values db roots) :
    Kept (System.first db).trees.length (System.first db).calls (System.first db).written ∧ Follows values roots (.first db) := by
  refine ⟨⟨fun n => ⟨fun hmem => absurd hmem List.not_mem_nil, ?_⟩, List.nodup_nil, fun n call stage hget => ?_,
    fun n call stage hget => ?_⟩, ⟨fun _ => ⟨hdb, fun n call read hget => ?_⟩, fun t ht => ?_⟩⟩
  · rintro ⟨call, tree, hget⟩
    cases hget
  · cases hget
  · cases hget
  · cases hget
  · cases ht

/-- **The cached tree is that of the database whenever no call is in progress**, in every run from a database with the roots of the
first deposits and without a tree, of which every step is in turn. -/
theorem run_agrees (hreplaces : Replaces values) {db : Store} {roots : List Root} (hdb : Holds values db roots)
    {steps : List (System × Label)} {s : System} (hrun : Run (next values) (.first db) steps s)
    (hturn : ∀ step ∈ steps, InTurn values step.1 step.2) : ∀ s' ∈ visited steps s, Idle s' → Agrees values s' := by
  have hall := hrun.always (I := fun s => Kept s.trees.length s.calls s.written ∧ Follows values roots s) (C := InTurn values)
    (follows_first hdb) (fun s label s' hnext hlabel h => follows_step hreplaces (step_of_next hnext) hlabel h) hturn
  intro s' hvisited hidle
  obtain ⟨hkept, hfollows⟩ := hall s' hvisited
  exact hfollows.agrees hkept hidle

/-! ## Two calls at once -/

def rootOf (n : UInt8) : Root := Vector.replicate 32 n

/-- The first root is put, and two more while the database has not answered. -/
def putsInTurn : List Label :=
  [.start (.put 0 (rootOf 1)), .read 0, .store 0, .start (.batchPut [(1, rootOf 2), (2, rootOf 3)]), .write 0, .write 1, .resume 0,
    .resume 1]

theorem plainEth1Values_replaces : Replaces plainEth1Values := fun _ _ _ hlt => if_pos hlt

theorem holds_empty (values : Eth1Values) : Holds values .empty [] := Rows.empty

theorem run_agrees_putsInTurn :
    Agrees plainEth1Values (exec (next plainEth1Values) putsInTurn (.first .empty)).2 := by
  refine run_agrees plainEth1Values_replaces (holds_empty _) (exec_run _ _ _) ?_ _
    (List.mem_append_right _ (List.mem_singleton.2 rfl)) ?_
  · have hfirst : ∀ item ∈ Call.items (.put 0 (rootOf 1)), item.1 ≤ MAX_SAFE_INTEGER := by decide
    have hsecond : ∀ item ∈ Call.items (.batchPut [(1, rootOf 2), (2, rootOf 3)]), item.1 ≤ MAX_SAFE_INTEGER := by decide
    refine List.forall_mem_cons.2 ⟨hfirst, List.forall_mem_cons.2 ⟨trivial, ?_⟩⟩
    refine List.forall_mem_cons.2 ⟨fun _ _ _ => .inl rfl, List.forall_mem_cons.2 ⟨hsecond, ?_⟩⟩
    refine List.forall_mem_cons.2 ⟨fun call tree hget => ?_, List.forall_mem_cons.2 ⟨fun call tree hget => ?_, ?_⟩⟩
    · cases hget
      rfl
    · cases hget
      rfl
    refine List.forall_mem_cons.2 ⟨fun call tree hget _ => ?_, List.forall_mem_singleton.2 fun call tree hget _ => ?_⟩
    · cases hget
      exact ⟨⟨le_rfl, fun _ => by decide, trivial⟩, fun earlier hmem => absurd hmem List.not_mem_nil⟩
    · cases hget
      exact ⟨⟨le_rfl, fun _ => by decide, le_rfl, fun _ => by decide, trivial⟩, fun earlier hmem => absurd hmem List.not_mem_nil⟩
  · exact List.forall_mem_cons.2 ⟨⟨_, rfl⟩, List.forall_mem_singleton.2 ⟨_, rfl⟩⟩

def overlappingLoads : List Label :=
  [.start (.put 0 (rootOf 1)), .start (.getTreeBacked 0), .read 0, .read 1, .store 0, .store 1, .write 0, .resume 0, .resume 1]

theorem run_disagrees : ¬ ∀ steps s, Run (next plainEth1Values) (.first .empty) steps s →
    (∀ step ∈ steps, ∀ call, step.2 = .start call → ∀ item ∈ call.items, item.1 ≤ MAX_SAFE_INTEGER) →
    ∀ s' ∈ visited steps s, Idle s' → Agrees plainEth1Values s' := by
  intro h
  have hrun := exec_run (next plainEth1Values) overlappingLoads (.first .empty)
  have hsafe : ∀ step ∈ (exec (next plainEth1Values) overlappingLoads (.first .empty)).1, ∀ call, step.2 = .start call →
      ∀ item ∈ call.items, item.1 ≤ MAX_SAFE_INTEGER := by
    have hlabels : ∀ label ∈ overlappingLoads, ∀ call, label = .start call → ∀ item ∈ call.items, item.1 ≤ MAX_SAFE_INTEGER := by
      simp [overlappingLoads, Call.items]
    exact fun step hstep => hlabels step.2 (List.mem_map_of_mem (f := Prod.snd) hstep)
  have hidle : Idle (exec (next plainEth1Values) overlappingLoads (.first .empty)).2 :=
    List.forall_mem_cons.2 ⟨⟨_, rfl⟩, List.forall_mem_singleton.2 ⟨_, rfl⟩⟩
  obtain ⟨roots, -, hvalues, hcached, -⟩ := h _ _ hrun hsafe _ (List.mem_append_right _ (List.mem_singleton.2 rfl)) hidle
  obtain rfl : [] = roots := hcached [] rfl
  have hone : ((depositDataRoot plainEth1Values.toValues).values
      (exec (next plainEth1Values) overlappingLoads (.first .empty)).2.db {}).map List.length = .ok 1 := by
    decide +kernel
  rw [hvalues] at hone
  cases hone

end Lodestar.Eth1.DepositDataRootRepository
