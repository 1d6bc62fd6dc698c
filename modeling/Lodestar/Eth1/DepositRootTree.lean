import Lodestar.Eth1.DepositsCache
import Lodestar.Lib.Runs
/-!
# DepositRootTree — the cached tree of deposit roots while calls interleave

A call that finds no tree reads all roots and stores a new tree, over whichever another call has stored meanwhile.  A call that puts
roots writes the database first and then assigns them to the tree that it got at its start, cached or not.
-/
namespace Lodestar.Eth1.DepositDataRootRepository

open Lib Lib.SortedMap Db Db.BeaconDb Runs Eth1DepositsCache

/-! ## Calls -/

inductive Call
  | put (id : Nat) (value : Root)
  | batchPut (items : List (Nat × Root))
  | getTreeBacked (depositIndex : Nat)

/-- Where a call stands: awaiting `values` or back from it, at a tree with the database not asked or answered, or settled. -/
inductive Stage
  | loading
  | loaded (roots : List Root)
  | holding (tree : Nat)
  | written (tree : Nat)
  | done (result : Except Eth1Error (Option (List Root)))

def Call.items : Call → List (Nat × Root)
  | .put id value => [(id, value)]
  | .batchPut items => items
  | .getTreeBacked _ => []

def Call.puts : Call → Bool
  | .put .. | .batchPut .. => true
  | .getTreeBacked _ => false

/-- The database, the trees in the order in which they were made, which of them is cached, and the calls.  Of those whose roots the
database has taken and which have not gone on, `written` keeps the order. -/
structure System where
  db : Store
  trees : List (List Root)
  depositRootTree : Option Nat
  calls : List (Call × Stage)
  written : List Nat

def System.first (db : Store) : System := ⟨db, [], none, [], []⟩

def System.cache (s : System) : Eth1DepositsCache := ⟨s.db, s.depositRootTree.map fun tree => s.trees.getD tree []⟩

inductive Label
  | start (call : Call)
  | read (n : Nat)
  | fail (n : Nat) (error : Eth1Error)
  | store (n : Nat)
  | write (n : Nat)
  | resume (n : Nat)

/-- What `getTreeBacked` does with a copy of the tree. -/
def popTree (depositRootTree : List Root) (depositIndex : Nat) : Except Eth1Error (List Root) :=
  let maxIndex : Int := depositRootTree.length - 1
  if (depositIndex : Int) > maxIndex then
    .error (.error ("Cannot get tree for unseen deposits: requested " ++ toString depositIndex ++ ", last seen " ++ toString maxIndex))
  else .ok (popMany (depositRootTree.length - 1 - depositIndex) depositRootTree)

section

variable (values : Eth1Values)

def getTreeBacked (cache : Eth1DepositsCache) (depositIndex : Nat) : Except Eth1Error (List Root) :=
  match getDepositRootTree values cache with
  | .error error => .error error
  | .ok (depositRootTree, _) => popTree depositRootTree depositIndex

def writeRoots (db : Store) : Call → Store
  | .put id value => (depositDataRoot values.toValues).put db (.number id) (values.ofRoot value)
  | .batchPut items =>
    (depositDataRoot values.toValues).batchPut db (items.map fun item => (.number item.1, values.ofRoot item.2))
  | .getTreeBacked _ => db

def readRoots (db : Store) : Stage :=
  match (depositDataRoot values.toValues).values db {} with
  | .error error => .done (.error (.db error))
  | .ok roots => .loaded (roots.map values.root)

/-- Starts a call, or lets one go on: `values` reads the database, what a call awaits of the database fails, the tree that was read is
stored, the database takes the roots of a call, or a call gets to its end. -/
def next : Label → System → Option System
  | .start call, s => some { s with calls := s.calls ++ [(call, s.depositRootTree.elim .loading .holding)] }
  | .read n, s =>
    match s.calls[n]? with
    | some (call, .loading) => some { s with calls := s.calls.set n (call, readRoots values s.db) }
    | _ => none
  | .fail n error, s =>
    match s.calls[n]? with
    | some (call, .loading) => some { s with calls := s.calls.set n (call, .done (.error error)) }
    | some (call, .holding _) =>
      if call.puts then some { s with calls := s.calls.set n (call, .done (.error error)) } else none
    | _ => none
  | .store n, s =>
    match s.calls[n]? with
    | some (call, .loaded roots) =>
      some { s with
        trees := s.trees ++ [roots], depositRootTree := some s.trees.length,
        calls := s.calls.set n (call, .holding s.trees.length) }
    | _ => none
  | .write n, s =>
    match s.calls[n]? with
    | some (call, .holding tree) =>
      if call.puts then
        some { s with
          db := writeRoots values s.db call, calls := s.calls.set n (call, .written tree), written := s.written ++ [n] }
      else none
    | _ => none
  | .resume n, s =>
    match s.calls[n]? with
    | some (.getTreeBacked depositIndex, .holding tree) =>
      some { s with
        calls := s.calls.set n (.getTreeBacked depositIndex, .done ((popTree (s.trees.getD tree []) depositIndex).map some)) }
    | some (call, .written tree) =>
      let (result, depositRootTree) := setRoots values (s.trees.getD tree []) call.items
      some { s with
        trees := s.trees.set tree depositRootTree, calls := s.calls.set n (call, .done (result.map fun _ => none)),
        written := s.written.erase n }
    | _ => none

inductive Step (s : System) : Label → System → Prop
  | start (call : Call) : Step s (.start call) { s with calls := s.calls ++ [(call, s.depositRootTree.elim .loading .holding)] }
  | read (n : Nat) (call : Call) (h : s.calls[n]? = some (call, .loading)) :
      Step s (.read n) { s with calls := s.calls.set n (call, readRoots values s.db) }
  | fail (n : Nat) (error : Eth1Error) (call : Call) (stage : Stage) (h : s.calls[n]? = some (call, stage))
      (hstage : ∀ tree, stage ≠ .written tree) (hbusy : ∀ result, stage ≠ .done result) :
      Step s (.fail n error) { s with calls := s.calls.set n (call, .done (.error error)) }
  | store (n : Nat) (call : Call) (roots : List Root) (h : s.calls[n]? = some (call, .loaded roots)) :
      Step s (.store n)
        { s with
          trees := s.trees ++ [roots], depositRootTree := some s.trees.length,
          calls := s.calls.set n (call, .holding s.trees.length) }
  | write (n : Nat) (call : Call) (tree : Nat) (h : s.calls[n]? = some (call, .holding tree)) (hputs : call.puts = true) :
      Step s (.write n)
        { s with
          db := writeRoots values s.db call, calls := s.calls.set n (call, .written tree), written := s.written ++ [n] }
  | answer (n depositIndex tree : Nat) (h : s.calls[n]? = some (.getTreeBacked depositIndex, .holding tree)) :
      Step s (.resume n)
        { s with
          calls := s.calls.set n (.getTreeBacked depositIndex, .done ((popTree (s.trees.getD tree []) depositIndex).map some)) }
  | assign (n : Nat) (call : Call) (tree : Nat) (h : s.calls[n]? = some (call, .written tree)) :
      Step s (.resume n)
        { s with
          trees := s.trees.set tree (setRoots values (s.trees.getD tree []) call.items).2,
          calls := s.calls.set n (call, .done ((setRoots values (s.trees.getD tree []) call.items).1.map fun _ => none)),
          written := s.written.erase n }

end

variable {values : Eth1Values}

theorem step_of_next {label : Label} {s s' : System} (h : next values label s = some s') : Step values s label s' := by
  cases label with
  | start call =>
    cases h
    exact .start call
  | read n =>
    simp only [next] at h
    split at h
    · rename_i call hcall
      cases h
      exact .read n call hcall
    · cases h
  | fail n error =>
    simp only [next] at h
    split at h
    · rename_i call hcall
      cases h
      exact .fail n error call _ hcall (fun tree heq => by cases heq) fun result heq => by cases heq
    · rename_i call tree hcall
      split at h
      · cases h
        exact .fail n error call _ hcall (fun tree heq => by cases heq) fun result heq => by cases heq
      · cases h
    · cases h
  | store n =>
    simp only [next] at h
    split at h
    · rename_i call roots hcall
      cases h
      exact .store n call roots hcall
    · cases h
  | write n =>
    simp only [next] at h
    split at h
    · rename_i call tree hcall
      split at h
      · rename_i hputs
        cases h
        exact .write n call tree hcall hputs
      · cases h
    · cases h
  | resume n =>
    simp only [next] at h
    split at h
    · rename_i depositIndex tree hcall
      cases h
      exact .answer n depositIndex tree hcall
    · rename_i call tree hcall
      cases h
      exact .assign n call tree hcall
    · cases h

end Lodestar.Eth1.DepositDataRootRepository
