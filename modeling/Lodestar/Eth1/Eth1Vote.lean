import Lodestar.StateTransition.Genesis
import Lodestar.Eth1.Deposits
import Lodestar.Eth1.ForBlockProduction
/-!
# Eth1Vote — the eth1 data a block votes for

The votes to consider are the cached data of a range of timestamps.  Among the votes of the state that are to be considered
the most frequent one is picked, a later one on a tie; else the newest to consider, and without any the data of the state.
`pickEth1Vote_spec` says that it is always one of these.
-/
namespace Lodestar.Eth1

open Lib Db StateTransition

structure Eth1VoteConfig extends Eth1Config where
  SECONDS_PER_ETH1_BLOCK : Nat
  SECONDS_PER_SLOT : Nat

structure TimestampRange where
  gte : Int
  lte : Int
deriving DecidableEq, Repr

abbrev Eth1DataGetter := TimestampRange → Except DepositsError (List Eth1Data)

variable {P : Preset} (config : Eth1VoteConfig) (state : GenesisState P)

def computeTimeAtSlot (slot genesisTime : Nat) : Nat := genesisTime + slot * config.SECONDS_PER_SLOT

def votingPeriodStartTime : Nat :=
  let eth1VotingPeriodStartSlot := state.slot - state.slot % (P.EPOCHS_PER_ETH1_VOTING_PERIOD * P.SLOTS_PER_EPOCH)
  computeTimeAtSlot config eth1VotingPeriodStartSlot state.genesisTime

def getEth1VotesToConsider (eth1DataGetter : Eth1DataGetter) : Except DepositsError (List Eth1Data) :=
  let periodStart : Int := votingPeriodStartTime config state
  let followTime : Int := config.SECONDS_PER_ETH1_BLOCK * config.ETH1_FOLLOW_DISTANCE
  (eth1DataGetter { lte := periodStart - followTime, gte := periodStart - followTime * 2 }).map fun eth1Datas =>
    eth1Datas.filter fun eth1Data => decide (eth1Data.depositCount ≥ state.eth1Data.depositCount)

def serializeEth1Data (eth1Data : Eth1Data) : String :=
  Hex.ofBytes eth1Data.blockHash.toList ++ Hex.ofNat eth1Data.depositCount ++ Hex.ofBytes eth1Data.depositRoot.toList

/-! ## The most frequent elements -/

structure ElementDescription where
  index : Nat
  count : Nat

section MostFrequent

variable {T : Type} (hashTreeRoot : T → Root)

def countElement (hashMap : OrderedMap String ElementDescription) (entry : T × Nat) : OrderedMap String ElementDescription :=
  let hash := Hex.ofBytes (hashTreeRoot entry.1).toList
  match hashMap.get? hash with
  | some desc => hashMap.set hash { desc with count := desc.count + 1 }
  | none => hashMap.set hash { count := 1, index := entry.2 }

def keepMost (array : List T) (found : Nat × List T) (elem : ElementDescription) : Nat × List T :=
  if elem.count > found.1 then (elem.count, array[elem.index]?.toList)
  else if elem.count = found.1 then (found.1, found.2 ++ array[elem.index]?.toList)
  else found

def mostFrequent (array : List T) : List T :=
  let hashMap := array.zipIdx.foldl (countElement hashTreeRoot) OrderedMap.empty
  ((hashMap.entries.map (·.2)).foldl (keepMost array) (0, [])).2

end MostFrequent

/-- `undefined` is none: the places of the ties are those of no vote, or of the greatest index. -/
def pickEth1Vote (hashTreeRoot : Eth1Data → Root) (state : BeaconState P) (votesToConsider : List Eth1Data) :
    Option Eth1Data :=
  let votesToConsiderHashMap := votesToConsider.map serializeEth1Data
  let validVotes := state.eth1DataVotes.filter fun eth1Data => decide (serializeEth1Data eth1Data ∈ votesToConsiderHashMap)
  if validVotes.length > 0 then
    let frequentVotes := mostFrequent hashTreeRoot validVotes
    if frequentVotes.length = 1 then frequentVotes[0]?
    else
      let indices := frequentVotes.map fun vote => validVotes.findIdx? fun eth1Data => decide (vote = eth1Data)
      -- an index of minus one is none, and so is the maximum of no index
      (indices.foldl max none).bind fun index => validVotes[index]?
  else some (votesToConsider.getLast?.getD state.eth1Data)

/-! ## What is picked -/

theorem serializeEth1Data_inj {eth1Data eth1Data' : Eth1Data} (h : serializeEth1Data eth1Data = serializeEth1Data eth1Data') :
    eth1Data = eth1Data' := by
  have hlength : ∀ root : Root, (Hex.ofBytes root.toList).toList.length = 66 := by
    intro root
    rw [Hex.length_ofBytes, Vector.length_toList]
  unfold serializeEth1Data at h
  have hlist := congrArg String.toList h
  rw [String.toList_append, String.toList_append, String.toList_append, String.toList_append] at hlist
  obtain ⟨hfront, hroot⟩ := List.append_inj' hlist (by rw [hlength, hlength])
  obtain ⟨hhash, hcount⟩ := List.append_inj hfront (by rw [hlength, hlength])
  unfold Hex.ofNat at hcount
  rw [String.toList_ofList, String.toList_ofList] at hcount
  have hroots : ∀ {root root' : Root}, (Hex.ofBytes root.toList).toList = (Hex.ofBytes root'.toList).toList → root = root' :=
    fun heq => Vector.toList_inj.1 (Hex.ofBytes_inj (String.toList_inj.1 heq))
  rw [Eth1Data.mk.injEq]
  exact ⟨hroots hroot, Hex.toDigits_inj hcount, hroots hhash⟩

section MostFrequent

variable {T : Type} {hashTreeRoot : T → Root}

/-- A description of the map counts at least one element, and has the place of one. -/
def Describes (array : List T) (hashMap : OrderedMap String ElementDescription) : Prop :=
  ∀ entry ∈ hashMap.entries, 0 < entry.2.count ∧ entry.2.index < array.length

variable {array : List T}

theorem countElement_describes {hashMap : OrderedMap String ElementDescription} {entry : T × Nat} (hentry : entry.2 < array.length)
    (h : Describes array hashMap) :
    Describes array (countElement hashTreeRoot hashMap entry) := by
  intro e he
  unfold countElement at he
  dsimp only at he
  split at he
  · rename_i desc hdesc
    rcases OrderedMap.mem_set he with rfl | he
    · exact ⟨Nat.succ_pos _, (h _ (OrderedMap.get?_eq_some_iff.1 hdesc)).2⟩
    · exact h e he
  · rcases OrderedMap.mem_set he with rfl | he
    · exact ⟨Nat.one_pos, hentry⟩
    · exact h e he

theorem countElement_entries_ne_nil (hashMap : OrderedMap String ElementDescription) (entry : T × Nat) :
    (countElement hashTreeRoot hashMap entry).entries ≠ [] := by
  unfold countElement
  dsimp only
  split <;> exact List.ne_nil_of_mem (OrderedMap.mem_set_self _ _ _)

theorem foldl_keepMost : ∀ (elems : List ElementDescription) (found : Nat × List T),
    (∀ elem ∈ elems, 0 < elem.count ∧ elem.index < array.length) → (∀ x ∈ found.2, x ∈ array) →
    (elems ≠ [] ∧ found.1 = 0 ∨ found.2 ≠ []) →
    (∀ x ∈ (elems.foldl (keepMost array) found).2, x ∈ array) ∧ (elems.foldl (keepMost array) found).2 ≠ []
  | [], found, _, hfound, hne => ⟨hfound, by simpa using hne⟩
  | elem :: elems, found, helems, hfound, hne => by
    obtain ⟨hcount, hindex⟩ := helems elem List.mem_cons_self
    have helem : array[elem.index]?.toList = [array[elem.index]] := by
      rw [List.getElem?_eq_getElem hindex]
      rfl
    have hmem : array[elem.index] ∈ array := List.getElem_mem hindex
    refine foldl_keepMost elems _ (fun e he => helems e (List.mem_cons_of_mem _ he)) ?_ (.inr ?_)
    · intro x hx
      unfold keepMost at hx
      rw [helem] at hx
      split at hx
      · rw [List.mem_singleton.1 hx]
        exact hmem
      · split at hx
        · rcases List.mem_append.1 hx with hx | hx
          · exact hfound x hx
          · rw [List.mem_singleton.1 hx]
            exact hmem
        · exact hfound x hx
    · unfold keepMost
      rw [helem]
      split
      · simp
      · rename_i hle
        split
        · simp
        · rename_i hother
          rcases hne with ⟨-, hzero⟩ | hne
          · omega
          · exact hne

theorem mostFrequent_spec (h : array ≠ []) :
    (∀ x ∈ mostFrequent hashTreeRoot array, x ∈ array) ∧ mostFrequent hashTreeRoot array ≠ [] := by
  have hplace : ∀ entry ∈ array.zipIdx, entry.2 < array.length := fun entry hentry => List.snd_lt_of_mem_zipIdx hentry
  have hdescribes : Describes array (array.zipIdx.foldl (countElement hashTreeRoot) OrderedMap.empty) :=
    List.foldlRecOn array.zipIdx _ (fun entry hentry => absurd hentry List.not_mem_nil) fun hashMap hmap entry hentry =>
      countElement_describes (hplace entry hentry) hmap
  have hne : (array.zipIdx.foldl (countElement hashTreeRoot) OrderedMap.empty).entries ≠ [] := by
    obtain ⟨init, last, hinit⟩ := (List.eq_nil_or_concat array.zipIdx).resolve_left (by simpa using h)
    rw [hinit, List.concat_eq_append, List.foldl_concat]
    exact countElement_entries_ne_nil _ _
  refine foldl_keepMost _ _ (fun elem helem => ?_) (fun x hx => absurd hx List.not_mem_nil) (.inl ⟨by simpa using hne, rfl⟩)
  obtain ⟨entry, hentry, rfl⟩ := List.mem_map.1 helem
  exact hdescribes entry hentry

end MostFrequent

theorem foldl_max_lt {n : Nat} : ∀ (indices : List (Option Nat)) (greatest : Option Nat),
    (∀ index ∈ indices, ∃ i, index = some i ∧ i < n) → (∀ i ∈ greatest, i < n) → (indices ≠ [] ∨ greatest ≠ none) →
    ∃ i, indices.foldl max greatest = some i ∧ i < n
  | [], greatest, _, hgreatest, hne => by
    obtain ⟨i, hi⟩ := Option.ne_none_iff_exists'.1 (hne.resolve_left fun h => h rfl)
    exact ⟨i, hi, hgreatest i hi⟩
  | index :: indices, greatest, hindices, hgreatest, _ => by
    obtain ⟨j, rfl, hj⟩ := hindices index List.mem_cons_self
    have hrest : ∀ index ∈ indices, ∃ i, index = some i ∧ i < n := fun index h => hindices index (List.mem_cons_of_mem _ h)
    cases greatest with
    | none => exact foldl_max_lt indices (some j) hrest (fun i hi => by cases hi; exact hj) (.inr (by simp))
    | some i =>
      have hi := hgreatest i rfl
      refine foldl_max_lt indices (some (max i j)) hrest (fun k hk => ?_) (.inr (by simp))
      cases hk
      omega

theorem pickEth1Vote_spec (hashTreeRoot : Eth1Data → Root) (state : BeaconState P) (votesToConsider : List Eth1Data) :
    ∃ vote, pickEth1Vote hashTreeRoot state votesToConsider = some vote ∧
      (vote ∈ votesToConsider ∨ vote = state.eth1Data) := by
  unfold pickEth1Vote
  dsimp only
  generalize hvalid : state.eth1DataVotes.filter
    (fun eth1Data => decide (serializeEth1Data eth1Data ∈ votesToConsider.map serializeEth1Data)) = validVotes
  have hconsidered : ∀ vote ∈ validVotes, vote ∈ votesToConsider := by
    intro vote hvote
    rw [← hvalid, List.mem_filter, decide_eq_true_eq, List.mem_map] at hvote
    obtain ⟨-, considered, hmem, hserialized⟩ := hvote
    exact serializeEth1Data_inj hserialized ▸ hmem
  by_cases hlength : validVotes.length > 0
  · rw [if_pos hlength]
    obtain ⟨hfrequent, hne⟩ := @mostFrequent_spec _ hashTreeRoot validVotes (List.ne_nil_of_length_pos hlength)
    by_cases hone : (mostFrequent hashTreeRoot validVotes).length = 1
    · rw [if_pos hone]
      obtain ⟨vote, hvote⟩ := List.length_eq_one_iff.1 hone
      rw [hvote] at hfrequent ⊢
      exact ⟨vote, rfl, .inl (hconsidered vote (hfrequent vote List.mem_cons_self))⟩
    · rw [if_neg hone]
      obtain ⟨index, hindex, hlt⟩ := @foldl_max_lt validVotes.length ((mostFrequent hashTreeRoot validVotes).map fun vote =>
        validVotes.findIdx? fun eth1Data => decide (vote = eth1Data)) none (by
          intro index hindex
          obtain ⟨vote, hvote, rfl⟩ := List.mem_map.1 hindex
          cases hfind : validVotes.findIdx? fun eth1Data => decide (vote = eth1Data) with
          | none => simpa using List.findIdx?_eq_none_iff.1 hfind vote (hfrequent vote hvote)
          | some i => exact ⟨i, rfl, (List.findIdx?_eq_some_iff_findIdx_eq.1 hfind).1⟩) (by simp) (.inl (by simpa using hne))
      rw [hindex]
      exact ⟨validVotes[index], List.getElem?_eq_getElem hlt, .inl (hconsidered _ (List.getElem_mem hlt))⟩
  · rw [if_neg hlength]
    refine ⟨_, rfl, ?_⟩
    cases hlast : votesToConsider.getLast? with
    | none => exact .inr rfl
    | some vote => exact .inl (List.mem_of_getLast? hlast)

end Lodestar.Eth1
