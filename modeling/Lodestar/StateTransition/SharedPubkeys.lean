import Lodestar.Lib.KeyIndex
import Lodestar.Lib.Runs
import Lodestar.StateTransition.EffectiveBalances
import Lodestar.StateTransition.EpochCache
/-!
# SharedPubkeys — states that share one cache of public keys

A copy of a cached state has the maps of public keys of the state it is a copy of, and a state loaded beside it adds to them.  So
the maps know validators that one of the states has not added yet.  `processDeposit` leaves out the places past the end of its own
registry.

As long as of any two registries one starts the other, the maps index the longest registry, and a deposit finds in them what a scan
of its own validators finds (`processDeposit_scans`).
-/
namespace Lodestar.StateTransition

open Lib Runs

variable {P : Preset}

def BeaconState.pubkeys (state : BeaconState P) : List BLSPubkey := state.validators.map Validator.pubkey

/-! ## The deposit that scans -/

/-- **What a deposit is to do**: a validator of the state with its public key is topped up, and else a deposit that is signed with
the key adds one. -/
def scanDeposit (env : Env P) (fork : ForkName) (state : CachedBeaconState P) (deposit : Deposit) :
    Except String (CachedBeaconState P) := do
  check (← verifyMerkleBranch env (env.depositDataRoot deposit.data) deposit.proof (DEPOSIT_CONTRACT_TREE_DEPTH + 1)
    state.eth1DepositIndex state.eth1Data.depositRoot) "Deposit has invalid merkle proof"
  let state := { state with eth1DepositIndex := state.eth1DepositIndex + 1 }
  match state.pubkeys.findIdx? fun pubkey => decide (pubkey = deposit.data.pubkey) with
  | none =>
    if env.publicKeyFromBytes deposit.data.pubkey true && env.verifyDepositSignature deposit.data
    then addValidator env fork state deposit.data
    else pure state
  | some index => increaseBalance state index deposit.data.amount

/-! ## Families -/

/-- All states that share two maps of public keys. -/
structure Family (P : Preset) where
  pubkey2index : OrderedMap BLSPubkey Nat
  index2pubkey : List (Option BLSPubkey)
  states : List (CachedBeaconState P)

namespace Family

variable {env : Env P} {family family' : Family P} {registry : List BLSPubkey}

def empty : Family P := { pubkey2index := .empty, index2pubkey := [], states := [] }

def attach (family : Family P) (state : CachedBeaconState P) : CachedBeaconState P :=
  { state with epochCtx :=
    { state.epochCtx with pubkey2index := family.pubkey2index, index2pubkey := family.index2pubkey } }

inductive Event (P : Preset)
  | join (state : CachedBeaconState P)
  | clone (i : Nat)
  | processDeposit (i : Nat) (fork : ForkName) (deposit : Deposit)

/-- A call that throws is no step. -/
def next (env : Env P) (event : Event P) (family : Family P) : Option (Family P) :=
  match event with
  | .join state =>
    match syncPubkeys env state.toBeaconState family.pubkey2index family.index2pubkey with
    | .error _ => none
    | .ok keys => some { pubkey2index := keys.1, index2pubkey := keys.2, states := family.states ++ [state] }
  | .clone i => family.states[i]?.map fun state => { family with states := family.states ++ [state] }
  | .processDeposit i fork deposit =>
    match family.states[i]? with
    | none => none
    | some state =>
      match StateTransition.processDeposit env fork (family.attach state) deposit with
      | .error _ => none
      | .ok state =>
        some { pubkey2index := state.epochCtx.pubkey2index, index2pubkey := state.epochCtx.index2pubkey
               states := family.states.set i state }

def registries (family : Family P) : List (List BLSPubkey) := family.states.map fun state => state.pubkeys

/-- Of any two registries, one starts the other. -/
def Comparable (family : Family P) : Prop := ∀ a ∈ family.registries, ∀ b ∈ family.registries, a <+: b ∨ b <+: a

instance (family : Family P) : Decidable family.Comparable :=
  inferInstanceAs (Decidable (∀ a ∈ family.registries, ∀ b ∈ family.registries, _))

structure InSync (family : Family P) (registry : List BLSPubkey) : Prop where
  index : Indexes family.pubkey2index registry
  keys : family.index2pubkey = registry.map some
  starts : ∀ keys ∈ family.registries, keys <+: registry
  longest : registry = [] ∨ registry ∈ family.registries

/-! ## What the maps find -/

variable {state : CachedBeaconState P}

theorem InSync.processDeposit_eq (h : family.InSync registry) (hstate : state ∈ family.states) (fork : ForkName) (deposit : Deposit) :
    StateTransition.processDeposit env fork (family.attach state) deposit = scanDeposit env fork (family.attach state) deposit := by
  have hfind := h.index.filter_eq (h.starts _ (List.mem_map_of_mem hstate)) deposit.data.pubkey
  have hlength : state.pubkeys.length = state.validators.length := List.length_map _
  rw [hlength] at hfind
  unfold StateTransition.processDeposit scanDeposit attach
  dsimp only
  rw [hfind]
  rfl

/-! ## Keys that are added -/

theorem setWithHoles_known {α : Type} {l : List α} {index : Nat} {value : α} (h : l[index]? = some value) :
    setWithHoles (l.map some) index value = l.map some := by
  obtain ⟨hlt, hvalue⟩ := List.getElem?_eq_some_iff.1 h
  unfold setWithHoles
  rw [if_pos (by simpa using hlt)]
  apply List.ext_getElem (by simp)
  intro i h₁ h₂
  rw [List.getElem_set]
  split
  · rename_i heq
    subst heq
    simp [hvalue]
  · rfl

theorem syncPubkeys_fold : ∀ (back : List Validator) (registry : List BLSPubkey)
    (keys keys' : OrderedMap BLSPubkey Nat × List (Option BLSPubkey)), Indexes keys.1 registry → keys.2 = registry.map some →
    (registry ++ back.map Validator.pubkey).Nodup →
    (back.zipIdx registry.length).foldlM (fun keys entry => do
      check (env.publicKeyFromBytes entry.1.pubkey false) "invalid public key"
      pure (keys.1.set entry.1.pubkey entry.2, keys.2 ++ [some entry.1.pubkey])) keys = .ok keys' →
    Indexes keys'.1 (registry ++ back.map Validator.pubkey) ∧ keys'.2 = (registry ++ back.map Validator.pubkey).map some
  | [], registry, keys, keys', hindex, hkeys, _, hfold => by
    rw [List.zipIdx_nil, List.foldlM_nil, pure_eq_ok] at hfold
    subst hfold
    rw [List.map_nil, List.append_nil]
    exact ⟨hindex, hkeys⟩
  | validator :: back, registry, keys, keys', hindex, hkeys, hnodup, hfold => by
    rw [List.zipIdx_cons, List.foldlM_cons] at hfold
    simp only [bind_eq_ok, pure_eq_ok] at hfold
    obtain ⟨next, ⟨_, -, rfl⟩, hrest⟩ := hfold
    have happend : registry ++ (validator :: back).map Validator.pubkey =
        (registry ++ [validator.pubkey]) ++ back.map Validator.pubkey := by simp
    have hnew : validator.pubkey ∉ registry := by
      rw [List.map_cons, List.nodup_append] at hnodup
      intro hmem
      exact hnodup.2.2 _ hmem _ List.mem_cons_self rfl
    rw [happend] at hnodup ⊢
    refine syncPubkeys_fold back (registry ++ [validator.pubkey])
      (keys.1.set validator.pubkey registry.length, keys.2 ++ [some validator.pubkey]) keys' (hindex.set_new hnew) ?_ hnodup ?_
    · rw [hkeys, List.map_append]
      rfl
    · rw [List.length_append, List.length_singleton]
      exact hrest

variable {m : OrderedMap BLSPubkey Nat} {l : List (Option BLSPubkey)} {keys : OrderedMap BLSPubkey Nat × List (Option BLSPubkey)}

theorem syncPubkeys_longer {state : BeaconState P} (hindex : Indexes m registry) (hkeys : l = registry.map some)
    (hstarts : registry <+: state.pubkeys) (hnodup : state.pubkeys.Nodup) (hsync : syncPubkeys env state m l = .ok keys) :
    Indexes keys.1 state.pubkeys ∧ keys.2 = state.pubkeys.map some := by
  obtain ⟨rest, hrest⟩ := hstarts
  have hback : (state.validators.drop registry.length).map Validator.pubkey = rest := by
    have hdrop := congrArg (List.drop registry.length) hrest
    rw [List.drop_left] at hdrop
    rw [List.map_drop]
    exact hdrop.symm
  unfold syncPubkeys at hsync
  simp only [bind_eq_ok] at hsync
  obtain ⟨_, -, hfold⟩ := hsync
  have hle : registry.length ≤ state.validators.length := by
    have hlength := congrArg List.length hrest
    unfold BeaconState.pubkeys at hlength
    rw [List.length_append, List.length_map] at hlength
    omega
  have hentries : state.validators.zipIdx.drop registry.length =
      (state.validators.drop registry.length).zipIdx registry.length := by
    have htake : (state.validators.take registry.length).length = registry.length := List.length_take_of_le hle
    conv_lhs => rw [← List.take_append_drop registry.length state.validators]
    rw [List.zipIdx_append, List.drop_left' (by rw [List.length_zipIdx, htake]), htake, Nat.zero_add]
  rw [hindex.size, hentries] at hfold
  have hadded := syncPubkeys_fold _ registry (m, l) keys hindex hkeys (by rw [hback, hrest]; exact hnodup) hfold
  rw [hback, hrest] at hadded
  exact hadded

theorem syncPubkeys_shorter {state : BeaconState P} (hindex : Indexes m registry) (hstarts : state.pubkeys <+: registry)
    (hsync : syncPubkeys env state m l = .ok keys) : keys = (m, l) := by
  have hle : state.validators.length ≤ m.size := by
    have hlength := hstarts.length_le
    unfold BeaconState.pubkeys at hlength
    rw [List.length_map] at hlength
    rw [hindex.size]
    exact hlength
  unfold syncPubkeys at hsync
  simp only [bind_eq_ok] at hsync
  obtain ⟨_, -, hfold⟩ := hsync
  rw [List.drop_eq_nil_of_le (by rw [List.length_zipIdx]; exact hle), List.foldlM_nil, pure_eq_ok] at hfold
  exact hfold.symm

variable {fork : ForkName} {deposit : Deposit}

theorem scanDeposit_pubkeys {state state' : CachedBeaconState P} (h : scanDeposit env fork state deposit = .ok state') :
    (state'.pubkeys = state.pubkeys ∧ state'.epochCtx = state.epochCtx) ∨
      (deposit.data.pubkey ∉ state.pubkeys ∧ state'.pubkeys = state.pubkeys ++ [deposit.data.pubkey] ∧
        state'.epochCtx.pubkey2index = state.epochCtx.pubkey2index.set deposit.data.pubkey state.pubkeys.length ∧
        state'.epochCtx.index2pubkey = setWithHoles state.epochCtx.index2pubkey state.pubkeys.length deposit.data.pubkey) := by
  unfold scanDeposit at h
  simp only [bind_eq_ok] at h
  obtain ⟨_, -, _, -, h⟩ := h
  split at h
  · rename_i hfind
    split at h
    · right
      have hnew : deposit.data.pubkey ∉ state.pubkeys := by
        intro hmem
        have hno := List.findIdx?_eq_none_iff.1 hfind _ hmem
        simp at hno
      have hlength : state.pubkeys.length = state.validators.length := List.length_map _
      unfold addValidator EpochContext.addPubkey at h
      simp only [bind_eq_ok, pure_eq_ok] at h
      obtain ⟨epochCtx, ⟨_, -, rfl⟩, rfl⟩ := h
      refine ⟨hnew, ?_, ?_, ?_⟩
      · unfold BeaconState.pubkeys
        rw [List.map_append]
        rfl
      · simp [hlength]
      · simp [hlength]
    · rw [pure_eq_ok] at h
      subst h
      exact .inl ⟨rfl, rfl⟩
  · obtain ⟨_, -, rfl⟩ := increaseBalance_ok h
    exact .inl ⟨rfl, rfl⟩

/-! ## Steps -/

variable {keys : List BLSPubkey}

theorem InSync.comparable (h : family.InSync registry)
    (hcomparable : ∀ other ∈ family.registries, keys <+: other ∨ other <+: keys) : keys <+: registry ∨ registry <+: keys := by
  rcases h.longest with rfl | hmem
  · exact .inr List.nil_prefix
  · exact hcomparable registry hmem

theorem InSync.join (h : family.InSync registry) (hnodup : state.pubkeys.Nodup)
    (hnext : next env (.join state) family = some family') (hcomparable : family'.Comparable) :
    ∃ longest, family'.InSync longest := by
  unfold next at hnext
  dsimp only at hnext
  cases hsync : syncPubkeys env state.toBeaconState family.pubkey2index family.index2pubkey with
  | error e =>
    rw [hsync] at hnext
    cases hnext
  | ok keys =>
    rw [hsync] at hnext
    cases hnext
    have hregistries :
        ({ pubkey2index := keys.1, index2pubkey := keys.2, states := family.states ++ [state] } : Family P).registries =
          family.registries ++ [state.pubkeys] := by
      unfold registries
      rw [List.map_append]
      rfl
    have hall : ∀ other ∈ family.registries, state.pubkeys <+: other ∨ other <+: state.pubkeys := by
      intro other hother
      apply hcomparable
      · rw [hregistries]
        simp
      · rw [hregistries]
        exact List.mem_append_left _ hother
    rcases h.comparable hall with hshorter | hlonger
    · have hkeys := syncPubkeys_shorter h.index hshorter hsync
      subst hkeys
      refine ⟨registry, h.index, h.keys, ?_, ?_⟩
      · rw [hregistries, List.forall_mem_append, List.forall_mem_singleton]
        exact ⟨h.starts, hshorter⟩
      · rw [hregistries]
        exact h.longest.imp_right (List.mem_append_left _)
    · obtain ⟨hindex, hkeys⟩ := syncPubkeys_longer h.index h.keys hlonger hnodup hsync
      refine ⟨state.pubkeys, hindex, hkeys, ?_, ?_⟩
      · rw [hregistries, List.forall_mem_append, List.forall_mem_singleton]
        exact ⟨fun other hother => (h.starts other hother).trans hlonger, List.prefix_refl _⟩
      · rw [hregistries]
        simp

variable {i : Nat}

theorem InSync.clone (h : family.InSync registry) (hnext : next env (.clone i) family = some family') :
    family'.InSync registry := by
  obtain ⟨state, hstate, rfl⟩ := Option.map_eq_some_iff.1 hnext
  have hregistries : ({ family with states := family.states ++ [state] } : Family P).registries =
      family.registries ++ [state.pubkeys] := by
    unfold registries
    rw [List.map_append]
    rfl
  refine ⟨h.index, h.keys, ?_, ?_⟩
  · rw [hregistries, List.forall_mem_append, List.forall_mem_singleton]
    exact ⟨h.starts, h.starts _ (List.mem_map_of_mem (List.mem_of_getElem? hstate))⟩
  · rw [hregistries]
    exact h.longest.imp_right (List.mem_append_left _)

theorem InSync.add (h : family.InSync registry) {pubkey : BLSPubkey} (hi : family.registries[i]? = some keys)
    (hnew : pubkey ∉ keys) (hregistries : family'.registries = family.registries.set i (keys ++ [pubkey]))
    (hindex : family'.pubkey2index = family.pubkey2index.set pubkey keys.length)
    (hkeys : family'.index2pubkey = setWithHoles family.index2pubkey keys.length pubkey) (hcomparable : family'.Comparable) :
    ∃ longest, family'.InSync longest := by
  have hstart := h.starts keys (List.mem_of_getElem? hi)
  have hlt := (List.getElem?_eq_some_iff.1 hi).1
  have hadded : keys ++ [pubkey] ∈ family'.registries := by
    rw [hregistries]
    exact List.mem_of_getElem? (List.getElem?_set_self hlt)
  by_cases hlength : keys.length = registry.length
  · -- the registry was the longest
    obtain rfl := hstart.eq_of_length hlength
    refine ⟨keys ++ [pubkey], ?_, ?_, ?_, .inr hadded⟩
    · rw [hindex]
      exact h.index.set_new hnew
    · rw [hkeys, h.keys, setWithHoles]
      simp
    · intro other hother
      rw [hregistries] at hother
      rcases List.mem_or_eq_of_mem_set hother with hother | rfl
      · exact (h.starts other hother).trans (List.prefix_append _ _)
      · exact List.prefix_refl _
  · -- another state has the longest one
    have hshorter : keys.length < registry.length := lt_of_le_of_ne hstart.length_le hlength
    have hlongest : registry ∈ family.registries := by
      rcases h.longest with rfl | hmem
      · simp at hshorter
      · exact hmem
    obtain ⟨j, hj⟩ := List.getElem?_of_mem hlongest
    have hne : i ≠ j := by
      rintro rfl
      rw [hi] at hj
      exact hlength (congrArg List.length (Option.some.inj hj))
    have hkept : registry ∈ family'.registries := by
      rw [hregistries]
      apply List.mem_of_getElem? (i := j)
      rw [List.getElem?_set_ne hne]
      exact hj
    have hprefix : keys ++ [pubkey] <+: registry := by
      rcases hcomparable _ hadded _ hkept with hprefix | hprefix
      · exact hprefix
      · have hle := hprefix.length_le
        rw [List.length_append, List.length_singleton] at hle
        have heq : registry = keys ++ [pubkey] :=
          hprefix.eq_of_length (by rw [List.length_append, List.length_singleton]; omega)
        exact ⟨[], by rw [List.append_nil, heq]⟩
    have hplace : registry[keys.length]? = some pubkey := by
      obtain ⟨rest, hrest⟩ := hprefix
      rw [← hrest]
      simp
    refine ⟨registry, ?_, ?_, ?_, .inr hkept⟩
    · rw [hindex]
      exact h.index.set_known hplace
    · rw [hkeys, h.keys, setWithHoles_known hplace]
    · intro other hother
      rw [hregistries] at hother
      rcases List.mem_or_eq_of_mem_set hother with hother | rfl
      · exact h.starts other hother
      · exact hprefix

theorem set_known_registry {registries : List (List BLSPubkey)} (h : registries[i]? = some keys) :
    registries.set i keys = registries := by
  obtain ⟨hlt, rfl⟩ := List.getElem?_eq_some_iff.1 h
  exact List.set_getElem_self hlt

theorem InSync.processDeposit (h : family.InSync registry) (hnext : next env (.processDeposit i fork deposit) family = some family')
    (hcomparable : family'.Comparable) :
    ∃ longest, family'.InSync longest := by
  unfold next at hnext
  dsimp only at hnext
  cases hstate : family.states[i]? with
  | none =>
    rw [hstate] at hnext
    cases hnext
  | some state =>
    rw [hstate] at hnext
    dsimp only at hnext
    have hmem := List.mem_of_getElem? hstate
    have hi : family.registries[i]? = some state.pubkeys := by
      unfold registries
      rw [List.getElem?_map, hstate]
      rfl
    cases hresult : StateTransition.processDeposit env fork (family.attach state) deposit with
    | error e =>
      rw [hresult] at hnext
      cases hnext
    | ok state' =>
      rw [hresult] at hnext
      cases hnext
      rw [h.processDeposit_eq hmem] at hresult
      have hregistries : (family.states.set i state').map (fun state => state.pubkeys) =
          family.registries.set i state'.pubkeys := by
        rw [List.map_set]
        rfl
      rcases scanDeposit_pubkeys hresult with ⟨hsame, hctx⟩ | ⟨hnew, hadded, hindex, hkeys⟩
      · have hpubkeys : state'.pubkeys = state.pubkeys := hsame
        rw [hpubkeys, set_known_registry hi] at hregistries
        refine ⟨registry, ?_, ?_, ?_, ?_⟩
        · rw [hctx]
          exact h.index
        · rw [hctx]
          exact h.keys
        · unfold registries
          rw [hregistries]
          exact h.starts
        · unfold registries
          rw [hregistries]
          exact h.longest
      · refine h.add hi hnew ?_ hindex hkeys hcomparable
        unfold registries
        rw [hregistries, hadded]
        rfl

/-! ## Runs -/

def JoinsDistinct : Event P → Prop
  | .join state => state.pubkeys.Nodup
  | _ => True

instance (event : Event P) : Decidable (JoinsDistinct event) :=
  match event with
  | .join state => inferInstanceAs (Decidable state.pubkeys.Nodup)
  | .clone _ => isTrue trivial
  | .processDeposit _ _ _ => isTrue trivial

theorem InSync.next {event : Event P} (h : family.InSync registry) (hnext : next env event family = some family')
    (hdistinct : JoinsDistinct event) (hcomparable : family'.Comparable) : ∃ longest, family'.InSync longest := by
  cases event with
  | join state => exact h.join hdistinct hnext hcomparable
  | clone i => exact ⟨registry, h.clone hnext⟩
  | processDeposit i fork deposit => exact h.processDeposit hnext hcomparable

theorem empty_inSync : (empty : Family P).InSync [] :=
  ⟨Indexes.empty, rfl, fun _ hkeys => absurd hkeys List.not_mem_nil, .inl rfl⟩

theorem run_inSync {steps : List (Family P × Event P)} (hrun : Run (next env) empty steps family)
    (hdistinct : ∀ step ∈ steps, JoinsDistinct step.2) (hcomparable : ∀ member ∈ visited steps family, member.Comparable) :
    ∃ registry, family.InSync registry := by
  induction hrun with
  | refl => exact ⟨[], empty_inSync⟩
  | @step steps family family' event hrun hnext ih =>
    rw [List.forall_mem_append, List.forall_mem_singleton] at hdistinct
    rw [forall_visited_append] at hcomparable
    obtain ⟨registry, h⟩ := ih hdistinct.1 hcomparable.1
    exact h.next hnext hdistinct.2 hcomparable.2

/-- **Each deposit does what a scan of its own registry does**, in every family of states whose registries stay comparable. -/
theorem processDeposit_scans (env : Env P) {steps : List (Family P × Event P)} {family : Family P}
    (hrun : Run (next env) empty steps family) (hdistinct : ∀ step ∈ steps, JoinsDistinct step.2)
    (hcomparable : ∀ member ∈ visited steps family, member.Comparable) (fork : ForkName) (deposit : Deposit) :
    ∀ state ∈ family.states, StateTransition.processDeposit env fork (family.attach state) deposit =
      scanDeposit env fork (family.attach state) deposit := by
  obtain ⟨registry, h⟩ := run_inSync hrun hdistinct hcomparable
  exact fun state hstate => h.processDeposit_eq hstate fork deposit

def fourthDeposit : Deposit :=
  { proof := List.replicate 33 zeroRoot
    data :=
      { pubkey := Vector.replicate 48 4
        withdrawalCredentials := zeroRoot
        amount := 32000000000
        signature := Vector.replicate 96 0 } }

def copyDeposits : List (Event minimal) := [.join (slashedInEpoch8 0), .clone 0, .processDeposit 1 .phase0 fourthDeposit]

theorem processDeposit_scans_copyDeposits :
    let family := (exec (next (plainEnv minimal)) copyDeposits empty).2
    family.pubkey2index.get? fourthDeposit.data.pubkey = some 3 ∧
      StateTransition.processDeposit (plainEnv minimal) .phase0 (family.attach (slashedInEpoch8 0)) fourthDeposit =
        scanDeposit (plainEnv minimal) .phase0 (family.attach (slashedInEpoch8 0)) fourthDeposit := by
  have hrun := exec_run (next (plainEnv minimal)) copyDeposits empty
  have hmember : slashedInEpoch8 0 ∈ (exec (next (plainEnv minimal)) copyDeposits empty).2.states :=
    List.mem_of_getElem? (i := 0) rfl
  exact ⟨by decide +kernel,
    processDeposit_scans (plainEnv minimal) hrun (by decide +kernel) (by decide +kernel) .phase0 fourthDeposit _ hmember⟩

end Family

/-! ## Slots -/

section Slots

variable {env : Env P} {cfg : ChainConfig} {st : BeaconState P} {ctx ctx' : EpochContext} {s s' : CachedBeaconState P}

/-- The map beside a state knows the public keys of its validators. -/
def KnowsPubkeys (s : CachedBeaconState P) : Prop := s.pubkeys.map some <+: s.epochCtx.index2pubkey

theorem Family.InSync.knowsPubkeys {family : Family P} {registry : List BLSPubkey} (h : family.InSync registry)
    {state : CachedBeaconState P} (hstate : state ∈ family.states) : KnowsPubkeys (family.attach state) := by
  have hkeys : (family.attach state).epochCtx.index2pubkey = registry.map some := h.keys
  unfold KnowsPubkeys
  rw [hkeys]
  exact (h.starts _ (List.mem_map_of_mem hstate)).map some

theorem KnowsPubkeys.get (h : KnowsPubkeys s) {i : Nat} {v : Validator} (hv : s.validators[i]? = some v) :
    s.epochCtx.index2pubkey[i]? = some (some v.pubkey) := by
  have hkey : (s.pubkeys.map some)[i]? = some (some v.pubkey) := by
    unfold BeaconState.pubkeys
    rw [List.getElem?_map, List.getElem?_map, hv]
    rfl
  obtain ⟨rest, hrest⟩ := h
  rw [← hrest, List.getElem?_append_left (List.getElem?_eq_some_iff.1 hkey).1, hkey]

theorem syncPubkeys_index2pubkey {keys : OrderedMap BLSPubkey Nat × List (Option BLSPubkey)}
    (h : syncPubkeys env st .empty [] = .ok keys) : keys.2 = st.pubkeys.map some := by
  have hadded : ∀ (entries : List (Validator × Nat)) (keys keys' : OrderedMap BLSPubkey Nat × List (Option BLSPubkey)),
      entries.foldlM (fun keys entry => do
        check (env.publicKeyFromBytes entry.1.pubkey false) "invalid public key"
        pure (keys.1.set entry.1.pubkey entry.2, keys.2 ++ [some entry.1.pubkey])) keys = .ok keys' →
      keys'.2 = keys.2 ++ entries.map fun entry => some entry.1.pubkey := by
    intro entries
    induction entries with
    | nil =>
      intro keys keys' hfold
      rw [List.foldlM_nil, pure_eq_ok] at hfold
      rw [← hfold, List.map_nil, List.append_nil]
    | cons entry entries ih =>
      intro keys keys' hfold
      rw [List.foldlM_cons] at hfold
      simp only [bind_eq_ok, pure_eq_ok] at hfold
      obtain ⟨next, ⟨_, -, rfl⟩, hrest⟩ := hfold
      rw [ih _ _ hrest, List.map_cons, List.append_assoc, List.singleton_append]
  obtain ⟨_, -, hfold⟩ := bind_eq_ok.1 h
  rw [hadded _ _ _ hfold]
  have hvalidators : st.validators.zipIdx.map Prod.fst = st.validators := List.zipIdx_map_fst 0 _
  unfold BeaconState.pubkeys
  conv_rhs => rw [← hvalidators]
  rw [List.map_map, List.map_map]
  rfl

theorem createCachedBeaconState_knowsPubkeys (h : createCachedBeaconState env cfg st noOpts = .ok s) :
    s.pubkeys = st.pubkeys ∧ KnowsPubkeys s := by
  obtain ⟨hctx, _, _, _, hst⟩ := createCachedBeaconState_ok h
  have hpubkeys : s.pubkeys = st.pubkeys := congrArg (fun st => st.validators.map Validator.pubkey) hst
  refine ⟨hpubkeys, ?_⟩
  have hkeys : s.epochCtx.index2pubkey = st.pubkeys.map some := syncPubkeys_index2pubkey (createEpochContext_eq_ok.1 hctx).1
  unfold KnowsPubkeys
  simp only [hpubkeys, hkeys, List.prefix_refl]

theorem upgradeState_knowsPubkeys (h : upgradeState env cfg s = .ok s') : s'.pubkeys = s.pubkeys ∧ KnowsPubkeys s' := by
  refine ⟨congrArg (List.map Validator.pubkey) (upgradeState_keeps h).2.1, ?_⟩
  unfold upgradeState translateParticipation at h
  simp only [bind_eq_ok, pure_eq_ok] at h
  obtain ⟨_, -, postState, hpost, _, -, rfl⟩ := h
  exact (createCachedBeaconState_knowsPubkeys hpost).2

theorem rotateEpochs_index2pubkey (h : rotateEpochs env cfg ctx st = .ok ctx') : ctx'.index2pubkey = ctx.index2pubkey := by
  unfold rotateEpochs at h
  simp only [bind_eq_ok] at h
  obtain ⟨_, -, _, -, h⟩ := h
  split at h
  · simp only [bind_eq_ok, pure_eq_ok] at h
    obtain ⟨_, -, rfl⟩ := h
    rfl
  · rw [pure_eq_ok] at h
    rw [← h]

theorem pubkeys_of_aged {c : Nat} {l l' : List Validator} (h : Evolves (Aged c) (fun _ => False) l l') :
    l'.map Validator.pubkey = l.map Validator.pubkey := by
  apply List.ext_getElem?
  intro i
  rw [List.getElem?_map, List.getElem?_map]
  cases hv : l[i]? with
  | some v =>
    obtain ⟨v', hv', haged⟩ := h.old i v hv
    rw [hv', Option.map_some, Option.map_some, haged.pubkey]
  | none =>
    cases hv' : l'[i]? with
    | some v' => exact (h.new i v' hv' hv).elim
    | none => rfl

theorem advanceSlot_knowsPubkeys (h : advanceSlot env cfg s = .ok s') (hknows : KnowsPubkeys s) :
    s'.pubkeys = s.pubkeys ∧ KnowsPubkeys s' := by
  rcases advanceSlot_split h with ⟨-, rfl⟩ | ⟨t, ctx, -, htransition, -, hrotate, h⟩
  · exact ⟨rfl, hknows⟩
  · have hkeeps := processEpoch_keeps htransition rfl
    have hpubkeys : t.pubkeys = s.pubkeys := pubkeys_of_aged hkeeps.validators
    have hkeys : ctx.index2pubkey = s.epochCtx.index2pubkey := by
      rw [rotateEpochs_index2pubkey hrotate, hkeeps.epochCtx]
      rfl
    split at h
    · obtain ⟨hsame, hupgraded⟩ := upgradeState_knowsPubkeys h
      exact ⟨hsame.trans hpubkeys, hupgraded⟩
    · subst h
      refine ⟨hpubkeys, ?_⟩
      have hstarts : t.pubkeys.map some <+: ctx.index2pubkey := by
        rw [hpubkeys, hkeys]
        exact hknows
      exact hstarts

theorem processSlots_knowsPubkeys {slot : Nat} (h : processSlots env cfg s slot = .ok s') (hknows : KnowsPubkeys s) :
    s'.pubkeys = s.pubkeys ∧ KnowsPubkeys s' := by
  refine processSlots_keeps (I := fun t => t.pubkeys = s.pubkeys ∧ KnowsPubkeys t) (fun hstep hkept => ?_) h ⟨rfl, hknows⟩
  obtain ⟨hpubkeys, hknows⟩ := advanceSlot_knowsPubkeys hstep hkept.2
  exact ⟨hpubkeys.trans hkept.1, hknows⟩

end Slots

end Lodestar.StateTransition
