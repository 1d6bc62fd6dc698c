import Lodestar.Db.NumberKeys
import Lodestar.Db.Isolation
import Lodestar.ForkChoice.BlockSummaries
import Lodestar.ReqResp.Responses
/-!
# BlocksByRange — the blocks of a range of slots, served and checked

The handler reads the archive of finalized blocks and goes on from the last block it found there along the chain of the head.
The client checks the answer against its request.  The blocks served are those of the requested slots, in their order, and the
client accepts them.
-/
namespace Lodestar.ReqResp

open Lib Lib.SortedMap Db Db.BeaconDb
open scoped Lib.BigEndian

def GENESIS_SLOT : Nat := 0

def MAX_REQUEST_BLOCKS : Nat := 1024

/-- What both repositories of blocks hold, `allForks.SignedBeaconBlock`. -/
structure SignedBlocks (values : Values) where
  SignedBeaconBlock : Type
  ofBlock : values.Value .block → SignedBeaconBlock
  ofArchived : values.Value .blockArchive → SignedBeaconBlock
  slot : SignedBeaconBlock → Nat
  slot_ofArchived : ∀ value, slot (ofArchived value) = (values.archivedMessage value).slot

inductive HandlerError
  | ResponseError (status : RpcResponseStatusError) (errorMessage : String)
  | db (error : DbError)
  | protoArray (error : ProtoArrayError)
  | TypeError (message : String)
deriving DecidableEq

structure Served {values : Values} (blocks : SignedBlocks values) where
  yielded : List blocks.SignedBeaconBlock
  error : Option HandlerError

/-! ## The handler -/

section Handler

variable {values : Values} (codec : HexCodec) (blocks : SignedBlocks values) (fc : ForkChoice) (db : Store)

/-- `valuesStream` with `opts.step`; a value that does not decode ends the stream where it is taken. -/
def valuesStream (opts : FilterOptions Id) (step : Nat) :
    Except DbError (List (Except DbError (values.Value .blockArchive))) :=
  (BlockArchiveRepository.firstSlot ((blockArchive values).dbFilterOptions opts)).map fun (firstSlot : Nat) =>
    ((blockArchive values).valuesStream db opts).filter fun
      | .error _ => true
      | .ok value => ((values.archivedMessage value).slot - firstSlot : Int) % (if step = 0 then 1 else step : Nat) == 0

def takeStream {α : Type} : List (Except DbError α) → List α × Option DbError
  | [] => ([], none)
  | .error e :: _ => ([], some e)
  | .ok value :: stream => (value :: (takeStream stream).1, (takeStream stream).2)

/-- The loop from `slot` to `upperSlot`, in steps of at least one. -/
def slotsFrom (upperSlot step : Nat) : Nat → Nat → List Nat
  | 0, _ => []
  | fuel + 1, slot => if slot < upperSlot then slot :: slotsFrom upperSlot step fuel (slot + step) else []

/-- Returned blocks have the same ordering as `slots`. -/
def getUnfinalizedBlocksAtSlots (slots : List Nat) : Except HandlerError (List (values.Value .block)) :=
  if slots.length = 0 then .ok []
  else
    match fc.getHeadRoot codec with
    | none => .error (.TypeError "Cannot read property 'blockRoot' of undefined")
    | some headRoot =>
      match fc.iterateBlockSummaries codec headRoot with
      | .error e => .error (.protoArray e)
      | .ok summaries =>
        -- these blocks are on the same chain to head
        let blockRootsPerSlot := summaries.foldl (fun (blockRootsPerSlot : OrderedMap Nat (Except DbError _)) summary =>
          if summary.slot ∈ slots then
            blockRootsPerSlot.set summary.slot ((block values).get db (.bytes summary.blockRoot.toList))
          else blockRootsPerSlot) .empty
        match slots.mapM fun slot => (blockRootsPerSlot.get? slot).getD (.ok none) with
        | .error e => .error (.db e)
        | .ok unfinalizedBlocks => .ok (unfinalizedBlocks.filterMap id)

def injectRecentBlocks (archiveStream : List (Except DbError (values.Value .blockArchive)))
    (request : BeaconBlocksByRangeRequest) : Served blocks :=
  let archived := (takeStream archiveStream).1.map blocks.ofArchived
  match (takeStream archiveStream).2 with
  | some e => ⟨archived, some (.db e)⟩
  | none =>
    let slot := (archived.getLast?).elim request.startSlot fun archiveBlock => blocks.slot archiveBlock + request.step
    let upperSlot := request.startSlot + request.count * request.step
    match getUnfinalizedBlocksAtSlots codec fc db (slotsFrom upperSlot request.step (upperSlot - slot) slot) with
    | .error e => ⟨archived, some e⟩
    | .ok recent =>
      let yielded := archived ++ recent.map blocks.ofBlock
      ⟨yielded, if yielded.length = 0 then some (.ResponseError .RESOURCE_UNAVAILABLE "No block found") else none⟩

def clamped (request : BeaconBlocksByRangeRequest) : BeaconBlocksByRangeRequest :=
  if request.count > MAX_REQUEST_BLOCKS then { request with count := MAX_REQUEST_BLOCKS } else request

def onBeaconBlocksByRange (requestBody : BeaconBlocksByRangeRequest) : Served blocks :=
  if requestBody.step < 1 then ⟨[], some (.ResponseError .INVALID_REQUEST "step < 1")⟩
  else if requestBody.count < 1 then ⟨[], some (.ResponseError .INVALID_REQUEST "count < 1")⟩
  else if requestBody.startSlot < GENESIS_SLOT then ⟨[], some (.ResponseError .INVALID_REQUEST "startSlot < genesis")⟩
  else
    let requestBody := clamped requestBody
    match valuesStream db
      { gte := some (.number requestBody.startSlot)
        lt := some (.number (requestBody.startSlot + requestBody.count * requestBody.step)) } requestBody.step with
    | .error e => ⟨[], some (.db e)⟩
    | .ok archiveBlocksStream => injectRecentBlocks codec blocks fc db archiveBlocksStream requestBody

end Handler

/-! ## The client -/

inductive BlocksByRangeError
  | BAD_LENGTH (count length : Nat)
  | UNDER_START_SLOT (startSlot firstSlot : Nat)
  | OVER_MAX_SLOT (maxSlot lastSlot : Nat)
  | BAD_SEQUENCE (step slotL slotR : Nat)
deriving DecidableEq, Repr

def assertSequence (step : Nat) : List Nat → Except BlocksByRangeError Unit
  | slotL :: slotR :: slots =>
    if slotL + step > slotR then .error (.BAD_SEQUENCE step slotL slotR) else assertSequence step (slotR :: slots)
  | _ => .ok ()

def assertSequentialBlocksInRange (slots : List Nat) (request : BeaconBlocksByRangeRequest) :
    Except BlocksByRangeError Unit :=
  match slots.head?, slots.getLast? with
  | some firstSlot, some lastSlot =>
    let length := slots.length
    let maxSlot := request.startSlot + request.count * (if request.step = 0 then 1 else request.step) - 1
    if length > request.count then .error (.BAD_LENGTH request.count length)
    else if firstSlot < request.startSlot then .error (.UNDER_START_SLOT request.startSlot firstSlot)
    else if lastSlot > maxSlot then .error (.OVER_MAX_SLOT maxSlot lastSlot)
    else assertSequence request.step slots
  | _, _ => .ok ()

/-! ## Requested slots -/

/-- A slot of `{startSlot, startSlot + step, ..., startSlot + (count - 1) * step}`. -/
def Requested (request : BeaconBlocksByRangeRequest) (slot : Nat) : Prop :=
  ∃ k < request.count, slot = request.startSlot + k * request.step

/-- A request the handler does not refuse, over slots that are safe integers. -/
structure Valid (request : BeaconBlocksByRangeRequest) : Prop where
  step_pos : 1 ≤ request.step
  count_pos : 1 ≤ request.count
  safe : request.startSlot + (clamped request).count * request.step ≤ MAX_SAFE_INTEGER

section Requested

variable {request : BeaconBlocksByRangeRequest}

section

variable (request : BeaconBlocksByRangeRequest)

theorem count_clamped : (clamped request).count = min request.count MAX_REQUEST_BLOCKS := by
  unfold clamped
  split <;> simp <;> omega

theorem step_clamped : (clamped request).step = request.step := by
  unfold clamped
  split <;> rfl

theorem startSlot_clamped : (clamped request).startSlot = request.startSlot := by
  unfold clamped
  split <;> rfl

end

variable {slot slotL slotR upperSlot n j : Nat}

theorem Requested.of_clamped (h : Requested (clamped request) slot) : Requested request slot := by
  obtain ⟨k, hk, rfl⟩ := h
  rw [count_clamped] at hk
  exact ⟨k, by omega, by rw [step_clamped, startSlot_clamped]⟩

theorem Requested.add_step_le (hl : Requested request slotL) (hr : Requested request slotR) (hlt : slotL < slotR)
    : slotL + request.step ≤ slotR := by
  obtain ⟨k, -, rfl⟩ := hl
  obtain ⟨m, -, rfl⟩ := hr
  have hkm : k < m := by
    by_contra hge
    have := Nat.mul_le_mul_right request.step (Nat.not_lt.1 hge)
    omega
  have := Nat.mul_le_mul_right request.step hkm
  rw [Nat.succ_mul] at this
  omega

theorem assertSequence_ok : ∀ {slots : List Nat}, slots.Pairwise (· < ·) → (∀ slot ∈ slots, Requested request slot) →
    assertSequence request.step slots = .ok ()
  | [], _, _ => rfl
  | [_], _, _ => rfl
  | slotL :: slotR :: slots, hsorted, hreq => by
    have hlt : slotL < slotR := (List.pairwise_cons.1 hsorted).1 slotR List.mem_cons_self
    have hle := (hreq slotL List.mem_cons_self).add_step_le (hreq slotR (by simp)) hlt
    unfold assertSequence
    rw [if_neg (by omega)]
    exact assertSequence_ok (List.pairwise_cons.1 hsorted).2 fun slot hmem => hreq slot (List.mem_cons_of_mem _ hmem)

variable {slots : List Nat}

theorem length_le_count (hsorted : slots.Pairwise (· < ·)) (hreq : ∀ slot ∈ slots, Requested request slot) :
    slots.length ≤ request.count := by
  have hnodup : slots.Nodup := hsorted.imp Nat.ne_of_lt
  have hsubset : slots ⊆ (List.range request.count).map fun k => request.startSlot + k * request.step := by
    intro slot hslot
    obtain ⟨k, hk, rfl⟩ := hreq slot hslot
    exact List.mem_map.2 ⟨k, List.mem_range.2 hk, rfl⟩
  have := (hnodup.subperm hsubset).length_le
  simpa using this

variable (hstep : 1 ≤ request.step)

include hstep

theorem requested_iff : Requested request slot ↔
    (request.startSlot ≤ slot ∧ slot < request.startSlot + request.count * request.step) ∧
      ((slot - request.startSlot : Int) % request.step = 0) := by
  constructor
  · rintro ⟨k, hk, rfl⟩
    have hlt : k * request.step < request.count * request.step := Nat.mul_lt_mul_of_pos_right hk hstep
    refine ⟨⟨by omega, by omega⟩, ?_⟩
    push_cast
    simp
  · rintro ⟨⟨hlow, hhigh⟩, hmod⟩
    obtain ⟨offset, rfl⟩ := Nat.exists_eq_add_of_le hlow
    have hdvd : request.step ∣ offset := by
      have : (request.step : Int) ∣ (offset : Int) := by
        have := Int.dvd_of_emod_eq_zero hmod
        push_cast at this
        simpa using this
      exact Int.natCast_dvd_natCast.1 this
    obtain ⟨k, rfl⟩ := hdvd
    refine ⟨k, ?_, by rw [Nat.mul_comm]⟩
    rw [Nat.mul_comm request.count] at hhigh
    exact Nat.lt_of_mul_lt_mul_left (Nat.lt_of_add_lt_add_left hhigh)

theorem mem_slotsFrom : ∀ (fuel slot : Nat), upperSlot ≤ slot + fuel →
    (n ∈ slotsFrom upperSlot request.step fuel slot ↔ n < upperSlot ∧ ∃ k, n = slot + k * request.step)
  | 0, slot, hfuel => by
    constructor
    · intro h
      cases h
    · rintro ⟨hn, k, rfl⟩
      omega
  | fuel + 1, slot, hfuel => by
    unfold slotsFrom
    by_cases hlt : slot < upperSlot
    · rw [if_pos hlt, List.mem_cons, mem_slotsFrom fuel (slot + request.step) (by omega)]
      constructor
      · rintro (rfl | ⟨hn, k, rfl⟩)
        · exact ⟨hlt, 0, by omega⟩
        · exact ⟨hn, k + 1, by rw [Nat.succ_mul]; omega⟩
      · rintro ⟨hn, k, rfl⟩
        cases k with
        | zero => exact .inl (by omega)
        | succ k => exact .inr ⟨hn, k, by rw [Nat.succ_mul]; omega⟩
    · rw [if_neg hlt]
      constructor
      · intro h
        cases h
      · rintro ⟨hn, k, rfl⟩
        omega

theorem slotsFrom_sorted : ∀ (fuel slot : Nat), upperSlot ≤ slot + fuel →
    (slotsFrom upperSlot request.step fuel slot).Pairwise (· < ·)
  | 0, _, _ => List.Pairwise.nil
  | fuel + 1, slot, hfuel => by
    unfold slotsFrom
    by_cases hlt : slot < upperSlot
    · rw [if_pos hlt]
      refine List.pairwise_cons.2 ⟨fun n hn => ?_, slotsFrom_sorted fuel (slot + request.step) (by omega)⟩
      obtain ⟨-, k, rfl⟩ := (mem_slotsFrom hstep fuel _ (by omega)).1 hn
      omega
    · rw [if_neg hlt]
      exact List.Pairwise.nil

theorem mem_slotsFrom_requested (hslot : slot = request.startSlot + j * request.step) :
    n ∈ slotsFrom (request.startSlot + request.count * request.step) request.step
        (request.startSlot + request.count * request.step - slot) slot ↔ Requested request n ∧ slot ≤ n := by
  rw [mem_slotsFrom hstep _ _ (by omega)]
  constructor
  · rintro ⟨hn, k, rfl⟩
    refine ⟨⟨j + k, ?_, by rw [hslot, Nat.add_mul]; omega⟩, by omega⟩
    refine Nat.lt_of_mul_lt_mul_right (a := request.step) ?_
    rw [Nat.add_mul]
    omega
  · rintro ⟨⟨k, hk, rfl⟩, hle⟩
    have hlt : k * request.step < request.count * request.step := Nat.mul_lt_mul_of_pos_right hk hstep
    have hjk : j ≤ k := by
      by_contra hgt
      have := Nat.mul_lt_mul_of_pos_right (Nat.not_le.1 hgt) hstep
      omega
    obtain ⟨m, rfl⟩ := Nat.exists_eq_add_of_le hjk
    exact ⟨by omega, m, by rw [hslot, Nat.add_mul]; omega⟩

/-! ## The client accepts requested slots in order -/

theorem assertSequentialBlocksInRange_ok (hsorted : slots.Pairwise (· < ·)) (hreq : ∀ slot ∈ slots, Requested request slot) :
    assertSequentialBlocksInRange slots request = .ok () := by
  unfold assertSequentialBlocksInRange
  cases hhead : slots.head? with
  | none => rfl
  | some firstSlot =>
    cases hlast : slots.getLast? with
    | none => rfl
    | some lastSlot =>
      have hfirst := (requested_iff hstep).1 (hreq firstSlot (List.mem_of_mem_head? hhead))
      have hlast' := (requested_iff hstep).1 (hreq lastSlot (List.mem_of_mem_getLast? hlast))
      have hlen := length_le_count hsorted hreq
      dsimp only
      rw [if_neg (by omega), if_neg (by omega), if_neg (c := request.step = 0) (by omega), if_neg (by omega)]
      exact assertSequence_ok hsorted hreq

end Requested

/-! ## What is served -/

theorem filterMap_found {α β : Type} {P : α → β → Prop} {key : β → α} (hkey : ∀ a b, P a b → key b = a) :
    ∀ {l : List α} {found : List (Option β)}, List.Forall₂ (fun a o => ∀ b, o = some b ↔ P a b) l found →
      ((found.filterMap id).map key).Sublist l ∧ ∀ b, b ∈ found.filterMap id ↔ ∃ a ∈ l, P a b
  | _, _, .nil => ⟨List.Sublist.slnil, fun b => by simp⟩
  | _, _, .cons (a := a) (b := none) hfirst hall => by
    obtain ⟨hsub, hmem⟩ := filterMap_found hkey hall
    have hnot : ∀ b, ¬ P a b := fun b hb => by cases (hfirst b).2 hb
    refine ⟨hsub.cons a, fun b => ?_⟩
    rw [List.filterMap_cons_none rfl, hmem, List.exists_mem_cons_iff]
    simp [hnot]
  | _, _, .cons (a := a) (b := some first) hfirst hall => by
    obtain ⟨hsub, hmem⟩ := filterMap_found hkey hall
    have hab := (hfirst first).1 rfl
    refine ⟨?_, fun b => ?_⟩
    · show (key first :: _).Sublist _
      rw [hkey a first hab]
      exact hsub.cons_cons a
    · have heq : b = first ↔ P a b := by
        rw [← hfirst b, Option.some_inj, eq_comm]
      show b ∈ first :: _ ↔ _
      rw [List.mem_cons, List.exists_mem_cons_iff, heq, hmem]

section Stores

variable {values : Values} {codec : HexCodec} {blocks : SignedBlocks values} {fc : ForkChoice} {db : Store}

/-- What the node keeps: the archive holds finalized blocks under their slots, and the blocks of the head's chain that are not
finalized yet are newer than those and in the block database. -/
structure Kept (codec : HexCodec) (blocks : SignedBlocks values) (fc : ForkChoice) (db : Store) (rows : SortedMap Nat Buffer)
    (canonical : List BlockSummary) : Prop where
  archive : Rows (blockArchive values) db rows
  archived : ∀ e ∈ rows.entries, ∃ value, values.deserialize .blockArchive e.2 = .ok value ∧
    (values.archivedMessage value).slot = e.1
  wellFormed : fc.protoArray.WellFormed
  slotsIncrease : fc.protoArray.SlotsIncrease
  chain : ∃ headRoot, fc.getHeadRoot codec = some headRoot ∧ fc.iterateBlockSummaries codec headRoot = .ok canonical
  stored : ∀ summary ∈ canonical, ∃ value, (block values).get db (.bytes summary.blockRoot.toList) = .ok (some value) ∧
    blocks.slot (blocks.ofBlock value) = summary.slot
  newer : ∀ summary ∈ canonical, ∀ e ∈ rows.entries, e.1 < summary.slot

theorem takeStream_filter {α : Type} {decode : Buffer → Except DbError α} {slot : α → Nat} {p : Nat → Bool} :
    ∀ {rows : List (Nat × Buffer)}, (∀ e ∈ rows, ∃ value, decode e.2 = .ok value ∧ slot value = e.1) →
      ∃ found, takeStream (((rows.map (·.2)).map decode).filter fun
          | .error _ => true
          | .ok value => p (slot value)) = (found, none) ∧
        found.map slot = (rows.map (·.1)).filter p ∧
        ∀ value, value ∈ found ↔ ∃ e ∈ rows, decode e.2 = .ok value ∧ p e.1 = true
  | [], _ => ⟨[], rfl, rfl, fun value => by simp⟩
  | e :: rows, h => by
    obtain ⟨first, hfirst, hslot⟩ := h e List.mem_cons_self
    obtain ⟨found, hrun, hslots, hmem⟩ := takeStream_filter (p := p) fun e' he' => h e' (List.mem_cons_of_mem e he')
    simp only [List.map_cons, hfirst, List.filter_cons, hslot]
    by_cases hkeep : p e.1 = true
    · refine ⟨first :: found, ?_, ?_, fun value => ?_⟩
      · rw [if_pos hkeep]
        unfold takeStream
        rw [hrun]
      · rw [if_pos hkeep, List.map_cons, hslot, hslots]
      · rw [List.mem_cons, hmem]
        constructor
        · rintro (rfl | ⟨e', he', hvalue⟩)
          · exact ⟨e, List.mem_cons_self, hfirst, hkeep⟩
          · exact ⟨e', List.mem_cons_of_mem e he', hvalue⟩
        · rintro ⟨e', he', hvalue, hkeep'⟩
          rcases List.mem_cons.1 he' with rfl | he'
          · rw [hfirst] at hvalue
            cases hvalue
            exact .inl rfl
          · exact .inr ⟨e', he', hvalue, hkeep'⟩
    · refine ⟨found, ?_, ?_, fun value => ?_⟩
      · rw [if_neg hkeep]
        exact hrun
      · rw [if_neg hkeep]
        exact hslots
      · rw [hmem]
        constructor
        · rintro ⟨e', he', hvalue⟩
          exact ⟨e', List.mem_cons_of_mem e he', hvalue⟩
        · rintro ⟨e', he', hvalue, hkeep'⟩
          rcases List.mem_cons.1 he' with rfl | he'
          · exact absurd hkeep' hkeep
          · exact ⟨e', he', hvalue, hkeep'⟩

variable {rows : SortedMap Nat Buffer} {canonical : List BlockSummary} {request : BeaconBlocksByRangeRequest}

theorem valuesStream_requested (h : Kept codec blocks fc db rows canonical) (hstep : 1 ≤ request.step)
    (hsafe : request.startSlot + request.count * request.step ≤ MAX_SAFE_INTEGER) :
    ∃ stream found,
      valuesStream db { gte := some (.number request.startSlot),
                        lt := some (.number (request.startSlot + request.count * request.step)) } request.step = .ok stream ∧
      takeStream stream = (found, none) ∧
      (found.map fun value => (values.archivedMessage value).slot).Pairwise (· < ·) ∧
      ∀ value, value ∈ found ↔ ∃ e ∈ rows.entries, values.deserialize .blockArchive e.2 = .ok value ∧ Requested request e.1 := by
  have hstart : request.startSlot ≤ MAX_SAFE_INTEGER := by omega
  have hfirst : BlockArchiveRepository.firstSlot ((blockArchive values).dbFilterOptions
      { gte := some (.number request.startSlot),
        lt := some (.number (request.startSlot + request.count * request.step)) }) = .ok request.startSlot := by
    have hkey : numberKey ((blockArchive values).encodeKey (.number request.startSlot)) = .number request.startSlot :=
      numberKey_encodeKey hstart
    exact congrArg Except.ok (Id.number.inj hkey)
  have hfits : Fits { gte := some request.startSlot, lt := some (request.startSlot + request.count * request.step) } := by
    constructor
    · simp
    · simpa using lt_of_safe hstart
    · simpa using lt_of_safe hsafe
    · simp
  have hstream := h.archive.valuesStream_eq hfits
  have hdecode : ∀ e ∈ Rows.entries rows
      { gte := some request.startSlot, lt := some (request.startSlot + request.count * request.step) },
      ∃ value, values.deserialize .blockArchive e.2 = .ok value ∧ (values.archivedMessage value).slot = e.1 :=
    fun e he => h.archived e (Rows.mem_of_mem_entries he).1
  obtain ⟨found, hrun, hslots, hmem⟩ := takeStream_filter
    (p := fun n => (n - request.startSlot : Int) % (if request.step = 0 then 1 else request.step : Nat) == 0) hdecode
  refine ⟨_, found, ?_, hrun, ?_, fun value => ?_⟩
  · unfold valuesStream
    rw [hfirst]
    have hstream' : (blockArchive values).valuesStream db
        { gte := some (.number request.startSlot),
          lt := some (.number (request.startSlot + request.count * request.step)) } = _ := hstream
    rw [hstream']
    refine congrArg Except.ok (List.filter_congr fun value _ => ?_)
    cases value <;> rfl
  · rw [hslots]
    refine List.Pairwise.sublist List.filter_sublist (List.pairwise_map.2 ?_)
    exact rows.sorted.sublist List.filter_sublist
  · rw [hmem]
    constructor
    · rintro ⟨e, he, hvalue, hkeep⟩
      obtain ⟨hrow, hrange⟩ := Rows.mem_of_mem_entries he
      refine ⟨e, hrow, hvalue, (requested_iff hstep).2 ⟨by simpa [inNumberRange] using hrange, ?_⟩⟩
      rw [if_neg (by omega)] at hkeep
      exact eq_of_beq hkeep
    · rintro ⟨e, hrow, hvalue, hreq⟩
      obtain ⟨hrange, hmod⟩ := (requested_iff hstep).1 hreq
      refine ⟨e, List.mem_filter.2 ⟨hrow, by simpa [inNumberRange] using hrange⟩, hvalue, ?_⟩
      rw [if_neg (by omega)]
      exact beq_iff_eq.2 hmod

theorem get?_foldl_summaries {ν : Type} {slots : List Nat} {read : BlockSummary → ν} {slot : Nat} {value : ν} :
    ∀ (summaries : List BlockSummary) (m : OrderedMap Nat ν), summaries.Pairwise (fun a b => b.slot < a.slot) →
      (∀ summary ∈ summaries, m.get? summary.slot = none) →
      ((summaries.foldl (fun m summary => if summary.slot ∈ slots then m.set summary.slot (read summary) else m) m).get? slot =
          some value ↔
        m.get? slot = some value ∨ ∃ summary ∈ summaries, summary.slot = slot ∧ slot ∈ slots ∧ read summary = value)
  | [], m, _, _ => by simp
  | summary :: summaries, m, hsorted, hnone => by
    obtain ⟨hlater, hsorted⟩ := List.pairwise_cons.1 hsorted
    have hfirst := hnone summary List.mem_cons_self
    have hkeep : ∀ later ∈ summaries,
        (if summary.slot ∈ slots then m.set summary.slot (read summary) else m).get? later.slot = none := by
      intro later hmem
      have hlt := hlater later hmem
      by_cases hslots : summary.slot ∈ slots
      · rw [if_pos hslots, OrderedMap.get?_set, if_neg (by omega)]
        exact hnone later (List.mem_cons_of_mem _ hmem)
      · rw [if_neg hslots]
        exact hnone later (List.mem_cons_of_mem _ hmem)
    rw [List.foldl_cons, get?_foldl_summaries summaries _ hsorted hkeep, List.exists_mem_cons_iff]
    by_cases hslots : summary.slot ∈ slots
    · rw [if_pos hslots, OrderedMap.get?_set]
      by_cases heq : slot = summary.slot
      · subst heq
        rw [if_pos rfl, hfirst]
        simp [hslots]
      · rw [if_neg heq]
        have hne : ¬ summary.slot = slot := fun h => heq h.symm
        simp [hne]
    · rw [if_neg hslots]
      have hnot : ¬ (summary.slot = slot ∧ slot ∈ slots ∧ read summary = value) := by
        rintro ⟨rfl, hmem, -⟩
        exact hslots hmem
      simp [hnot]

theorem getUnfinalizedBlocksAtSlots_kept (h : Kept codec blocks fc db rows canonical) (slots : List Nat) :
    ∃ recent, getUnfinalizedBlocksAtSlots codec fc db slots = .ok recent ∧
      (recent.map fun value => blocks.slot (blocks.ofBlock value)).Sublist slots ∧
      ∀ value, value ∈ recent ↔ ∃ summary ∈ canonical, summary.slot ∈ slots ∧
        (block values).get db (.bytes summary.blockRoot.toList) = .ok (some value) := by
  obtain ⟨headRoot, hhead, hchain⟩ := h.chain
  have hsorted := ForkChoice.iterateBlockSummaries_slots h.wellFormed h.slotsIncrease hchain
  unfold getUnfinalizedBlocksAtSlots
  by_cases hempty : slots.length = 0
  · rw [if_pos hempty, List.length_eq_zero_iff.1 hempty]
    exact ⟨[], rfl, List.Sublist.slnil, fun value => by simp⟩
  rw [if_neg hempty, hhead]
  dsimp only
  rw [hchain]
  dsimp only
  generalize hm : canonical.foldl (fun (blockRootsPerSlot : OrderedMap Nat (Except DbError _)) summary =>
    if summary.slot ∈ slots then
      blockRootsPerSlot.set summary.slot ((block values).get db (.bytes summary.blockRoot.toList))
    else blockRootsPerSlot) .empty = blockRootsPerSlot
  have hget : ∀ slot value, blockRootsPerSlot.get? slot = some value ↔ ∃ summary ∈ canonical, summary.slot = slot ∧
      slot ∈ slots ∧ (block values).get db (.bytes summary.blockRoot.toList) = value := by
    intro slot value
    rw [← hm, get?_foldl_summaries canonical _ hsorted fun _ _ => rfl]
    constructor
    · rintro (hnone | hsome)
      · cases hnone
      · exact hsome
    · exact .inr
  obtain ⟨found, hfound, hall⟩ := mapM_returns (f := fun slot => (blockRootsPerSlot.get? slot).getD (.ok none)) (l := slots)
    (R := fun slot found => ∀ value, found = some value ↔ ∃ summary ∈ canonical, summary.slot = slot ∧
      (block values).get db (.bytes summary.blockRoot.toList) = .ok (some value)) (by
    intro slot hslot
    cases hread : blockRootsPerSlot.get? slot with
    | none =>
      refine ⟨none, rfl, fun value => ⟨fun hn => (by cases hn), ?_⟩⟩
      rintro ⟨summary, hmem, hsum, hval⟩
      rw [(hget slot _).2 ⟨summary, hmem, hsum, hslot, hval⟩] at hread
      cases hread
    | some read =>
      obtain ⟨summary, hmem, hsum, -, rfl⟩ := (hget slot read).1 hread
      obtain ⟨stored, hstored, -⟩ := h.stored summary hmem
      refine ⟨some stored, by rw [← hstored]; rfl, fun value => ⟨?_, ?_⟩⟩
      · intro heq
        cases heq
        exact ⟨summary, hmem, hsum, hstored⟩
      · rintro ⟨summary', hmem', hsum', hval'⟩
        have := (hget slot _).2 ⟨summary', hmem', hsum', hslot, hval'⟩
        rw [hread, hstored] at this
        cases this
        rfl)
  rw [hfound]
  have hkey : ∀ slot value, (∃ summary ∈ canonical, summary.slot = slot ∧
      (block values).get db (.bytes summary.blockRoot.toList) = .ok (some value)) →
      blocks.slot (blocks.ofBlock value) = slot := by
    rintro slot value ⟨summary, hmem, rfl, hread⟩
    obtain ⟨stored, hstored, hslot⟩ := h.stored summary hmem
    rw [hread] at hstored
    cases hstored
    exact hslot
  obtain ⟨hsub, hmem⟩ := filterMap_found hkey hall
  refine ⟨found.filterMap id, rfl, hsub, fun value => ?_⟩
  rw [hmem]
  constructor
  · rintro ⟨slot, hslot, summary, hsummary, rfl, hread⟩
    exact ⟨summary, hsummary, hslot, hread⟩
  · rintro ⟨summary, hsummary, hslot, hread⟩
    exact ⟨summary.slot, hslot, summary, hsummary, rfl, hread⟩

def IsServed (blocks : SignedBlocks values) (db : Store) (rows : SortedMap Nat Buffer)
    (canonical : List BlockSummary) (request : BeaconBlocksByRangeRequest) (served : blocks.SignedBeaconBlock) : Prop :=
  (∃ e ∈ rows.entries, ∃ value, values.deserialize .blockArchive e.2 = .ok value ∧ served = blocks.ofArchived value ∧
    Requested request e.1) ∨
  ∃ summary ∈ canonical, ∃ value, (block values).get db (.bytes summary.blockRoot.toList) = .ok (some value) ∧
    served = blocks.ofBlock value ∧ Requested request summary.slot

theorem injectRecentBlocks_kept (h : Kept codec blocks fc db rows canonical) (hstep : 1 ≤ request.step)
    {stream : List (Except DbError (values.Value .blockArchive))} {found : List (values.Value .blockArchive)}
    (hrun : takeStream stream = (found, none))
    (hsorted : (found.map fun value => (values.archivedMessage value).slot).Pairwise (· < ·))
    (hmem : ∀ value, value ∈ found ↔
      ∃ e ∈ rows.entries, values.deserialize .blockArchive e.2 = .ok value ∧ Requested request e.1) :
    ∃ yielded, injectRecentBlocks codec blocks fc db stream request =
        ⟨yielded, if yielded.length = 0 then some (.ResponseError .RESOURCE_UNAVAILABLE "No block found") else none⟩ ∧
      (yielded.map blocks.slot).Pairwise (· < ·) ∧ ∀ served, served ∈ yielded ↔ IsServed blocks db rows canonical request served := by
  -- the slot the second part begins at
  generalize hslot : ((found.map blocks.ofArchived).getLast?).elim request.startSlot
    (fun archiveBlock => blocks.slot archiveBlock + request.step) = slot
  have hslots : (found.map blocks.ofArchived).map blocks.slot = found.map fun value => (values.archivedMessage value).slot := by
    rw [List.map_map]
    exact List.map_congr_left fun value _ => blocks.slot_ofArchived value
  have hrow : ∀ value ∈ found, ∃ e ∈ rows.entries, (values.archivedMessage value).slot = e.1 ∧ Requested request e.1 := by
    intro value hvalue
    obtain ⟨e, he, hdecode, hreq⟩ := (hmem value).1 hvalue
    obtain ⟨value', hdecode', heq⟩ := h.archived e he
    rw [hdecode] at hdecode'
    cases hdecode'
    exact ⟨e, he, heq, hreq⟩
  have hbegin : (∃ j, slot = request.startSlot + j * request.step) ∧
      (∀ value ∈ found, (values.archivedMessage value).slot < slot) ∧
      ∀ summary ∈ canonical, Requested request summary.slot → slot ≤ summary.slot := by
    rcases List.eq_nil_or_concat found with rfl | ⟨front, last, rfl⟩
    · cases hslot
      refine ⟨⟨0, by simp⟩, fun value hvalue => absurd hvalue List.not_mem_nil, fun summary _ hreq => ?_⟩
      exact ((requested_iff hstep).1 hreq).1.1
    · rw [List.concat_eq_append] at *
      have hslot' : slot = (values.archivedMessage last).slot + request.step := by
        rw [← hslot, List.map_append, List.map_singleton, List.getLast?_concat, ← blocks.slot_ofArchived]
        rfl
      obtain ⟨e, he, hlast, hreq⟩ := hrow last (by simp)
      obtain ⟨j, hj, hj'⟩ := hreq
      refine ⟨⟨j + 1, by rw [hslot', hlast, hj', Nat.succ_mul]; omega⟩, fun value hvalue => ?_, fun summary hsummary hreq' => ?_⟩
      · rw [hslot']
        rcases List.mem_append.1 hvalue with hfront | hvalue
        · rw [List.map_append, List.pairwise_append] at hsorted
          have := hsorted.2.2 _ (List.mem_map_of_mem hfront) (values.archivedMessage last).slot (by simp)
          omega
        · rw [List.mem_singleton.1 hvalue]
          omega
      · rw [hslot', hlast]
        exact Requested.add_step_le ⟨j, hj, hj'⟩ hreq' (h.newer summary hsummary e he)
  obtain ⟨⟨j, hj⟩, hbefore, hafter⟩ := hbegin
  generalize hupper : request.startSlot + request.count * request.step = upperSlot
  have hlist : ∀ n, n ∈ slotsFrom upperSlot request.step (upperSlot - slot) slot ↔ Requested request n ∧ slot ≤ n := by
    intro n
    rw [← hupper]
    exact mem_slotsFrom_requested hstep hj
  obtain ⟨recent, hrecent, hsub, hmem'⟩ :=
    getUnfinalizedBlocksAtSlots_kept h (slotsFrom upperSlot request.step (upperSlot - slot) slot)
  refine ⟨found.map blocks.ofArchived ++ recent.map blocks.ofBlock, ?_, ?_, fun served => ?_⟩
  · unfold injectRecentBlocks
    rw [hrun]
    dsimp only
    rw [hslot, hupper, hrecent]
  · rw [List.map_append, hslots, List.map_map]
    refine List.pairwise_append.2 ⟨hsorted, (slotsFrom_sorted hstep _ _ (by omega)).sublist hsub, ?_⟩
    rintro _ hleft n hright
    obtain ⟨value, hvalue, rfl⟩ := List.mem_map.1 hleft
    have hle := ((hlist n).1 (hsub.subset hright)).2
    have := hbefore value hvalue
    omega
  · unfold IsServed
    rw [List.mem_append, List.mem_map, List.mem_map]
    refine or_congr ?_ ?_
    · constructor
      · rintro ⟨value, hvalue, rfl⟩
        obtain ⟨e, he, hdecode, hreq⟩ := (hmem value).1 hvalue
        exact ⟨e, he, value, hdecode, rfl, hreq⟩
      · rintro ⟨e, he, value, hdecode, rfl, hreq⟩
        exact ⟨value, (hmem value).2 ⟨e, he, hdecode, hreq⟩, rfl⟩
    · constructor
      · rintro ⟨value, hvalue, rfl⟩
        obtain ⟨summary, hsummary, hin, hread⟩ := (hmem' value).1 hvalue
        exact ⟨summary, hsummary, value, hread, rfl, ((hlist _).1 hin).1⟩
      · rintro ⟨summary, hsummary, value, hread, rfl, hreq⟩
        refine ⟨value, (hmem' value).2 ⟨summary, hsummary, (hlist _).2 ⟨hreq, hafter summary hsummary hreq⟩, hread⟩, rfl⟩

/-- **A valid request is answered with the blocks of its slots**, each once and in the order of slots, and its client accepts
them; only where there is none does the handler throw. -/
theorem onBeaconBlocksByRange_serves {rows : SortedMap Nat Buffer} {canonical : List BlockSummary}
    (h : Kept codec blocks fc db rows canonical) {request : BeaconBlocksByRangeRequest} (hvalid : Valid request) :
    let served := onBeaconBlocksByRange codec blocks fc db request
    let slots := served.yielded.map blocks.slot
    slots.Pairwise (· < ·) ∧
      (∀ block, block ∈ served.yielded ↔ IsServed blocks db rows canonical (clamped request) block) ∧
      assertSequentialBlocksInRange slots request = .ok () ∧
      assertSequentialBlocksInRange slots (clamped request) = .ok () ∧
      served.error = if served.yielded.length = 0 then some (.ResponseError .RESOURCE_UNAVAILABLE "No block found") else none := by
  have hstep : 1 ≤ (clamped request).step := by
    rw [step_clamped]
    exact hvalid.step_pos
  have hsafe : (clamped request).startSlot + (clamped request).count * (clamped request).step ≤ MAX_SAFE_INTEGER := by
    rw [step_clamped, startSlot_clamped]
    exact hvalid.safe
  obtain ⟨stream, found, hstream, hrun, hsorted, hmem⟩ := valuesStream_requested h hstep hsafe
  obtain ⟨yielded, hyield, hslots, hserved⟩ := injectRecentBlocks_kept h hstep hrun hsorted hmem
  have hanswer : onBeaconBlocksByRange codec blocks fc db request =
      ⟨yielded, if yielded.length = 0 then some (.ResponseError .RESOURCE_UNAVAILABLE "No block found") else none⟩ := by
    have := hvalid.step_pos
    have := hvalid.count_pos
    unfold onBeaconBlocksByRange
    rw [if_neg (by omega), if_neg (by omega), if_neg (c := request.startSlot < GENESIS_SLOT) (Nat.not_lt_zero _)]
    dsimp only
    rw [hstream]
    exact hyield
  have hreq : ∀ slot ∈ yielded.map blocks.slot, Requested (clamped request) slot := by
    intro slot hslot
    obtain ⟨block, hblock, rfl⟩ := List.mem_map.1 hslot
    rcases (hserved block).1 hblock with ⟨e, he, value, hdecode, rfl, hreq⟩ | ⟨summary, hsummary, value, hread, rfl, hreq⟩
    · obtain ⟨value', hdecode', heq⟩ := h.archived e he
      rw [hdecode] at hdecode'
      cases hdecode'
      rw [blocks.slot_ofArchived, heq]
      exact hreq
    · obtain ⟨value', hread', heq⟩ := h.stored summary hsummary
      rw [hread] at hread'
      cases hread'
      rw [heq]
      exact hreq
  rw [hanswer]
  refine ⟨hslots, hserved, ?_, assertSequentialBlocksInRange_ok hstep hslots hreq, rfl⟩
  exact assertSequentialBlocksInRange_ok hvalid.step_pos hslots fun slot hslot => (hreq slot hslot).of_clamped

end Stores

/-! ## Two archived blocks and a chain of two -/

def blockValues : Values :=
  { plainValues with archivedMessage := fun value => ⟨BigEndian.decode (value : Buffer), zeroRoot, zeroRoot⟩ }

def signedBlocks : SignedBlocks blockValues where
  SignedBeaconBlock := Buffer
  ofBlock value := value
  ofArchived value := value
  slot value := BigEndian.decode (value : Buffer)
  slot_ofArchived _ := rfl

def chainTree : ProtoArray :=
  ProtoArray.runOps (.new 0 0 0)
    [.onBlock (chainBlock 2 2 1), .onBlock (chainBlock 5 5 2), .onBlock (chainBlock 7 7 5)]

def chainForkChoice : ForkChoice :=
  { ForkChoice.construct ⟨7, ⟨0, ""⟩, ⟨0, ""⟩, ⟨0, ""⟩⟩ chainTree [] [] with head := some (chainBlock 7 7 5) }

def archivedRows : SortedMap Nat Buffer := (SortedMap.empty.insert 1 (BigEndian.encode 8 1)).insert 2 (BigEndian.encode 8 2)

def chainDb : Store :=
  let archive := (blockArchive blockValues).putBinary
    ((blockArchive blockValues).putBinary .empty (.number 1) (BigEndian.encode 8 1)) (.number 2) (BigEndian.encode 8 2)
  (block blockValues).putBinary
    ((block blockValues).putBinary archive (.bytes (chainRoot 5).toList) (BigEndian.encode 8 5))
    (.bytes (chainRoot 7).toList) (BigEndian.encode 8 7)

def chainSummaries : List BlockSummary := [⟨7, chainRoot 7, chainRoot 5⟩, ⟨5, chainRoot 5, chainRoot 2⟩]

theorem chainTree_blocks :
    (chainTree.iterateNodes (hexCodec.toHexRoot (chainRoot 7))).map (·.map (·.toProtoBlock)) =
      .ok [chainBlock 7 7 5, chainBlock 5 5 2, chainBlock 2 2 1] ∧
    ∀ i < chainTree.nodes.length, ∀ p ∈ chainTree.parentOf i,
      (chainTree.nodes.map (·.slot)).getD p 0 < (chainTree.nodes.map (·.slot)).getD i 0 := by
  decide +kernel

theorem chainForkChoice_head : chainForkChoice.getHeadRoot hexCodec = some (chainRoot 7) :=
  congrArg (fun summary : BlockSummary => some summary.blockRoot) (toBlockSummary_chainBlock 7 7 5)

theorem chainForkChoice_summaries : chainForkChoice.iterateBlockSummaries hexCodec (chainRoot 7) = .ok chainSummaries := by
  rw [ForkChoice.iterateBlockSummaries_of_blocks hexCodec chainTree_blocks.1]
  simp only [List.map_cons, toBlockSummary_chainBlock]
  rfl

theorem chainDb_archive : Rows (blockArchive blockValues) chainDb archivedRows := by
  have hother : ∀ key, InBucket (blockArchive blockValues).bucket.value key → ¬ InBucket (block blockValues).bucket.value key :=
    fun key h h' => absurd (h.value_eq h') (by decide)
  have hput : ∀ id value, WritesOnly (InBucket (block blockValues).bucket.value)
      (fun db => (block blockValues).putBinary db id value) :=
    fun id value => Repository.writesOnly_putBinary (fun _ h => h) id value
  have hempty : Rows (blockArchive blockValues) .empty .empty := Rows.empty
  have harchive := (hempty.putBinary (n := 1) (by decide) (BigEndian.encode 8 1)).putBinary (n := 2) (by decide)
    (BigEndian.encode 8 2)
  exact (harchive.frame (hput _ _) hother).frame (hput _ _) hother

theorem chain_kept : Kept hexCodec signedBlocks chainForkChoice chainDb archivedRows chainSummaries where
  archive := chainDb_archive
  archived e he := by
    have hrows : archivedRows.entries = [(1, BigEndian.encode 8 1), (2, BigEndian.encode 8 2)] := rfl
    rw [hrows] at he
    simp only [List.mem_cons, List.not_mem_nil, or_false] at he
    rcases he with rfl | rfl
    · exact ⟨BigEndian.encode 8 1, rfl, rfl⟩
    · exact ⟨BigEndian.encode 8 2, rfl, rfl⟩
  wellFormed := ProtoArray.WellFormed.runOps _ (ProtoArray.WellFormed.new 0 0 0)
  slotsIncrease := ProtoArray.slotsIncrease_of chainTree_blocks.2
  chain := ⟨chainRoot 7, chainForkChoice_head, chainForkChoice_summaries⟩
  stored summary hsummary := by
    simp only [chainSummaries, List.mem_cons, List.not_mem_nil, or_false] at hsummary
    rcases hsummary with rfl | rfl
    · exact ⟨BigEndian.encode 8 7, rfl, rfl⟩
    · exact ⟨BigEndian.encode 8 5, rfl, rfl⟩
  newer summary hsummary e he := by
    have hrows : archivedRows.entries = [(1, BigEndian.encode 8 1), (2, BigEndian.encode 8 2)] := rfl
    rw [hrows] at he
    simp only [chainSummaries, List.mem_cons, List.not_mem_nil, or_false] at hsummary he
    rcases hsummary with rfl | rfl <;> rcases he with rfl | rfl <;> decide

theorem onBeaconBlocksByRange_slots : (onBeaconBlocksByRange hexCodec signedBlocks chainForkChoice chainDb ⟨1, 4, 2⟩).yielded.map
    signedBlocks.slot = [1, 5, 7] := by
  unfold onBeaconBlocksByRange injectRecentBlocks getUnfinalizedBlocksAtSlots
  simp only [chainForkChoice_head, chainForkChoice_summaries]
  decide +kernel

theorem onBeaconBlocksByRange_serves_odd :
    let request : BeaconBlocksByRangeRequest := ⟨1, 4, 2⟩
    let served := onBeaconBlocksByRange hexCodec signedBlocks chainForkChoice chainDb request
    let slots := served.yielded.map signedBlocks.slot
    slots = [1, 5, 7] ∧ slots.Pairwise (· < ·) ∧
      (∀ block, block ∈ served.yielded ↔ IsServed signedBlocks chainDb archivedRows chainSummaries (clamped request) block) ∧
      assertSequentialBlocksInRange slots request = .ok () ∧
      assertSequentialBlocksInRange slots (clamped request) = .ok () ∧
      served.error = if served.yielded.length = 0 then some (.ResponseError .RESOURCE_UNAVAILABLE "No block found") else none :=
  ⟨onBeaconBlocksByRange_slots, onBeaconBlocksByRange_serves chain_kept ⟨by decide, by decide, by decide⟩⟩

end Lodestar.ReqResp
